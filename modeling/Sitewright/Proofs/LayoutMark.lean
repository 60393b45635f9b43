import Sitewright.Markdown.Block
import Sitewright.Markdown.Compile
import Sitewright.Proofs.Mark
import Sitewright.Proofs.Rewriting

/-!
Marks of kept HTML on the page. A paragraph with a mark is written as it is, and the mark in it gives
way to what is kept under its number.
-/
namespace Sitewright.Markdown

namespace Layout

mutual
/-- Highlighting adds the HTML of blocks of code to what is kept, and nothing else. -/
lemma exists_highlight (kept : List Text) : (e : Element) →
    ∃ codes : List Text, (highlight kept e).2 = kept ++ codes.map Highlight.indented
  | ⟨tag, attributes, text, verbatim, children, tail⟩ => by
    rw [highlight]
    split
    · exact ⟨[unescaped _], rfl⟩
    · exact exists_highlightAll kept children

lemma exists_highlightAll (kept : List Text) : (es : List Element) →
    ∃ codes : List Text, (highlightAll kept es).2 = kept ++ codes.map Highlight.indented
  | [] => ⟨[], (List.append_nil kept).symm⟩
  | e :: es => by
    obtain ⟨codes, hcodes⟩ := exists_highlight kept e
    obtain ⟨more, hmore⟩ := exists_highlightAll (highlight kept e).2 es
    refine ⟨codes ++ more, ?_⟩
    rw [highlightAll, List.map_append, ← List.append_assoc, ← hcodes]
    exact hmore
end

lemma kept_highlight (kept : List Text) (e : Element) : kept <+: (highlight kept e).2 := by
  obtain ⟨codes, hcodes⟩ := exists_highlight kept e
  rw [hcodes]
  exact List.prefix_append _ _

lemma highlight_mark (kept : List Text) (n : ℕ) :
    highlight kept (Block.paragraph (Mark.html n)) = (Block.paragraph (Mark.html n), kept) := rfl

lemma tail_highlight (kept : List Text) {e : Element} (h : e.tail = []) :
    (highlight kept e).1.tail = [] := by
  cases e with
  | mk tag attributes text verbatim children tail =>
    rw [highlight]
    split
    · rfl
    · exact h

lemma tails_highlightAll (kept : List Text) {es : List Element} (h : ∀ e ∈ es, e.tail = []) :
    ∀ e ∈ (highlightAll kept es).1, e.tail = [] := by
  induction es generalizing kept with
  | nil =>
    rw [highlightAll]
    exact h
  | cons e es ih =>
    rw [highlightAll]
    intro e' he'
    rcases List.mem_cons.mp he' with rfl | he'
    · exact tail_highlight kept (h e List.mem_cons_self)
    · exact ih _ (fun e he => h e (List.mem_cons_of_mem _ he)) e' he'

lemma mark_mem_highlightAll (kept : List Text) {n : ℕ} {es : List Element}
    (h : Block.paragraph (Mark.html n) ∈ es) :
    Block.paragraph (Mark.html n) ∈ (highlightAll kept es).1 := by
  induction es generalizing kept with
  | nil => cases h
  | cons e es ih =>
    rw [highlightAll]
    rcases List.mem_cons.mp h with rfl | h
    · rw [highlight_mark]
      exact List.mem_cons_self
    · exact List.mem_cons_of_mem _ (ih _ h)

/-- A document is highlighted in its children. -/
lemma highlight_root (kept : List Text) {root : Element} (htag : root.tag = "div".toList) :
    (highlight kept root).1 = { root with children := (highlightAll kept root.children).1 } := by
  cases root with
  | mk tag attributes text verbatim children tail =>
    obtain rfl : tag = "div".toList := htag
    have hcode : soleCode? "div".toList children = none := by
      unfold soleCode?
      split
      · rfl
      · rfl
    rw [highlight, hcode]

end Layout

lemma Mark.unescape_of_not_mem {t : Text} (h : Mark.opening ∉ t) : Mark.unescape t = t := by
  unfold Mark.unescape
  induction t with
  | nil => rfl
  | cons c cs ih =>
    have hc : c ≠ Mark.opening := (List.ne_of_not_mem_cons h).symm
    have hnone : Mark.escaped? (c :: cs) = none := by
      simp [Mark.escaped?, Mark.numbered?, List.isPrefixOf?, hc.symm]
    rw [Mark.unescapeFrom, hnone, ih (List.not_mem_of_not_mem_cons h)]

/-- A mark of kept HTML protects no character. -/
lemma Mark.unescape_html (n : ℕ) : Mark.unescape (Mark.html n) = Mark.html n := by
  obtain ⟨t, ht, hnot⟩ := Mark.html_head n
  have hnone : Mark.escaped? (Mark.html n) = none := rfl
  have hrest : Mark.unescapeFrom 0 t = t := Mark.unescape_of_not_mem hnot
  rw [ht] at hnone ⊢
  rw [Mark.unescape, Mark.unescapeFrom, hnone, hrest]

lemma escapeHtml_parts (quotes : Bool) {t : Text} (h : ∀ c ∈ t, Mark.IsPart c) :
    escapeHtml quotes t = t := by
  induction t with
  | nil => rfl
  | cons c cs ih =>
    have hc := h c List.mem_cons_self
    have hamp : c ≠ '&' := hc.ne (by decide)
    have hless : c ≠ '<' := hc.ne (by decide)
    have hmore : c ≠ '>' := hc.ne (by decide)
    have hquote : c ≠ '"' := hc.ne (by decide)
    rw [escapeHtml, ih fun d hd => h d (List.mem_cons_of_mem c hd)]
    simp [hamp, hless, hmore, hquote]

/-- A paragraph that holds nothing but a mark, as it is written. -/
def markedParagraph (n : ℕ) : Text := "<p>".toList ++ Mark.html n ++ "</p>".toList

lemma trimmed_markedParagraph (n : ℕ) : Text.Trimmed (markedParagraph n) := by
  constructor
  · intro c hc
    obtain rfl : '<' = c := Option.some.inj hc
    decide
  · intro c hc
    rw [markedParagraph, List.getLast?_append_of_ne_nil _ (by decide)] at hc
    obtain rfl : '>' = c := Option.some.inj hc
    decide

namespace Layout

lemma isBlockTag_p : isBlockTag "p".toList = true := by decide

lemma isBlockTag_div : isBlockTag "div".toList = true := by decide

/-- A paragraph with a mark is finished by a line feed behind it. -/
lemma unprotected_mark (n : ℕ) :
    unprotected (feedBreaks (spaced (Block.paragraph (Mark.html n)))) =
      { Block.paragraph (Mark.html n) with tail := ['\n'] } := by
  have hspaced : spaced (Block.paragraph (Mark.html n)) =
      ⟨"p".toList, [], Mark.html n, false, [], ['\n']⟩ := by
    rw [Block.paragraph, Element.named, spaced, isBlockTag_p]
    rfl
  have hfed : feedBreaks ⟨"p".toList, [], Mark.html n, false, [], ['\n']⟩ =
      ⟨"p".toList, [], Mark.html n, false, [], ['\n']⟩ := by
    rw [feedBreaks, if_pos (by decide)]
    rfl
  have hcode : "p".toList ≠ "code".toList := by decide
  rw [hspaced, hfed, unprotected, if_neg hcode, Mark.unescape_html]
  rfl

lemma mark_mem_finished {n : ℕ} {es : List Element} (h : Block.paragraph (Mark.html n) ∈ es) :
    { Block.paragraph (Mark.html n) with tail := ['\n'] } ∈
      unprotectedAll (feedBreaksAll (spacedBlocks es)) := by
  induction es with
  | nil => cases h
  | cons e es ih =>
    rw [spacedBlocks, feedBreaksAll, unprotectedAll]
    rcases List.mem_cons.mp h with rfl | h
    · have htag : isBlockTag (Block.paragraph (Mark.html n)).tag = true := isBlockTag_p
      rw [if_pos htag, unprotected_mark]
      exact List.mem_cons_self
    · exact List.mem_cons_of_mem _ (ih h)

lemma html_infix_htmls {e : Element} {es : List Element} (h : e ∈ es) :
    e.html <:+: Element.htmls es := by
  induction es with
  | nil => cases h
  | cons d es ih =>
    rw [Element.htmls]
    rcases List.mem_cons.mp h with rfl | h
    · exact (List.prefix_append _ _).isInfix
    · exact (ih h).trans (List.suffix_append _ _).isInfix

lemma html_mark (n : ℕ) : Element.html { Block.paragraph (Mark.html n) with tail := ['\n'] } =
    markedParagraph n ++ ['\n'] := by
  have hvoid : voidTags.contains "p".toList = false := by decide
  have hmark : escapeHtml false (Mark.html n) = Mark.html n :=
    escapeHtml_parts false fun c hc => Mark.isPart_of_mem hc
  have hhtml : Element.html ⟨"p".toList, [], Mark.html n, false, [], ['\n']⟩ =
      '<' :: "p".toList ++ '>' :: Mark.html n ++ ("</".toList ++ "p".toList ++ ['>']) ++ ['\n'] := by
    rw [Element.html, Element.htmls, hmark, hvoid]
    simp [escapeHtml]
  exact hhtml

end Layout

lemma breakAt?_prefix {c : Char} (needle rest : Text) :
    Text.breakAt? (c :: needle) (c :: needle ++ rest) = some ([], rest) := by
  have hprefix : (c :: needle).isPrefixOf? (c :: needle ++ rest) = some rest :=
    List.isPrefixOf?_eq_some_iff_append_eq.mpr rfl
  rw [List.cons_append] at hprefix ⊢
  rw [Text.breakAt?, hprefix]

/-- What stands inside the element around a page. -/
lemma inner_eq {text : Text} {verbatim : Bool} {children : List Element} :
    inner ⟨"div".toList, [], text, verbatim, children, ['\n']⟩ =
      Text.strip (escapeHtml false text ++ Element.htmls children) := by
  obtain ⟨body, hbody⟩ : ∃ body, body = escapeHtml false text ++ Element.htmls children := ⟨_, rfl⟩
  have hhtml : Element.html ⟨"div".toList, [], text, verbatim, children, ['\n']⟩ =
      "<div>".toList ++ (body ++ ("</div>".toList ++ ['\n'])) := by
    have hvoid : voidTags.contains "div".toList = false := by decide
    rw [Element.html, hvoid, hbody]
    simp [escapeHtml]
  have hopening : Text.breakAt? "<div>".toList ("<div>".toList ++ (body ++ ("</div>".toList ++ ['\n']))) =
      some ([], body ++ ("</div>".toList ++ ['\n'])) := breakAt?_prefix _ _
  have hclosing : Text.breakAt? ">vid/<".toList (body ++ ("</div>".toList ++ ['\n'])).reverse =
      some (['\n'], body.reverse) := by
    have hreverse : (body ++ ("</div>".toList ++ ['\n'])).reverse =
        '\n' :: (">vid/<".toList ++ body.reverse) := by simp
    have hbreak : Text.breakAt? ">vid/<".toList (">vid/<".toList ++ body.reverse) =
        some ([], body.reverse) := breakAt?_prefix _ _
    have hprefix : ">vid/<".toList.isPrefixOf? ('\n' :: (">vid/<".toList ++ body.reverse)) = none := rfl
    rw [hreverse, Text.breakAt?, hprefix, hbreak]
    rfl
  rw [← hbody]
  unfold inner
  simp only [hhtml, hopening, hclosing, List.reverse_reverse]

/-- A document is finished in its children, and by a line feed behind it. -/
lemma Layout.finish_div (text : Text) (verbatim : Bool) (children : List Element) :
    ∃ text', finish ⟨"div".toList, [], text, verbatim, children, []⟩ =
      ⟨"div".toList, [], text', verbatim, unprotectedAll (feedBreaksAll (spacedBlocks children)), ['\n']⟩ := by
  have hbreak : "div".toList ≠ "br".toList := by decide
  have hcode : "div".toList ≠ "code".toList := by decide
  rw [finish, spaced, isBlockTag_div, if_pos (by decide), feedBreaks, if_pos hbreak, unprotected,
    if_neg hcode]
  exact ⟨_, rfl⟩

/-- A paragraph with a mark stands on the page of a document that holds it. -/
theorem markedParagraph_infix_inner {n : ℕ} {root : Element} (htag : root.tag = "div".toList)
    (hattributes : root.attributes = []) (htail : root.tail = [])
    (h : Block.paragraph (Mark.html n) ∈ root.children) :
    markedParagraph n <:+: inner (Layout.finish root) := by
  cases root with
  | mk tag attributes text verbatim children tail =>
    obtain rfl : tag = "div".toList := htag
    obtain rfl : attributes = [] := hattributes
    obtain rfl : tail = [] := htail
    obtain ⟨text', hfinish⟩ := Layout.finish_div text verbatim children
    have hstands := Layout.html_infix_htmls (Layout.mark_mem_finished h)
    rw [Layout.html_mark] at hstands
    rw [hfinish, inner_eq]
    refine Text.infix_strip ?_ (by simp [markedParagraph]) ?_
    · exact (List.prefix_append _ _).isInfix.trans (hstands.trans (List.suffix_append _ _).isInfix)
    · exact trimmed_markedParagraph n

end Sitewright.Markdown
