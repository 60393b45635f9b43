import Sitewright.Markdown.FencedCode
import Sitewright.Proofs.CalmHtml

/-!
The HTML of blocks of code and of elements. A block of code opens and closes elements of code evenly and
has no links of its own; an element is calm when the code below it holds nothing but text.
-/
namespace Sitewright.Markdown
open CodeSign

/-- The signs that a text has, whatever follows it. -/
def Reads (t : Text) (signs : List CodeSign) : Prop := ∀ rest, ofHtml (t ++ rest) = signs ++ ofHtml rest

section Reads

variable {t u : Text} {signs signs' : List CodeSign}

lemma Reads.append (ht : Reads t signs) (hu : Reads u signs') : Reads (t ++ u) (signs ++ signs') := by
  intro rest
  rw [List.append_assoc, ht, hu, List.append_assoc]

lemma Reads.ofHtml_eq (h : Reads t signs) : ofHtml t = signs := by
  have hnil := h []
  rwa [List.append_nil, ofHtml, ofHtml, along, List.append_nil] at hnil

lemma reads_text (h : '<' ∉ t) : Reads t [] := ofHtml_append h

lemma reads_tag (h : '<' ∉ t) (hname : ∃ c ∈ t, inName c = false) (hsign : (ofTag? t).toList = signs) :
    Reads ('<' :: t) signs := fun rest => by rw [ofHtml_tag h hname, hsign]

/-- HTML that ends with a tag reads as it is. -/
lemma reads_of_last (h : t.getLast? = some '>') (hsigns : ofHtml t = signs) : Reads t signs := fun rest => by
  rw [ofHtml, along_of_last h fun _ _ _ _ => rfl, hsigns]

/-- The name of a tag is what stands before its first blank or its end. -/
lemma ofTag?_of_stop {name : Text} (hname : ∀ c ∈ name, inName c = true) {c : Char} (hc : inName c = false)
    (rest : Text) : ofTag? (name ++ c :: rest) = names.lookup name := by
  rw [ofTag?, List.takeWhile_append_of_pos hname, List.takeWhile_cons_of_neg (by simp [hc]), List.append_nil]

/-- The name of a tag ends before its attributes, if it has any. -/
lemma ofTag?_named {name attributes : Text} (hname : ∀ c ∈ name, inName c = true)
    (hattributes : ∀ c ∈ attributes.head?, c = ' ') (rest : Text) :
    ofTag? (name ++ (attributes ++ '>' :: rest)) = names.lookup name := by
  cases attributes with
  | nil => exact ofTag?_of_stop hname (by decide) rest
  | cons c cs =>
    obtain rfl := hattributes c rfl
    exact ofTag?_of_stop hname (by decide) _

end Reads

section Blocks

variable {words : Text → Prop}

lemma mem_of_mem_replace {old new t : Text} (hold : old ≠ []) {c : Char} (h : c ∈ Text.replace old new t) :
    c ∈ t ∨ c ∈ new := by
  have hrewritten : Text.Rewritten old (· = new) t (Text.replace old new t) := Text.rewritten_replace hold t
  generalize Text.replace old new t = t' at h hrewritten
  induction hrewritten with
  | nil => cases h
  | copy d hrest ih =>
    rcases List.mem_cons.mp h with rfl | h
    · exact .inl List.mem_cons_self
    · exact (ih h).imp_left (List.mem_cons_of_mem d)
  | swap hnew hrest ih =>
    subst hnew
    rcases List.mem_append.mp h with h | h
    · exact .inr h
    · exact (ih h).imp_left (List.mem_append_right old)

/-- A character is written as it is, unless it is a bracket, or as the name of an entity. -/
lemma escapeHtml_cons (quotes : Bool) (c : Char) (cs : Text) :
    c ≠ '<' ∧ escapeHtml quotes (c :: cs) = c :: escapeHtml quotes cs ∨
      ∃ name ∈ ["amp".toList, "lt".toList, "gt".toList, "quot".toList],
        escapeHtml quotes (c :: cs) = '&' :: name ++ ';' :: escapeHtml quotes cs := by
  rw [escapeHtml]
  split_ifs with hamp hreference hless hmore hquote
  · exact .inl ⟨by simp [hamp], rfl⟩
  · exact .inr ⟨"amp".toList, by simp, rfl⟩
  · exact .inr ⟨"lt".toList, by simp, rfl⟩
  · exact .inr ⟨"gt".toList, by simp, rfl⟩
  · exact .inr ⟨"quot".toList, by simp, rfl⟩
  · exact .inl ⟨hless, rfl⟩

lemma bracket_not_mem_escapeHtml (quotes : Bool) (t : Text) : '<' ∉ escapeHtml quotes t := by
  have hnames : ∀ name ∈ ["amp".toList, "lt".toList, "gt".toList, "quot".toList], '<' ∉ '&' :: name := by decide
  induction t with
  | nil => simp [escapeHtml]
  | cons c cs ih =>
    rcases escapeHtml_cons quotes c cs with ⟨hless, hsame⟩ | ⟨name, hname, hescaped⟩
    · simp [hsame, ih, hless.symm]
    · rw [hescaped, List.mem_append, not_or]
      exact ⟨hnames name hname, by simp [ih]⟩

namespace Highlight

lemma reads_writeLines (marked : List ℤ) (number : ℕ) (lines : List Text) :
    Reads (writeLines marked number lines) [] := by
  induction lines generalizing number with
  | nil => exact fun _ => rfl
  | cons line lines ih =>
    have hrow : Reads (Text.escapeText line ++ ['\n']) [] :=
      reads_text (by simp [Text.bracket_not_mem_escapeText])
    rw [writeLines]
    refine Reads.append (?_ : Reads _ []) (ih _)
    split
    · have hopening : Reads "<span class=\"hll\">".toList [] := reads_of_last (by decide) (by decide)
      have hclosing : Reads "</span>".toList [] := reads_of_last (by decide) (by decide)
      exact (hopening.append hrow).append hclosing
    · exact hrow

lemma reads_lineNumberColumn (count : ℕ) : Reads (lineNumberColumn count) [] := by
  have hnumber : ∀ width n, Reads ("<span class=\"normal\">".toList ++ Text.padLeft width ' ' (Text.ofNat n) ++
      "</span>".toList) [] := by
    intro width n
    have hopening : Reads "<span class=\"normal\">".toList [] := reads_of_last (by decide) (by decide)
    have hclosing : Reads "</span>".toList [] := reads_of_last (by decide) (by decide)
    refine (hopening.append (reads_text ?_)).append hclosing
    rw [Text.padLeft, List.mem_append, not_or]
    constructor
    · intro hmem
      exact absurd (List.eq_of_mem_replicate hmem) (by decide)
    · intro hmem
      exact absurd (Text.isDigit_of_mem_ofNat hmem) (by decide)
  have hjoin : ∀ parts : List Text, (∀ part ∈ parts, Reads part []) → Reads (Text.join ['\n'] parts) [] := by
    intro parts hparts
    fun_induction Text.join ['\n'] parts with
    | case1 => exact fun _ => rfl
    | case2 p => exact hparts p List.mem_cons_self
    | case3 p q ps ih =>
      have hfeed : Reads ['\n'] [] := reads_text (by decide)
      exact ((hparts p List.mem_cons_self).append hfeed).append
        (ih fun part hpart => hparts part (List.mem_cons_of_mem p hpart))
  unfold lineNumberColumn
  refine hjoin _ fun part hpart => ?_
  obtain ⟨n, -, rfl⟩ := List.mem_map.mp hpart
  exact hnumber _ _

/-- A tag that goes on with a class is the same tag whatever the class. -/
lemma reads_classTag (front : Text) {cssClass : Text} (hfront : '<' ∉ front ∧ ∃ c ∈ front, inName c = false)
    (hsign : ofTag? front = none) (hclass : '<' ∉ cssClass) : Reads ('<' :: (front ++ cssClass)) [] := by
  obtain ⟨hclean, c, hc, hin⟩ := hfront
  refine reads_tag (by simp [hclean, hclass]) ⟨c, by simp [hc], hin⟩ ?_
  rw [ofTag?_append ⟨c, hc, hin⟩, hsign]
  rfl

/-- A block with the numbers of its lines beside it opens and closes code evenly if the block does. -/
lemma reads_besideNumbers {cssClass written : Text} {signs : List CodeSign} (hclass : '<' ∉ cssClass) (count : ℕ)
    (hwritten : Reads written signs) :
    Reads (besideNumbers cssClass count written) ([.opens] ++ [.closes] ++ signs) := by
  have htable : Reads ("<table class=\"".toList ++ cssClass) [] :=
    reads_classTag "table class=\"".toList ⟨by decide, ' ', by decide, by decide⟩ (by decide) hclass
  have hrow : Reads "table\"><tr><td class=\"linenos\"><div class=\"linenodiv\"><pre>".toList [.opens] :=
    reads_of_last (by decide) (by decide)
  have hcell : Reads "</pre></div></td><td class=\"code\"><div>".toList [.closes] :=
    reads_of_last (by decide) (by decide)
  have hlast : Reads "</div></td></tr></table>".toList [] := reads_of_last (by decide) (by decide)
  have hparts := ((((htable.append hrow).append (reads_lineNumberColumn count)).append hcell).append
    hwritten).append hlast
  rw [List.append_nil] at hparts
  exact hparts

/-- A block of code is a stretch of code and a line feed. -/
lemma exists_isCode {look : Look} (hclass : '<' ∉ look.cssClass) {code : Text}
    (hfree : Free words (block look code)) (hmark : Mark.opening ∉ block look code) :
    ∃ x, block look code = x ++ ['\n'] ∧ IsCode words x := by
  have hopening : Reads "<pre><span></span><code>".toList [.opens, .opens] :=
    reads_of_last (by decide) (by decide)
  have hclosing : Reads "</code></pre>".toList [.closes, .closes] := reads_of_last (by decide) (by decide)
  have hcode : Reads ("<pre><span></span><code>".toList ++ writeLines look.marked 1 (codeLines code) ++
      "</code></pre>".toList) ([.opens, .opens] ++ [] ++ [.closes, .closes]) :=
    (hopening.append (reads_writeLines _ _ _)).append hclosing
  have hlevel : IsLevel ([.opens, .opens] ++ [] ++ [.closes, .closes]) := isLevel_nil.enclose.enclose
  have hdiv : Reads ("<div class=\"".toList ++ look.cssClass) [] :=
    reads_classTag "div class=\"".toList ⟨by decide, ' ', by decide, by decide⟩ (by decide) hclass
  have hangle : Reads "\">".toList [] := reads_text (by decide)
  have hend : Reads "</div>".toList [] := reads_of_last (by decide) (by decide)
  have hfeed : "</div>\n".toList = "</div>".toList ++ ['\n'] := by decide
  unfold block at hfree hmark ⊢
  dsimp only at hfree hmark ⊢
  rw [hfeed, ← List.append_assoc _ "</div>".toList] at hfree hmark ⊢
  generalize "<pre><span></span><code>".toList ++ writeLines look.marked 1 (codeLines code) ++
      "</code></pre>".toList = written at hcode hfree hmark ⊢
  obtain ⟨signs, hsigns, hreads⟩ : ∃ signs, IsLevel signs ∧ Reads (if look.numbered then
      besideNumbers look.cssClass (codeLines code).length written else written) signs := by
    split
    · exact ⟨_, isLevel_nil.enclose.append hlevel, reads_besideNumbers hclass _ hcode⟩
    · exact ⟨_, hlevel, hcode⟩
  generalize (if look.numbered then
      besideNumbers look.cssClass (codeLines code).length written else written) = body at hreads hfree hmark ⊢
  refine ⟨_, rfl, ?_, ⟨rfl, ?_⟩, ?_, ?_, ?_⟩
  · have hall := ((hdiv.append hangle).append hreads).append hend
    rw [hall.ofHtml_eq, List.append_nil]
    exact hsigns
  · have htake : ∀ t : Text, ("<div class=\"".toList ++ t).take 3 = "<di".toList := fun _ => rfl
    simp only [List.append_assoc]
    rw [htake]
    decide
  · exact ⟨_ ++ "</di".toList, 'v', by rw [List.append_assoc _ "</di".toList]; rfl, by decide⟩
  · exact hfree.of_infix (List.prefix_append _ _).isInfix
  · exact fun hmem => hmark (List.mem_append_left _ hmem)

end Highlight

/-- Code may come back anywhere, with text behind it. -/
lemma Kept.harmless_of_isCode {x back : Text} (h : IsCode words x)
    (hback : '<' ∉ back ∧ Mark.opening ∉ back) : Harmless words (x ++ back) where
  mark_free := by simp [h.mark_free, hback.2]
  strange := by
    obtain ⟨y, rfl⟩ := List.head?_eq_some_iff.mp h.head.1
    exact strange_bracket _
  calm t ht := by
    rw [List.append_assoc]
    exact .code h (ht.append_text hback.1)

lemma Highlight.harmless_block {look : Look} (hclass : '<' ∉ look.cssClass) {code : Text}
    (hfree : Free words (block look code)) (hmark : Mark.opening ∉ block look code) :
    Kept.Harmless words (block look code) := by
  obtain ⟨x, hx, hcode⟩ := exists_isCode hclass hfree hmark
  rw [hx]
  exact Kept.harmless_of_isCode hcode (by decide)

lemma Highlight.harmless_indented {code : Text} (hfree : Free words (indented code))
    (hmark : Mark.opening ∉ indented code) : Kept.Harmless words (indented code) := by
  obtain ⟨look, inner, hblock, hclass⟩ :
      ∃ look inner, indented code = block look inner ∧ look.cssClass = "codehilite".toList := by
    unfold indented
    repeat' split
    all_goals exact ⟨_, _, rfl, rfl⟩
  rw [hblock] at hfree hmark ⊢
  exact harmless_block (by rw [hclass]; decide) hfree hmark

namespace FencedCode

lemma tagAttribute_clean (name : String) (h : '<' ∉ name.toList) (value : Text) :
    '<' ∉ tagAttribute name value ∧ ∀ c ∈ (tagAttribute name value).head?, c = ' ' := by
  unfold tagAttribute
  split
  · simp
  · simp [h, bracket_not_mem_escapeHtml]

/-- Code that is not highlighted, with what its tags say. -/
lemma Block.plainHtml_eq (b : Block) : ∃ outer label code,
    b.plainHtml = '<' :: ("pre".toList ++ (outer ++ ['>'])) ++ '<' :: ("code".toList ++ (label ++ ['>'])) ++ code ++
      "</code></pre>".toList ∧
    ('<' ∉ outer ∧ ∀ c ∈ outer.head?, c = ' ') ∧ ('<' ∉ label ∧ ∀ c ∈ label.head?, c = ' ') ∧ '<' ∉ code := by
  have hopens : "<pre".toList = '<' :: "pre".toList ∧ "><code".toList = '>' :: '<' :: "code".toList := by
    decide
  unfold Block.plainHtml
  extract_lets language
  refine ⟨tagAttribute "id" b.info.id ++ tagAttribute "class" (Text.join [' '] b.info.classes),
    tagAttribute "class" language, Text.replace ['"'] "&quot;".toList (Text.escapeText b.code), ?_, ?_,
    tagAttribute_clean _ (by decide) _, ?_⟩
  · rw [hopens.1, hopens.2]
    simp only [List.cons_append, List.append_assoc, List.nil_append]
  · obtain ⟨hid, hfirst⟩ := tagAttribute_clean "id" (by decide) b.info.id
    obtain ⟨hclass, hsecond⟩ := tagAttribute_clean "class" (by decide) (Text.join [' '] b.info.classes)
    refine ⟨by simp [hid, hclass], ?_⟩
    cases hattribute : tagAttribute "id" b.info.id with
    | nil => exact hsecond
    | cons c cs =>
      rw [hattribute] at hfirst
      exact hfirst
  · intro hmem
    rcases mem_of_mem_replace (by decide) hmem with hmem | hmem
    · exact Text.bracket_not_mem_escapeText _ hmem
    · exact absurd hmem (by decide)

/-- Code that is not highlighted is a stretch of code as well. -/
lemma Block.isCode_plainHtml {b : Block} (hfree : Free words b.plainHtml)
    (hmark : Mark.opening ∉ b.plainHtml) : IsCode words b.plainHtml := by
  obtain ⟨outer, label, code, hhtml, houter, hlabel, hclean⟩ := b.plainHtml_eq
  have hopening : Reads ('<' :: ("pre".toList ++ (outer ++ ['>']))) [.opens] :=
    reads_tag (by simp [houter.1]) ⟨'>', by simp, by decide⟩ (by
      rw [ofTag?_named (List.all_eq_true.mp rfl) houter.2]
      decide)
  have hinner : Reads ('<' :: ("code".toList ++ (label ++ ['>']))) [.opens] :=
    reads_tag (by simp [hlabel.1]) ⟨'>', by simp, by decide⟩ (by
      rw [ofTag?_named (List.all_eq_true.mp rfl) hlabel.2]
      decide)
  have hclosing : Reads "</code></pre>".toList [.closes, .closes] := reads_of_last (by decide) (by decide)
  have hall := ((hopening.append hinner).append (reads_text hclean)).append hclosing
  have hlevel : IsLevel [.opens, .opens, .closes, .closes] := isLevel_nil.enclose.enclose
  refine ⟨?_, ⟨?_, ?_⟩, ?_, hfree, hmark⟩
  · rw [hhtml, hall.ofHtml_eq]
    exact hlevel
  · rw [hhtml]
    rfl
  · have htake : b.plainHtml.take 3 = "<pr".toList := by
      rw [hhtml]
      rfl
    rw [htake]
    decide
  · obtain ⟨front, hfront⟩ : ∃ front, b.plainHtml = front ++ "</code></pre>".toList := ⟨_, hhtml⟩
    have hend : "</code></pre>".toList = "</code></pr".toList ++ ['e', '>'] := by decide
    exact ⟨front ++ "</code></pr".toList, 'e', by rw [hfront, hend, List.append_assoc], by decide⟩

/-- The HTML of a fenced block may come back anywhere if no token is in it. -/
lemma Block.harmless_html {b : Block} (hclasses : ∀ name ∈ b.info.classes, '<' ∉ name)
    (hfree : Free words b.html) (hmark : Mark.opening ∉ b.html) : Kept.Harmless words b.html := by
  unfold Block.html at hfree hmark ⊢
  split at hfree
  · rename_i hplain
    rw [if_pos hplain] at hmark ⊢
    rw [← List.append_nil b.plainHtml]
    exact Kept.harmless_of_isCode (isCode_plainHtml hfree hmark) (by decide)
  · rename_i hplain
    rw [if_neg hplain] at hmark ⊢
    refine Highlight.harmless_block ?_ hfree hmark
    intro hmem
    rcases Text.mem_join hmem with hmem | ⟨name, hname, hmem⟩
    · exact absurd hmem (by decide)
    · rcases List.mem_append.mp hname with hname | hname
      · exact hclasses name hname hmem
      · rw [List.mem_singleton.mp hname] at hmem
        exact absurd hmem (by decide)

end FencedCode

end Blocks

end Sitewright.Markdown
