import Mathlib.Data.List.Infix
import Sitewright.Proofs.Compile
import Sitewright.Proofs.Splitting

/-!
Tokens of fences in blocks of code. Escaped as code, such a token is no token any more: it comes
through the blocks of the document and the restoring of HTML as it is.
-/
namespace Sitewright

/-- What the token of a fence starts with, shown as code. -/
def RawTable.shownLead : Text := "&lt;!--flint-raw".toList

namespace Text

lemma infix_dropLead {x lead t : Text} {c d : Char} (h : x <:+: t) (hlead : lead.head? = some c)
    (hx : x.head? = some d) (hc : c ∉ x) (hd : d ∉ lead) : x <:+: dropLead lead t := by
  unfold dropLead
  cases hrest : lead.isPrefixOf? t with
  | none => exact h
  | some rest =>
    rw [List.isPrefixOf?_eq_some_iff_append_eq] at hrest
    subst hrest
    exact (apart_of_heads hx hlead hd hc).infix_behind h

end Text

namespace Markdown
open RawTable (shownLead)

/-- What a line of code shows stands among the lines written, marked or not. -/
lemma Highlight.infix_writeLines {x line : Text} {lines : List Text} (hline : line ∈ lines)
    (hx : x <:+: Text.escapeText line) (marked : List ℤ) (number : ℕ) :
    x <:+: writeLines marked number lines := by
  induction lines generalizing number with
  | nil => cases hline
  | cons first rest ih =>
    rw [writeLines]
    rcases List.mem_cons.mp hline with rfl | hline
    · have hrow : x <:+: Text.escapeText line ++ ['\n'] := hx.trans (List.prefix_append _ _).isInfix
      refine List.IsInfix.trans ?_ (List.prefix_append _ _).isInfix
      split
      · exact hrow.trans ⟨_, _, rfl⟩
      · exact hrow
    · exact (ih hline (number + 1)).trans (List.suffix_append _ _).isInfix

section Code

/-- What the token of a fence starts with. -/
def tokenLead : Text := "<!--flint-raw".toList

variable {code : Text} (h : tokenLead <:+: code)
include h

lemma shownLead_infix_escapeText : shownLead <:+: Text.escapeText code := by
  obtain ⟨a, b, rfl⟩ := h
  have hword : Text.escapeText tokenLead = shownLead := by decide
  simp only [Text.escapeText, List.flatMap_append] at hword ⊢
  rw [hword]
  exact ⟨_, _, rfl⟩

/-- The lines of a block of code hold every token that the code holds. -/
lemma Highlight.exists_line : ∃ line ∈ codeLines code, tokenLead <:+: line := by
  have hne : tokenLead ≠ [] := by decide
  have hfeed : '\n' ∉ tokenLead := by decide
  have htrim : ∀ {t : Text}, tokenLead <:+: t → tokenLead <:+: Text.trim (· = '\n') t := fun hin =>
    Text.infix_trim hin hne (fun _ hc => Option.some.inj hc ▸ rfl) fun _ hc => Option.some.inj hc ▸ rfl
  refine Text.exists_infix_of_splitOn hne hfeed (htrim ?_)
  exact Text.infix_dropLead (htrim h) rfl rfl (by decide) (by decide)

lemma Highlight.shownLead_infix_block (look : Look) : shownLead <:+: block look code := by
  obtain ⟨line, hline, hin⟩ := exists_line h
  have hlines : shownLead <:+: writeLines look.marked 1 (codeLines code) :=
    infix_writeLines hline (shownLead_infix_escapeText hin) look.marked 1
  unfold block
  refine List.IsInfix.trans ?_ ⟨_, _, rfl⟩
  split
  · unfold besideNumbers
    exact hlines.trans (List.IsInfix.trans ⟨_, _, rfl⟩ ⟨_, _, rfl⟩)
  · exact hlines.trans ⟨_, _, rfl⟩

/-- A block of code shows every token in it. -/
lemma FencedCode.shownLead_infix_html (info : Info) : shownLead <:+: Block.html ⟨info, code⟩ := by
  unfold Block.html
  split
  · obtain ⟨a, b, hab⟩ := shownLead_infix_escapeText h
    have hquote : Text.Apart ['"'] a shownLead b :=
      Text.apart_of_heads rfl rfl (by decide) (by decide)
    have hrewritten : Text.Rewritten ['"'] (· = "&quot;".toList) (Text.escapeText code)
        (Text.replace ['"'] "&quot;".toList (Text.escapeText code)) :=
      Text.rewritten_replace (by decide) _
    obtain ⟨a', b', hreplaced, -, -⟩ := hrewritten.spare (by decide) hab.symm hquote
    unfold Block.plainHtml
    rw [hreplaced]
    exact List.IsInfix.trans ⟨a', b', rfl⟩ ⟨_, _, rfl⟩
  · exact Highlight.shownLead_infix_block h _

end Code

/-- Is a token part of fenced code that stands between blank lines? -/
def InFencedCode (token masked : Text) : Prop :=
  ∃ n info code, (∃ block ∈ Block.parts (extracted masked).1, Block.IsMark n block) ∧
    (extracted masked).2[n]? = some (FencedCode.Block.html ⟨info, code⟩) ∧ token <:+: code

/-- Shown as code, a token of a fence reaches the page. -/
lemma shownLead_infix_page {source : Text} {nonce : Text} {k : ℕ}
    (h : InFencedCode (RawTable.blockToken nonce k) (RawTable.protect (Source.normalize source)).1) :
    shownLead <:+: (Draft.ofSource source).page := by
  obtain ⟨n, info, code, hmark, hkept, hin⟩ := h
  have hlead : tokenLead <:+: RawTable.blockToken nonce k := by
    have hword : "<!--flint-raw-".toList = tokenLead ++ ['-'] := by decide
    unfold RawTable.blockToken RawTable.blockLead
    rw [hword]
    simp only [List.append_assoc]
    exact (List.prefix_append _ _).isInfix
  have hsturdy : Kept.Sturdy shownLead := Kept.sturdy_of_entity (Text.forall_of_all (by decide))
  exact infix_page hsturdy ⟨n, _, hmark, hkept, FencedCode.shownLead_infix_html (hlead.trans hin) info⟩

end Markdown

namespace RawTable

section Hits

variable {nonce : Text}

/-- No token starts inside the shown lead of another one. -/
lemma findToken_shownLead {u x : Text} (v : Text) (hsplit : shownLead = u ++ x) (hx : x ≠ []) :
    findToken nonce [] (x ++ v) = none := by
  have hends : ∀ x ∈ shownLead.tails, x = "flint-raw".toList ∨ x.head? ≠ some '<' ∧ x.head? ≠ some 'f' := by
    decide
  rcases hends x ((List.mem_tails ..).mpr ⟨u, hsplit.symm⟩) with rfl | ⟨hbracket, hword⟩
  · refine findToken_none rfl fun token htoken hprefix => ?_
    obtain ⟨word, number, mark, hlike⟩ := htoken
    have hword : word <+: "flint-raw".toList ++ v := by
      rw [hlike.eq] at hprefix
      exact (List.prefix_append _ _).trans hprefix
    have hapart : ∀ word ∈ words, ¬ word <+: "flint-raw".toList ∧ ¬ "flint-raw".toList <+: word := by
      decide
    obtain ⟨hnot, hnot'⟩ := hapart word hlike.word_mem
    exact (List.prefix_or_prefix_of_prefix hword (List.prefix_append _ v)).elim hnot hnot'
  · obtain ⟨c, cs, rfl⟩ := List.exists_cons_of_ne_nil hx
    exact findToken_none_of_head (c := c) rfl
      ⟨fun h => hbracket (congrArg some h), fun h => hword (congrArg some h)⟩

variable (hnonce : ∀ c ∈ nonce, c ∈ Digest.digits)
include hnonce

/-- What is found holds no entity. -/
lemma findToken_some {t : Text} {hit : Text.Hit Text} (h : findToken nonce [] t = some hit) :
    ∃ m rest, t = m ++ rest ∧ hit.size = m.length ∧ '&' ∉ m := by
  obtain ⟨m, -, hsize, ⟨rest, hrest⟩, htoken, hm⟩ := findToken_source h
  have hand : '&' ∉ hit.value := htoken.not_mem hnonce (by decide)
  refine ⟨m, rest, hrest.symm, hsize, ?_⟩
  rcases hm with rfl | ⟨-, before, after, hblanks, rfl⟩
  · exact hand
  · have hopening : '&' ∉ "<p>".toList := by decide
    have hclosing : '&' ∉ "</p>".toList := by decide
    have hblank : '&' ∉ before ++ after := fun hmem => absurd (hblanks '&' hmem) (by decide)
    simp only [List.mem_append, not_or] at hblank ⊢
    exact ⟨⟨hopening, hblank.1⟩, hand, hblank.2, hclosing⟩

lemma size_findToken {u v : Text} {hit : Text.Hit Text}
    (h : findToken nonce [] (u ++ '&' :: v) = some hit) : hit.size ≤ u.length := by
  obtain ⟨m, rest, hsplit, hsize, hand⟩ := findToken_some hnonce h
  rw [hsize]
  exact Text.length_le_of_not_mem hsplit hand

end Hits

/-- Restoring leaves what a block of code shows of a token. -/
lemma shownLead_infix_restore {table : RawTable} (hnonce : ∀ c ∈ table.nonce, c ∈ Digest.digits)
    {t : Text} (h : shownLead <:+: t) : shownLead <:+: table.restore t := by
  unfold restore
  split
  · exact h
  · obtain ⟨u, v, rfl⟩ := h
    have hlocal := findToken_local table.nonce
    rw [List.append_assoc]
    refine Text.infix_substitute hlocal
      (fun b hit _ _ hfind => .inl (size_findToken hnonce hfind)) ?_
    rw [Text.substitute_plain hlocal shownLead v fun a x hsplit hx => findToken_shownLead v hsplit hx]
    exact (List.prefix_append _ _).isInfix

end RawTable
end Sitewright
