import Mathlib.Data.List.Basic
import Sitewright.Proofs.Scan
import Sitewright.Text.Escape

/-!
Escaped text. It holds none of the characters that it is escaped for, so nothing in it ends a quoted
attribute or begins or ends a tag.
-/
namespace Sitewright.Text

/-- No entity holds a mark. -/
lemma mark_not_mem_entity : ∀ e ∈ ["&amp;", "&lt;", "&gt;", "&quot;", "&#x27;"],
    ∀ c ∈ e.toList, c ∉ ['<', '>', '"', '\''] := by
  have hall : ∀ e ∈ ["&amp;", "&lt;", "&gt;", "&quot;", "&#x27;"],
      (e.toList.all fun c => decide (c ∉ ['<', '>', '"', '\''])) = true := by decide
  exact fun e he => forall_of_all (hall e he)

lemma mark_not_mem_escapeAttribute {t : Text} {c : Char} (h : c ∈ escapeAttribute t) :
    c ∉ ['<', '>', '"', '\''] := by
  rw [escapeAttribute, List.mem_flatMap] at h
  obtain ⟨d, -, hd⟩ := h
  split_ifs at hd with hand hless hmore hquote htick
  · exact mark_not_mem_entity "&amp;" (by decide) c hd
  · exact mark_not_mem_entity "&lt;" (by decide) c hd
  · exact mark_not_mem_entity "&gt;" (by decide) c hd
  · exact mark_not_mem_entity "&quot;" (by decide) c hd
  · exact mark_not_mem_entity "&#x27;" (by decide) c hd
  · obtain rfl := List.mem_singleton.mp hd
    simp [hless, hmore, hquote, htick]

lemma mark_not_mem_escapeText {t : Text} {c : Char} (h : c ∈ escapeText t) : c ∉ ['<', '>'] := by
  have hmarks : ∀ c ∈ ['<', '>'], c ∈ ['<', '>', '"', '\''] := forall_of_all (by decide)
  rw [escapeText, List.mem_flatMap] at h
  obtain ⟨d, -, hd⟩ := h
  split_ifs at hd with hand hless hmore
  · exact mt (hmarks c) (mark_not_mem_entity "&amp;" (by decide) c hd)
  · exact mt (hmarks c) (mark_not_mem_entity "&lt;" (by decide) c hd)
  · exact mt (hmarks c) (mark_not_mem_entity "&gt;" (by decide) c hd)
  · obtain rfl := List.mem_singleton.mp hd
    simp [hless, hmore]

lemma bracket_not_mem_escapeText (t : Text) : '<' ∉ escapeText t :=
  fun h => mark_not_mem_escapeText h (by decide)

lemma bracket_not_mem_escapeAttribute (t : Text) : '<' ∉ escapeAttribute t :=
  fun h => mark_not_mem_escapeAttribute h (by decide)

lemma quote_not_mem_escapeAttribute (t : Text) : '"' ∉ escapeAttribute t :=
  fun h => mark_not_mem_escapeAttribute h (by decide)

end Sitewright.Text
