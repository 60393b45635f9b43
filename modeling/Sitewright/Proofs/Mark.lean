import Mathlib.Data.List.Basic
import Sitewright.Markdown.Mark
import Sitewright.Proofs.Token

/-!
The marks of kept HTML. A mark is read back as it was written, and its characters mean nothing to
the rules of Markdown.
-/
namespace Sitewright

namespace Markdown.Mark
open Text (spanWhile spanWhile_stop)

/-- The characters that marks of kept HTML are made of. -/
def IsPart (c : Char) : Prop := c = opening ∨ c = closing ∨ c = 'h' ∨ c.isDigit = true

lemma isPart_of_mem {n : ℕ} {c : Char} (h : c ∈ html n) : IsPart c := by
  unfold html at h
  simp only [List.cons_append, List.mem_cons, List.mem_append, List.not_mem_nil, or_false] at h
  rcases h with h | h | h | h
  · exact .inl h
  · exact .inr (.inr (.inl h))
  · exact .inr (.inr (.inr (Nat.isDigit_of_mem_toDigits (by decide) (by decide) h)))
  · exact .inr (.inl h)

/-- A character that is no control character, no digit and not the letter of the marks is in no
mark. -/
lemma IsPart.ne {c d : Char} (h : IsPart c) (hd : d ≠ opening ∧ d ≠ closing ∧ d ≠ 'h' ∧
    d.isDigit = false) : c ≠ d := by
  rintro rfl
  rcases h with h | h | h | h
  · exact hd.1 h
  · exact hd.2.1 h
  · exact hd.2.2.1 h
  · rw [hd.2.2.2] at h
    cases h

lemma html_head (n : ℕ) : ∃ t, html n = opening :: t ∧ opening ∉ t := by
  refine ⟨'h' :: Text.ofNat n ++ [closing], rfl, fun h => ?_⟩
  simp only [List.cons_append, List.mem_cons, List.mem_append, List.not_mem_nil, or_false] at h
  rcases h with h | h | h
  · revert h; decide
  · have hdigit : opening.isDigit = true := Nat.isDigit_of_mem_toDigits (by decide) (by decide) h
    revert hdigit; decide
  · revert h; decide

/-- A mark is read as it was written. -/
lemma html?_html (n : ℕ) (rest : Text) : html? (html n ++ rest) = some (n, (html n).length) := by
  have hdigits := Text.all_isDigit_ofNat n
  have hspan : spanWhile Char.isDigit (Text.ofNat n ++ closing :: rest) =
      (Text.ofNat n, closing :: rest) := spanWhile_stop hdigits (by decide)
  have hlead : [opening, 'h'].isPrefixOf? (html n ++ rest) =
      some (Text.ofNat n ++ closing :: rest) :=
    List.isPrefixOf?_eq_some_iff_append_eq.mpr (by simp [html])
  rw [html?, numbered?, hlead, Option.bind_some, hspan]
  split
  · rename_i hnil
    exact absurd (Prod.mk.inj hnil).1 Nat.toDigits_ne_nil
  · rename_i digits c more heq
    obtain ⟨rfl, htail⟩ := Prod.mk.inj heq
    obtain ⟨rfl, rfl⟩ := List.cons.inj htail
    rw [if_pos rfl, Text.natOfDigits_ofNat]
    simp [html]
    omega
  · rename_i hnone
    exact absurd rfl (hnone _ _ _)

end Markdown.Mark
end Sitewright
