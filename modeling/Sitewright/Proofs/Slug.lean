import Mathlib.Tactic.Common
import Sitewright.Proofs.Place
import Sitewright.Slug

/-!
Slugs as names of directories.
-/
namespace Sitewright

lemma mem_hyphenateGaps {inGap : Bool} {t : Text} {c : Char} (h : c ∈ hyphenateGaps inGap t) :
    isSlugChar c ∨ c = '-' := by
  induction t generalizing inGap with
  | nil => cases h
  | cons d t ih =>
    unfold hyphenateGaps at h
    split at h
    · rename_i hd
      rcases List.mem_cons.mp h with rfl | h
      · exact .inl hd
      · exact ih h
    · split at h
      · exact ih h
      · rcases List.mem_cons.mp h with rfl | h
        · exact .inr rfl
        · exact ih h

lemma mem_hyphenateGaps_iff {c : Char} (hc : isSlugChar c = true) (inGap : Bool) (t : Text) :
    c ∈ hyphenateGaps inGap t ↔ c ∈ t := by
  have hhyphen : c ≠ '-' := by
    rintro rfl
    revert hc
    decide
  induction t generalizing inGap with
  | nil => rfl
  | cons d t ih =>
    unfold hyphenateGaps
    by_cases hd : isSlugChar d = true
    · simp [hd, ih]
    · have hne : c ≠ d := fun heq => hd (heq ▸ hc)
      cases inGap <;> simp [hd, hne, hhyphen, ih]

/-- A slug is made of the characters that slugs keep, and hyphens. -/
lemma mem_slug {t : Text} {c : Char} (h : c ∈ slug t) : isSlugChar c ∨ c = '-' := by
  rw [slug, Text.trim, Text.dropEndWhile, List.mem_reverse] at h
  have hmem := (List.dropWhile_suffix _).subset h
  rw [List.mem_reverse] at hmem
  exact mem_hyphenateGaps ((List.dropWhile_suffix _).subset hmem)

/-- A slug that is not empty is a name. -/
lemma isName_slug {t : Text} (h : slug t ≠ []) : Place.IsName (slug t) := by
  have hdot : '.' ∉ slug t := by
    intro hmem
    rcases mem_slug hmem with hc | hc <;> revert hc <;> decide
  have hslash : '/' ∉ slug t := by
    intro hmem
    rcases mem_slug hmem with hc | hc <;> revert hc <;> decide
  refine ⟨⟨h, ?_, hslash⟩, ?_⟩
  · intro he
    exact hdot (he ▸ List.mem_singleton_self _)
  · intro he
    exact hdot (he ▸ List.mem_cons_self)

lemma segments_slug (t : Text) :
    Place.segments (slug t) = if slug t = [] then [] else [slug t] := by
  split
  · rename_i h
    rw [h]
    rfl
  · rename_i h
    have hcounts : ∀ s ∈ [slug t], Place.Counts s := by
      intro s hs
      exact List.mem_singleton.mp hs ▸ (isName_slug h).counts
    exact Place.segments_join hcounts

lemma isName_of_mem_segments_slug {t s : Text} (h : s ∈ Place.segments (slug t)) :
    Place.IsName s := by
  rw [segments_slug] at h
  split at h
  · cases h
  · rename_i hne
    exact List.mem_singleton.mp h ▸ isName_slug hne

/-- A slug is known by its segments. -/
lemma segments_slug_inj {a b : Text} :
    Place.segments (slug a) = Place.segments (slug b) ↔ slug a = slug b := by
  refine ⟨fun h => ?_, congrArg _⟩
  rw [segments_slug, segments_slug] at h
  grind

end Sitewright
