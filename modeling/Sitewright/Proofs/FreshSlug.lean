import Mathlib.Data.Finset.Card
import Mathlib.Data.Nat.Find
import Mathlib.Order.Bounds.Defs
import Sitewright.Proofs.Number
import Sitewright.Slug

/-!
The search for an identifier that is not taken. No two candidates are the same, so among one more of
them than there are taken identifiers one is free, and the search ends at the first that is.
-/
namespace Sitewright

/-- The search from the candidate of a number on, test by test: it ends with an identifier after so
many tests whether a candidate is taken. -/
inductive Search (base : Text) (taken : List Text) : ℕ → ℕ → Text → Prop
  | free {k : ℕ} (h : slugCandidate base k ∉ taken) : Search base taken k 1 (slugCandidate base k)
  | next {k tests : ℕ} {id : Text} (h : slugCandidate base k ∈ taken)
      (rest : Search base taken (k + 1) tests id) : Search base taken k (tests + 1) id

section Candidates

variable (base : Text) (taken : List Text)

lemma slugCandidate_injective : Function.Injective (slugCandidate base) := by
  intro j k h
  cases j with
  | zero =>
    cases k with
    | zero => rfl
    | succ k => simp [slugCandidate] at h
  | succ j =>
    cases k with
    | zero => simp [slugCandidate] at h
    | succ k =>
      have hnumber := Text.ofNat_injective (List.cons.inj (List.append_cancel_left h)).2
      omega

/-- As many candidates as there are taken identifiers may all be taken, but not one more. -/
lemma exists_free : ∃ k ≤ taken.toFinset.card, slugCandidate base k ∉ taken := by
  by_contra! h
  have hsubset : (Finset.range (taken.toFinset.card + 1)).image (slugCandidate base) ⊆
      taken.toFinset := by
    intro id hid
    obtain ⟨k, hk, rfl⟩ := Finset.mem_image.mp hid
    exact List.mem_toFinset.mpr (h k (Nat.lt_succ_iff.mp (Finset.mem_range.mp hk)))
  have hle := Finset.card_le_card hsubset
  rw [Finset.card_image_of_injective _ (slugCandidate_injective base), Finset.card_range] at hle
  omega

end Candidates

section Found

variable {base : Text} {taken : List Text}

/-- The search passes over taken candidates, testing each of them, and ends at the first free one. -/
lemma search_iff {k tests : ℕ} {id : Text} : Search base taken k tests id ↔
    ∃ passed, tests = passed + 1 ∧ id = slugCandidate base (k + passed) ∧ id ∉ taken ∧
      ∀ i < passed, slugCandidate base (k + i) ∈ taken := by
  constructor
  · intro h
    induction h with
    | @free k hfree => exact ⟨0, rfl, rfl, hfree, by simp⟩
    | @next k tests id htaken rest ih =>
      obtain ⟨passed, rfl, rfl, hfree, hpassed⟩ := ih
      refine ⟨passed + 1, rfl, by rw [Nat.add_right_comm]; rfl, hfree, fun i hi => ?_⟩
      cases i with
      | zero => exact htaken
      | succ i =>
        have hi := hpassed i (by omega)
        rwa [Nat.add_right_comm] at hi
  · rintro ⟨passed, rfl, rfl, hfree, hpassed⟩
    -- one taken candidate is passed over at a time, so the rest of the run starts at the next number
    induction passed generalizing k with
    | zero => exact .free hfree
    | succ passed ih =>
      have hshift : ∀ i, k + (i + 1) = k + 1 + i := fun i => by omega
      rw [hshift passed] at hfree ⊢
      apply Search.next (hpassed 0 (Nat.succ_pos _))
      exact ih hfree fun i hi => hshift i ▸ hpassed (i + 1) (Nat.succ_lt_succ hi)

/-- The generated identifier is the first candidate that is free. -/
lemma exists_freshSlug_eq (title : Text) (taken : List Text) : ∃ k ≤ taken.toFinset.card,
    freshSlug title taken = slugCandidate (slug title) k ∧ slugCandidate (slug title) k ∉ taken ∧
      ∀ j < k, slugCandidate (slug title) j ∈ taken := by
  obtain ⟨bound, hbound, hfree⟩ := exists_free (slug title) taken
  have hexists : ∃ k, slugCandidate (slug title) k ∉ taken := ⟨bound, hfree⟩
  have hle : Nat.find hexists ≤ taken.toFinset.card := (Nat.find_min' hexists hfree).trans hbound
  have hbefore : ∀ j < Nat.find hexists, slugCandidate (slug title) j ∈ taken := fun j hj =>
    not_not.mp (Nat.find_min hexists hj)
  refine ⟨Nat.find hexists, hle, ?_, Nat.find_spec hexists, hbefore⟩
  have hrange : Nat.find hexists < taken.length + 1 :=
    Nat.lt_succ_of_le (hle.trans (List.toFinset_card_le taken))
  have hfound : ((List.range (taken.length + 1)).find? fun k =>
      !taken.contains (slugCandidate (slug title) k)) = some (Nat.find hexists) := by
    rw [List.find?_range_eq_some]
    refine ⟨by simpa using Nat.find_spec hexists, List.mem_range.mpr hrange, fun j hj => ?_⟩
    simpa using hbefore j hj
  rw [freshSlug, hfound]

end Found

/-- Every search for a free identifier ends, and in one way: with an identifier that is not taken,
after at most one test more than there are taken identifiers. It is the slug itself if that is free,
and otherwise the slug with the least number from 2 on that makes it free. -/
theorem freshSlug_search (title : Text) (taken : List Text) :
    ∃ tests ≤ taken.toFinset.card + 1,
      (∀ n id, Search (slug title) taken 0 n id ↔ n = tests ∧ id = freshSlug title taken) ∧
      freshSlug title taken ∉ taken ∧
      (slug title ∉ taken ∧ freshSlug title taken = slug title ∧ tests = 1 ∨
        slug title ∈ taken ∧ ∃ k, IsLeast {k | 2 ≤ k ∧ slug title ++ '-' :: Text.ofNat k ∉ taken} k ∧
          freshSlug title taken = slug title ++ '-' :: Text.ofNat k ∧ tests = k) := by
  obtain ⟨first, hle, hfresh, hfree, hbefore⟩ := exists_freshSlug_eq title taken
  refine ⟨first + 1, Nat.succ_le_succ hle, fun n id => ?_, hfresh ▸ hfree, ?_⟩
  · rw [search_iff, hfresh]
    simp only [Nat.zero_add]
    constructor
    · rintro ⟨passed, rfl, rfl, hid, hpassed⟩
      have hge : first ≤ passed := not_lt.mp fun hlt => hid (hbefore passed hlt)
      have hends : passed ≤ first := not_lt.mp fun hlt => hfree (hpassed first hlt)
      rw [Nat.le_antisymm hends hge]
      exact ⟨rfl, rfl⟩
    · rintro ⟨rfl, rfl⟩
      exact ⟨first, rfl, rfl, hfree, hbefore⟩
  · cases first with
    | zero => exact .inl ⟨hfree, hfresh, rfl⟩
    | succ first =>
      refine .inr ⟨hbefore 0 (Nat.succ_pos _), first + 2, ⟨⟨by omega, hfree⟩, ?_⟩, hfresh, rfl⟩
      rintro k ⟨hk, hnot⟩
      obtain ⟨j, rfl⟩ : ∃ j, k = j + 2 := ⟨k - 2, by omega⟩
      have hge : first ≤ j := not_lt.mp fun hlt => hnot (hbefore (j + 1) (Nat.succ_lt_succ hlt))
      exact Nat.add_le_add_right hge 2

end Sitewright
