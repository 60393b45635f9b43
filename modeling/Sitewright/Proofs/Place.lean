import Sitewright.Place
import Sitewright.Proofs.Splitting

/-!
Where places lead. The segments of a place below a directory are those of the directory and its own,
and two of them without steps up lead to one name only if they have the same segments.
-/
namespace Sitewright.Place

/-- A segment that counts. -/
def Counts (s : Text) : Prop := s ≠ [] ∧ s ≠ ['.'] ∧ '/' ∉ s

/-- The step to the directory above. -/
def up : Text := "..".toList

/-- The name of a file or of a directory. -/
structure IsName (s : Text) : Prop where
  counts : Counts s
  ne_up : s ≠ up

instance (s : Text) : Decidable (IsName s) :=
  decidable_of_iff ((s ≠ [] ∧ s ≠ ['.'] ∧ '/' ∉ s) ∧ s ≠ up)
    ⟨fun h => ⟨h.1, h.2⟩, fun h => ⟨h.counts, h.ne_up⟩⟩

section Segments

lemma counts_of_mem_segments {p s : Text} (h : s ∈ segments p) : Counts s := by
  obtain ⟨hs, hcounts⟩ := List.mem_filter.mp h
  simp only [Bool.and_eq_true, Bool.not_eq_true', List.isEmpty_eq_false_iff, decide_eq_true_eq]
    at hcounts
  exact ⟨hcounts.1, hcounts.2, Text.not_mem_of_mem_splitOn hs⟩

lemma segments_append (a b : Text) : segments (a ++ '/' :: b) = segments a ++ segments b := by
  rw [segments, Text.splitOn_append, List.filter_append]
  rfl

lemma segments_slash (p : Text) : segments ('/' :: p) = segments p := segments_append [] p

lemma segments_join {ss : List Text} (h : ∀ s ∈ ss, Counts s) :
    segments (Text.join ['/'] ss) = ss := by
  cases ss with
  | nil => rfl
  | cons s ss =>
    rw [segments, Text.splitOn_join (List.cons_ne_nil _ _) fun t ht => (h t ht).2.2]
    refine List.filter_eq_self.mpr fun t ht => ?_
    obtain ⟨hne, hdot, -⟩ := h t ht
    simp [hne, hdot]

lemma segments_join_segments (p : Text) : segments (Text.join ['/'] (segments p)) = segments p :=
  segments_join fun _ h => counts_of_mem_segments h

lemma segments_ofSegments (p : Text) : segments (ofSegments (segments p)) = segments p := by
  rw [ofSegments]
  split
  · rename_i hempty
    rw [List.isEmpty_iff.mp hempty]
    rfl
  · exact segments_join_segments p

lemma segments_clean (p : Text) : segments (clean p) = segments p := by
  unfold clean
  split
  · rename_i c _
    split
    · exact (segments_slash _).trans (segments_join_segments _)
    · exact (segments_slash _).trans ((segments_slash _).trans (segments_join_segments _))
  · rfl
  · exact (segments_slash _).trans (segments_join_segments _)
  · exact segments_ofSegments p

lemma isAbsolute_join {ss : List Text} (h : ∀ s ∈ ss, Counts s) :
    isAbsolute (Text.join ['/'] ss) = false := by
  rw [isAbsolute, decide_eq_false_iff_not]
  intro hhead
  cases ss with
  | nil => cases hhead
  | cons s ss =>
    -- the first segment is not empty and holds no slash
    obtain ⟨hne, -, hslash⟩ := h s List.mem_cons_self
    obtain ⟨c, cs, rfl⟩ := List.exists_cons_of_ne_nil hne
    have hc : c = '/' := by
      cases ss <;> simpa [Text.join] using hhead
    exact hslash (hc ▸ List.mem_cons_self)

lemma isAbsolute_clean (p : Text) : isAbsolute (clean p) = isAbsolute p := by
  unfold clean
  split
  · split <;> rfl
  · rfl
  · rfl
  · rename_i hrelative
    have hp : isAbsolute p = false := by
      rw [isAbsolute, decide_eq_false_iff_not]
      intro hhead
      obtain ⟨rest, rfl⟩ := List.head?_eq_some_iff.mp hhead
      exact hrelative rest rfl
    rw [hp, ofSegments]
    split
    · rfl
    · exact isAbsolute_join fun _ h => counts_of_mem_segments h

lemma withSlash_cases (d : Text) :
    (withSlash d = [] ∧ d = []) ∨ ∃ front, withSlash d = front ++ ['/'] ∧ segments front = segments d := by
  unfold withSlash
  split
  · rename_i h
    rcases (Bool.or_eq_true _ _).mp h with h | h
    · exact .inl ⟨List.isEmpty_iff.mp h, List.isEmpty_iff.mp h⟩
    · obtain ⟨front, rfl⟩ := List.getLast?_eq_some_iff.mp (of_decide_eq_true h)
      exact .inr ⟨front, rfl, (segments_append front []).trans (List.append_nil _) |>.symm⟩
  · exact .inr ⟨d, rfl, rfl⟩

lemma segments_withSlash (d p : Text) : segments (withSlash d ++ p) = segments d ++ segments p := by
  rcases withSlash_cases d with ⟨h, rfl⟩ | ⟨front, h, hfront⟩
  · rw [h]
    rfl
  · rw [h, List.append_assoc, List.singleton_append, segments_append, hfront]

lemma isAbsolute_withSlash (d : Text) {p : Text} (hp : isAbsolute p = false) :
    isAbsolute (withSlash d ++ p) = isAbsolute d := by
  unfold withSlash
  cases d with
  | nil => exact hp
  | cons c cs => split <;> rfl

variable {d p : Text} (hp : isAbsolute p = false)
include hp

lemma segments_placeJoin : segments (join d p) = segments d ++ segments p := by
  rw [join, hp, if_neg Bool.false_ne_true, segments_clean, segments_withSlash]

lemma isAbsolute_placeJoin : isAbsolute (join d p) = isAbsolute d := by
  rw [join, hp, if_neg Bool.false_ne_true, isAbsolute_clean, isAbsolute_withSlash d hp]

end Segments

section Steps

/-- Segments that are no steps up stay behind those that there are. -/
lemma stepUp_append (left ss ts : List Text) (h : up ∉ ts) :
    stepUp left (ss ++ ts) = stepUp left ss ++ ts := by
  induction ss generalizing left with
  | nil =>
    induction ts generalizing left with
    | nil => simp [stepUp]
    | cons t ts ih =>
      obtain ⟨ht, hts⟩ := not_or.mp (List.mem_cons.not.mp h)
      have hup : t ≠ ['.', '.'] := Ne.symm ht
      have hrest := ih hts (t :: left)
      rw [List.nil_append] at hrest
      simp [stepUp, hup, hrest]
  | cons s ss ih =>
    rw [List.cons_append]
    unfold stepUp
    split
    · split
      · exact ih _
      · split
        · exact ih _
        · exact ih _
    · exact ih _

lemma stepUp_of_not_mem {ss : List Text} (h : up ∉ ss) : stepUp [] ss = ss :=
  stepUp_append [] [] ss h

lemma mem_stepUp {left ss : List Text} {s : Text} (h : s ∈ stepUp left ss) : s ∈ left ∨ s ∈ ss := by
  fun_induction stepUp left ss with grind

end Steps

section Locate

/-- A place leads to what is left of it below the working directory, or else from the root or the
working directory on. -/
lemma locate_cases (working p : Text) :
    (∃ left, segments p = segments working ++ left ∧ locate working p = stepUp [] left ∧
      (isAbsolute working → isAbsolute p)) ∨
    locate working p = (if isAbsolute p then [['/']] else []) ++ stepUp [] (segments p) := by
  have habsolute : ∀ rest, isAbsolute working → isAbsolute (working ++ rest) := by
    intro rest h
    cases working with
    | nil => cases h
    | cons c cs => exact h
  unfold locate
  split
  · rename_i hrest
    rw [List.isPrefixOf?_eq_some_iff_append_eq] at hrest
    subst hrest
    exact .inl ⟨[], by simp, rfl, habsolute []⟩
  · rename_i rest hrest
    rw [List.isPrefixOf?_eq_some_iff_append_eq] at hrest
    subst hrest
    exact .inl ⟨segments rest, segments_append working rest, rfl, habsolute _⟩
  · right
    split <;> rfl

/-- A place that leads somewhere below the directory it is seen from. -/
structure Descends (p : Text) : Prop where
  ne_nil : p ≠ []
  relative : isAbsolute p = false
  no_up : up ∉ segments p

lemma descends_join {ss : List Text} (hne : ss ≠ []) (h : ∀ s ∈ ss, IsName s) :
    Descends (Text.join ['/'] ss) := by
  have hcounts := fun s hs => (h s hs).counts
  have hsegments := segments_join hcounts
  constructor
  case ne_nil =>
    intro he
    rw [he] at hsegments
    exact hne hsegments.symm
  case relative => exact isAbsolute_join hcounts
  case no_up =>
    rw [hsegments]
    exact fun hup => (h _ hup).ne_up rfl

variable {working d p q : Text}

/-- Below a directory the segments of a place decide what it is without those that do not count. -/
lemma join_eq_join (hp : Descends p) (hq : Descends q) (h : segments p = segments q) :
    join d p = join d q := by
  have hsegments : segments (withSlash d ++ p) = segments (withSlash d ++ q) := by
    rw [segments_withSlash, segments_withSlash, h]
  rw [join, hp.relative, join, hq.relative, if_neg Bool.false_ne_true, if_neg Bool.false_ne_true]
  obtain ⟨a, p, rfl⟩ := List.exists_cons_of_ne_nil hp.ne_nil
  obtain ⟨b, q, rfl⟩ := List.exists_cons_of_ne_nil hq.ne_nil
  have ha : a ≠ '/' := by simpa [isAbsolute] using hp.relative
  have hb : b ≠ '/' := by simpa [isAbsolute] using hq.relative
  -- how many slashes are kept in front shows in the first three characters
  generalize withSlash d = front at hsegments
  rcases front with _ | ⟨x, _ | ⟨y, _ | ⟨z, front⟩⟩⟩
  · simp_all [clean]
  · by_cases hx : x = '/' <;> simp_all [clean]
  · by_cases hx : x = '/' <;> by_cases hy : y = '/' <;> simp_all [clean]
  · by_cases hx : x = '/' <;> by_cases hy : y = '/' <;> simp_all [clean]

variable {working d p q : Text}

/-- Places below one directory lead to one name exactly where they have the same segments. -/
lemma locate_join_eq_iff (hworking : isAbsolute working = true) (hp : Descends p)
    (hq : Descends q) :
    locate working (join d p) = locate working (join d q) ↔ segments p = segments q := by
  refine ⟨fun h => ?_, fun h => congrArg _ (join_eq_join hp hq h)⟩
  have hsp := segments_placeJoin (d := d) hp.relative
  have hsq := segments_placeJoin (d := d) hq.relative
  have hupp := hp.no_up
  have hupq := hq.no_up
  have habsolute : isAbsolute (join d p) = isAbsolute (join d q) := by
    rw [isAbsolute_placeJoin hp.relative, isAbsolute_placeJoin hq.relative]
  -- no name below the working directory starts with a slash
  have hslash : ∀ {r left}, segments (join d r) = segments working ++ left →
      ['/'] ∉ stepUp [] left := by
    intro r left hr hmem
    have hleft := (mem_stepUp hmem).resolve_left List.not_mem_nil
    have hcounts := counts_of_mem_segments (hr ▸ List.mem_append_right _ hleft)
    exact hcounts.2.2 (List.mem_singleton_self _)
  rcases locate_cases working (join d p) with ⟨left, hl, hlp, hap⟩ | hlp <;>
    rcases locate_cases working (join d q) with ⟨right, hr, hlq, haq⟩ | hlq
  · rw [hlp, hlq] at h
    rw [hsp] at hl
    rw [hsq] at hr
    rcases List.append_eq_append_iff.mp hl with ⟨mid, hw, hmid⟩ | ⟨mid, hw, hmid⟩
    · -- the working directory lies below the directory
      rw [hw, List.append_assoc, List.append_cancel_left_eq] at hr
      rw [hmid] at hupp
      rw [hr] at hupq
      rw [stepUp_of_not_mem fun hm => hupp (List.mem_append_right _ hm),
        stepUp_of_not_mem fun hm => hupq (List.mem_append_right _ hm)] at h
      rw [hmid, hr, h]
    · rw [hw, List.append_assoc, List.append_cancel_left_eq] at hr
      rw [hmid, ← hr, stepUp_append _ _ _ hupp, stepUp_append _ _ _ hupq] at h
      exact List.append_cancel_left h
  · rw [hlp, hlq, ← habsolute, hap hworking, if_pos rfl] at h
    exact absurd (h ▸ List.mem_cons_self) (hslash hl)
  · rw [hlp, hlq, habsolute, haq hworking, if_pos rfl] at h
    exact absurd (h ▸ List.mem_cons_self) (hslash hr)
  · rw [hlp, hlq, habsolute, List.append_cancel_left_eq, hsp, hsq, stepUp_append _ _ _ hupp,
      stepUp_append _ _ _ hupq] at h
    exact List.append_cancel_left h

end Locate

end Sitewright.Place
