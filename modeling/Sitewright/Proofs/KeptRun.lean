import Sitewright.Proofs.KeptMark

/-!
Putting kept HTML back, step by step. The steps that are counted for it are enough, also for HTML that
kept HTML refers to, so what is written for a text follows the text from left to right.
-/
namespace Sitewright.Markdown.Kept

/-- How many steps are counted for putting HTML back. -/
def steps (kept : List Text) (t : Text) : ℕ := kept.foldl (fun n html => n + html.length + 8) (t.length + 1)

lemma restore_eq (kept : List Text) (t : Text) : restore kept t = restoreFrom kept (steps kept t) 0 t := rfl

lemma steps_eq (kept : List Text) (t : Text) :
    steps kept t = t.length + 1 + (kept.map fun html => html.length + 8).sum := by
  rw [steps]
  generalize t.length + 1 = n
  induction kept generalizing n with
  | nil => rfl
  | cons html kept ih =>
    rw [List.foldl_cons, ih, List.map_cons, List.sum_cons]
    omega

/-- Kept HTML in a paragraph of its own, if it stands for a paragraph and is no block. -/
def wrap (wrapped : Bool) (html : Text) : Text :=
  if wrapped && !isBlock html then "<p>".toList ++ html ++ "</p>".toList else html

lemma length_wrap_le (wrapped : Bool) (html : Text) : (wrap wrapped html).length ≤ html.length + 7 := by
  have hopening : "<p>".toList.length = 3 := rfl
  have hclosing : "</p>".toList.length = 4 := rfl
  rw [wrap]
  split
  · rw [List.length_append, List.length_append]
    omega
  · omega

/-- The HTML that a mark stands for is put back with fewer steps than the text it stands in. -/
lemma steps_wrap_lt {kept : List Text} {n : ℕ} {html : Text} (h : kept[n]? = some html) (wrapped : Bool)
    (c : Char) (cs : Text) : steps (kept.take n) (wrap wrapped html) < steps kept (c :: cs) := by
  obtain ⟨hn, rfl⟩ := List.getElem?_eq_some_iff.mp h
  have hsplit : kept = kept.take n ++ kept[n] :: kept.drop (n + 1) := by simp
  have hsum := congrArg (fun kept => (kept.map fun html : Text => html.length + 8).sum) hsplit
  simp only [List.map_append, List.map_cons, List.sum_append, List.sum_cons] at hsum
  have hwrap := length_wrap_le wrapped kept[n]
  rw [steps_eq, steps_eq, hsum, List.length_cons]
  omega

section Steps

variable {kept : List Text}

lemma restoreFrom_some_eq (fuel : ℕ) {c : Char} {cs : Text} {p : Placed} (h : placed? (c :: cs) = some p) :
    restoreFrom kept (fuel + 1) 0 (c :: cs) = (match kept[p.number]? with
      | none => (c :: cs).take p.size
      | some html => restoreFrom (kept.take p.number) fuel 0 (wrap p.wrapped html)) ++
      restoreFrom kept fuel (p.size - 1) cs := by
  rw [restoreFrom, h]
  rfl

/-- More steps than are counted change nothing. -/
lemma restoreFrom_steps {fuel fuel' skip : ℕ} {t : Text} (h : steps kept t ≤ fuel) (h' : steps kept t ≤ fuel') :
    restoreFrom kept fuel skip t = restoreFrom kept fuel' skip t := by
  induction fuel generalizing kept fuel' skip t with
  | zero =>
    rw [steps_eq] at h
    omega
  | succ fuel ih =>
    obtain ⟨fuel', rfl⟩ := Nat.exists_eq_succ_of_ne_zero (n := fuel') (by rw [steps_eq] at h'; omega)
    cases t with
    | nil => rfl
    | cons c cs =>
      have hrest : steps kept cs + 1 = steps kept (c :: cs) := by
        rw [steps_eq, steps_eq, List.length_cons]
        omega
      have htail : ∀ skip, restoreFrom kept fuel skip cs = restoreFrom kept fuel' skip cs := fun skip =>
        ih (by omega) (by omega)
      cases skip with
      | succ skip => exact htail skip
      | zero =>
        cases hplaced : placed? (c :: cs) with
        | none => rw [restoreFrom_none _ _ hplaced, restoreFrom_none _ _ hplaced, htail]
        | some p =>
          rw [restoreFrom_some_eq _ hplaced, restoreFrom_some_eq _ hplaced, htail]
          cases hkept : kept[p.number]? with
          | none => rfl
          | some html =>
            have hlt := steps_wrap_lt hkept p.wrapped c cs
            have hle : steps (kept.take p.number) (wrap p.wrapped html) ≤ fuel := by omega
            have hle' : steps (kept.take p.number) (wrap p.wrapped html) ≤ fuel' := by omega
            dsimp only
            rw [ih hle hle']

@[simp] lemma restore_nil : restore kept [] = [] := by
  obtain ⟨n, hn⟩ := Nat.exists_eq_succ_of_ne_zero (n := steps kept []) (by rw [steps_eq]; omega)
  rw [restore_eq, hn]
  rfl

lemma restoreFrom_drop {fuel skip : ℕ} {t : Text} (h : steps kept t ≤ fuel) :
    restoreFrom kept fuel skip t = restore kept (t.drop skip) := by
  induction skip generalizing fuel t with
  | zero => exact restoreFrom_steps h le_rfl
  | succ skip ih =>
    cases t with
    | nil =>
      rw [steps_eq] at h
      obtain ⟨fuel, rfl⟩ := Nat.exists_eq_succ_of_ne_zero (n := fuel) (by omega)
      exact restore_nil.symm
    | cons c cs =>
      rw [steps_eq, List.length_cons] at h
      obtain ⟨fuel, rfl⟩ := Nat.exists_eq_succ_of_ne_zero (n := fuel) (by omega)
      exact ih (by rw [steps_eq]; omega)

lemma steps_cons (c : Char) (cs : Text) : steps kept (c :: cs) = steps kept cs + 1 := by
  rw [steps_eq, steps_eq, List.length_cons]
  omega

/-- A character at which no mark stands is copied. -/
lemma restore_of_none {c : Char} {cs : Text} (h : placed? (c :: cs) = none) :
    restore kept (c :: cs) = c :: restore kept cs := by
  rw [restore_eq, steps_cons, restoreFrom_none _ _ h]
  rfl

lemma placed?_size_ne_zero {t : Text} {p : Placed} (h : placed? t = some p) : p.size ≠ 0 := by
  obtain ⟨m, whole, rest, hhead, -, -, hsize, hwhole⟩ := placed?_cases h
  have hm : m ≠ [] := by
    rintro rfl
    cases hhead
  rw [hsize]
  refine fun hzero => ?_
  rcases hwhole with rfl | rfl
  · exact hm (List.length_eq_zero_iff.mp hzero)
  · simp at hzero

/-- What stands in the end at the place of a mark: its HTML, put back in turn. -/
def atMark (kept : List Text) (p : Placed) (mark : Text) : Text :=
  match kept[p.number]? with
  | none => mark
  | some html => restore (kept.take p.number) (wrap p.wrapped html)

lemma restore_of_some {t : Text} {p : Placed} (h : placed? t = some p) :
    restore kept t = atMark kept p (t.take p.size) ++ restore kept (t.drop p.size) := by
  obtain ⟨c, cs, rfl⟩ : ∃ c cs, t = c :: cs := by
    cases t with
    | nil => cases h
    | cons c cs => exact ⟨c, cs, rfl⟩
  obtain ⟨k, hk⟩ := Nat.exists_eq_succ_of_ne_zero (placed?_size_ne_zero h)
  rw [restore_eq, steps_cons, restoreFrom_some_eq _ h, restoreFrom_drop le_rfl, atMark, hk]
  congr 1
  cases hkept : kept[p.number]? with
  | none => rfl
  | some html =>
    have hlt := steps_wrap_lt hkept p.wrapped c cs
    rw [steps_cons] at hlt
    exact restoreFrom_steps (Nat.le_of_lt_succ hlt) le_rfl

/-- Text in which no mark starts is copied. -/
lemma restore_append {x v : Text} (h : ∀ u y, x = u ++ y → y ≠ [] → placed? (y ++ v) = none) :
    restore kept (x ++ v) = x ++ restore kept v := by
  induction x with
  | nil => rfl
  | cons c cs ih =>
    have hnone : placed? (c :: (cs ++ v)) = none := h [] (c :: cs) rfl (List.cons_ne_nil c cs)
    rw [List.cons_append, restore_of_none hnone, ih]
    · rfl
    · exact fun u y hsplit hy => h (c :: u) y (congrArg (c :: ·) hsplit) hy

end Steps

end Sitewright.Markdown.Kept
