import Mathlib
import Sitewright.Child
import Sitewright.Proofs.Ordering

/-!
The order of children in a listing. Every mode sorts stably by a key of its own; the modes for dates put
the children that have none behind the others, and break ties in the usual order. Sorting once more
changes nothing.
-/
namespace Sitewright

/-- Dates are in the order of their years, months and days. -/
def Date.key (d : Date) : ℕ ×ₗ ℕ ×ₗ ℕ := toLex (d.year, toLex (d.month, d.day))

lemma Date.before_iff {a b : Date} : a.before b = true ↔ a.key < b.key := by
  simp [before, key, Prod.Lex.toLex_lt_toLex]

namespace Child

/-- The key of the usual order: the order, then the title without regard to case. -/
def orderKey (c : Child) : ℤ ×ₗ Text := siblingKey c.order c.title

/-- The title without regard to case. -/
def titleKey (c : Child) : Text := Text.caseFold c.title

/-- The date, later than all dates where there is none. -/
def sinceKey (c : Child) : WithTop (ℕ ×ₗ ℕ ×ₗ ℕ) := c.date.elim ⊤ fun d => ↑d.key

/-- The date, with dates the other way round and the end still where there is none. -/
def untilKey (c : Child) : WithTop (ℕ ×ₗ ℕ ×ₗ ℕ)ᵒᵈ := c.date.elim ⊤ fun d => ↑(OrderDual.toDual d.key)

/-- The oldest first, those without a date last, ties in the usual order. -/
def oldestKey (c : Child) : WithTop (ℕ ×ₗ ℕ ×ₗ ℕ) ×ₗ ℤ ×ₗ Text := toLex (c.sinceKey, c.orderKey)

/-- The newest first, those without a date last, ties in the usual order. -/
def newestKey (c : Child) : WithTop (ℕ ×ₗ ℕ ×ₗ ℕ)ᵒᵈ ×ₗ ℤ ×ₗ Text := toLex (c.untilKey, c.orderKey)

lemma titleInOrder_iff (a b : Child) : titleInOrder a b = true ↔ a.titleKey ≤ b.titleKey := by
  rw [titleInOrder, Bool.not_eq_true', ← Bool.not_eq_true, Text.lt_iff, not_lt]
  rfl

lemma sortedBy_inOrder (children : List Child) :
    SortedBy orderKey children (children.mergeSort inOrder) :=
  sortedBy_mergeSort orderKey (fun _ _ => siblingKey_le_iff.symm) children

section Dated

variable {κ : Type} [LinearOrder κ] {key : Child → κ} {le : Child → Child → Bool}

/-- Children are sorted by date, and in the usual order where dates tie, if the test goes by a key of
the date that is greatest where there is none. -/
lemma sortedBy_sortDated (hle : ∀ a b, a.date.isSome = true → b.date.isSome = true →
      (le a b = true ↔ key a ≤ key b))
    (hlast : ∀ a b, a.date.isSome = true → b.date.isSome = false → key a < key b)
    (hnone : ∀ a b, a.date.isSome = false → b.date.isSome = false → key a = key b) (children : List Child) :
    SortedBy (fun c => toLex (key c, c.orderKey)) children (sortDated le children) := by
  have hsorted := sortedBy_inOrder children
  have hundated : (children.mergeSort inOrder).filter (fun c => c.date.isNone) =
      (children.mergeSort inOrder).filter (fun c => !c.date.isSome) :=
    List.filter_congr fun c _ => by simp
  rw [sortDated, hundated]
  refine SortedBy.append (p := fun c => c.date.isSome) ?_ ?_ fun a b ha hb => ?_
  · refine (hsorted.filter _).next (sortedBy_mergeSort_of_mem fun a ha b hb => hle a b ?_ ?_)
    · exact (List.mem_filter.mp ha).2
    · exact (List.mem_filter.mp hb).2
  · refine (hsorted.filter _).next ⟨.refl _, ?_, fun _ => rfl⟩
    refine List.pairwise_of_forall_mem_list fun a ha b hb => (hnone a b ?_ ?_).le
    · simpa using (List.mem_filter.mp ha).2
    · simpa using (List.mem_filter.mp hb).2
  · exact Prod.Lex.toLex_lt_toLex.mpr (.inl (hlast a b ha hb))

end Dated

lemma sortedBy_oldest (children : List Child) :
    SortedBy oldestKey children (sortDated (fun a b => !datedBefore b a) children) := by
  refine sortedBy_sortDated ?_ ?_ ?_ children <;>
    rintro ⟨_, _, _, _ | d, _, _⟩ ⟨_, _, _, _ | e, _, _⟩ <;>
    simp [datedBefore, sinceKey, ← Date.before_iff, ← not_lt]

lemma sortedBy_newest (children : List Child) :
    SortedBy newestKey children (sortDated (fun a b => !datedBefore a b) children) := by
  refine sortedBy_sortDated ?_ ?_ ?_ children <;>
    rintro ⟨_, _, _, _ | d, _, _⟩ ⟨_, _, _, _ | e, _, _⟩ <;>
    simp [datedBefore, untilKey, ← Date.before_iff, ← not_lt]

section Modes

variable (children : List Child)

lemma sort_title : SortedBy titleKey children (sort (some "title".toList) children) :=
  sortedBy_mergeSort titleKey titleInOrder_iff children

lemma sort_oldest : SortedBy oldestKey children (sort (some "date-asc".toList) children) := by
  rw [sort, if_neg (by decide), if_neg (by decide), if_pos rfl]
  exact sortedBy_oldest children

lemma sort_newest : SortedBy newestKey children (sort (some "date-desc".toList) children) := by
  rw [sort, if_neg (by decide), if_pos rfl]
  exact sortedBy_newest children

/-- The names of the modes that are not the usual order. -/
def modes : List Text := ["title".toList, "date-asc".toList, "date-desc".toList]

lemma sort_usual {mode : Option Text} (h : ∀ name ∈ modes, mode ≠ some name) :
    SortedBy orderKey children (sort mode children) := by
  rw [sort, if_neg (h _ (by decide)), if_neg (h _ (by decide)), if_neg (h _ (by decide))]
  exact sortedBy_inOrder children

end Modes

/-- Sorting children neither adds nor loses any and goes by the mode: stably by title, by date, or in the
usual order, which also breaks the ties of dates. What is sorted stays as it is. -/
theorem sort_sortedBy (mode : Option Text) (children : List Child) :
    (sort mode children).Perm children ∧
    (mode = some "title".toList → SortedBy titleKey children (sort mode children)) ∧
    (mode = some "date-asc".toList → SortedBy oldestKey children (sort mode children)) ∧
    (mode = some "date-desc".toList → SortedBy newestKey children (sort mode children)) ∧
    ((∀ name ∈ modes, mode ≠ some name) → SortedBy orderKey children (sort mode children)) ∧
    sort mode (sort mode children) = sort mode children := by
  have hall : (sort mode children).Perm children ∧ sort mode (sort mode children) = sort mode children := by
    by_cases h : ∃ name ∈ modes, mode = some name
    · obtain ⟨name, hname, rfl⟩ := h
      simp only [modes, List.mem_cons, List.not_mem_nil, or_false] at hname
      rcases hname with rfl | rfl | rfl
      · exact ⟨(sort_title children).perm, SortedBy.again sort_title children⟩
      · exact ⟨(sort_oldest children).perm, SortedBy.again sort_oldest children⟩
      · exact ⟨(sort_newest children).perm, SortedBy.again sort_newest children⟩
    · push Not at h
      exact ⟨(sort_usual children h).perm, SortedBy.again (fun l => sort_usual l h) children⟩
  refine ⟨hall.1, ?_, ?_, ?_, sort_usual children, hall.2⟩
  · rintro rfl
    exact sort_title children
  · rintro rfl
    exact sort_oldest children
  · rintro rfl
    exact sort_newest children

/-- Children of which two share a date, and two have none. -/
def someChildren : List Child :=
  let dated (title : String) (date : Option Date) (order : ℤ) : Child :=
    { title := title.toList, url := [], date, order }
  [dated "b" (Date.of? 2026 2 1) 2, dated "X" none 1, dated "C" (Date.of? 2026 2 1) 1,
    dated "a" (Date.of? 2025 12 31) 9, dated "d" none 0]

theorem sort_sortedBy_newestFirst :
    SortedBy newestKey someChildren (sort (some "date-desc".toList) someChildren) ∧
    SortedBy orderKey someChildren (sort (some "newest".toList) someChildren) ∧
    (sort (some "date-desc".toList) someChildren).map title = ["C", "b", "a", "d", "X"].map String.toList := by
  refine ⟨(sort_sortedBy _ someChildren).2.2.2.1 rfl, (sort_sortedBy _ someChildren).2.2.2.2.1 ?_, ?_⟩
  · decide
  · cbv

end Child
end Sitewright
