import Mathlib.Data.List.Nodup

/-!
Lists read as maps, from pairs or from items that have keys. Where all keys differ, everything is
the one that its key finds.
-/
namespace Sitewright

section Keys

variable {α κ : Type} [DecidableEq κ] {key : α → κ} {l : List α}

/-- Where all keys differ, an item is the one that its key finds. -/
lemma find?_key_of_mem (hnodup : (l.map key).Nodup) {a : α} (ha : a ∈ l) :
    (l.find? fun b => key b = key a) = some a := by
  cases h : l.find? fun b => key b = key a with
  | none =>
    have := List.find?_eq_none.mp h a ha
    simp at this
  | some b =>
    have hb := List.mem_of_find?_eq_some h
    have hkey : key b = key a := by simpa using List.find?_some h
    rw [List.inj_on_of_nodup_map hnodup hb ha hkey]

end Keys

section Pairs

variable {α β : Type} [BEq α] [LawfulBEq α] {l : List (α × β)} {a : α}

lemma lookup_cons_ite [DecidableEq α] (a k : α) (b : β) (l : List (α × β)) :
    ((k, b) :: l).lookup a = if a = k then some b else l.lookup a := by
  rw [List.lookup_cons]
  split
  · rename_i h
    rw [if_pos (eq_of_beq h)]
  · rename_i h
    rw [if_neg (beq_eq_false_iff_ne.mp h)]

lemma lookup_of_mem (hnodup : (l.map Prod.fst).Nodup) {b : β} (h : (a, b) ∈ l) :
    l.lookup a = some b := by
  induction l with
  | nil => cases h
  | cons e es ih =>
    obtain ⟨hnew, hrest⟩ := List.nodup_cons.mp hnodup
    rcases List.mem_cons.mp h with rfl | h
    · exact List.lookup_cons_self
    · have hne : a ≠ e.1 := fun heq => hnew (heq ▸ List.mem_map_of_mem h)
      rw [List.lookup_cons, beq_eq_false_iff_ne.mpr hne]
      exact ih hrest h

/-- A key finds nothing exactly where no pair has it. -/
lemma lookup_eq_none : l.lookup a = none ↔ a ∉ l.map Prod.fst := by
  simp only [List.lookup_eq_none_iff, bne_iff_ne, List.mem_map, not_exists, not_and]
  exact forall₂_congr fun p _ => ⟨fun h he => h he.symm, fun h he => h he.symm⟩

lemma mem_of_lookup {b : β} (h : l.lookup a = some b) : (a, b) ∈ l := by
  obtain ⟨front, back, rfl, -⟩ := List.lookup_eq_some_iff.mp h
  exact List.mem_append_right _ List.mem_cons_self

/-- What a key finds among some of the pairs, where all keys differ. -/
lemma lookup_filter (hnodup : (l.map Prod.fst).Nodup) (p : α × β → Bool) (a : α) :
    (l.filter p).lookup a = (l.lookup a).filter fun b => p (a, b) := by
  have hkept : ((l.filter p).map Prod.fst).Nodup :=
    hnodup.sublist (List.filter_sublist.map Prod.fst)
  rcases hfound : l.lookup a with _ | b
  · rw [Option.filter_none, lookup_eq_none]
    intro hmem
    obtain ⟨q, hq, rfl⟩ := List.mem_map.mp hmem
    exact lookup_eq_none.mp hfound (List.mem_map_of_mem (List.mem_of_mem_filter hq))
  · have hmem : (a, b) ∈ l := mem_of_lookup hfound
    rcases hp : p (a, b) with _ | _
    · rw [Option.filter_some, hp, if_neg Bool.false_ne_true, lookup_eq_none]
      intro hkey
      obtain ⟨q, hq, rfl⟩ := List.mem_map.mp hkey
      obtain ⟨hq, hpq⟩ := List.mem_filter.mp hq
      have heq : some q.2 = some b := (lookup_of_mem hnodup hq).symm.trans hfound
      rw [← Option.some.inj heq, hpq] at hp
      cases hp
    · rw [Option.filter_some, hp, if_pos rfl]
      exact lookup_of_mem hkept (List.mem_filter.mpr ⟨hmem, hp⟩)

omit [BEq α] [LawfulBEq α] in
/-- Where all keys differ, one pair is left out by its key. -/
lemma filter_key_ne [DecidableEq α] {front back : List (α × β)} {p : α × β}
    (hnodup : ((front ++ p :: back).map Prod.fst).Nodup) :
    (front ++ p :: back).filter (fun q => q.1 ≠ p.1) = front ++ back := by
  rw [List.map_append, List.map_cons, List.nodup_middle, List.nodup_cons, ← List.map_append] at hnodup
  have hother : ∀ q ∈ front ++ back, q.1 ≠ p.1 := by
    intro q hq he
    exact hnodup.1 (he ▸ List.mem_map_of_mem hq)
  rw [List.filter_append, List.filter_cons_of_neg (by simp), ← List.filter_append]
  exact List.filter_eq_self.mpr fun q hq => decide_eq_true (hother q hq)

end Pairs

end Sitewright
