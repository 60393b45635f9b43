import Mathlib.Data.Char
import Mathlib.Data.List.Lex
import Mathlib.Data.Prod.Lex
import Sitewright.Text.Casing

/-!
Stable sorting by a key: the items stand in the order of their keys, and those of one key as they
are listed. Pages and what is made of them are sorted by their order first, then by title without
regard to case.
-/
namespace Sitewright

variable {α κ : Type} [LinearOrder κ]

/-- One list is another one sorted by a key, with ties as they are listed. -/
structure SortedBy (key : α → κ) (listed sorted : List α) : Prop where
  perm : sorted.Perm listed
  ordered : sorted.Pairwise fun a b => key a ≤ key b
  ties : ∀ k, sorted.filter (fun a => key a = k) = listed.filter (fun a => key a = k)

/-- A merge sort by any test for the order of keys sorts by the key. -/
theorem sortedBy_mergeSort (key : α → κ) {le : α → α → Bool}
    (hle : ∀ a b, le a b = true ↔ key a ≤ key b) (l : List α) :
    SortedBy key l (l.mergeSort le) := by
  have htrans : ∀ a b c, le a b → le b c → le a c := by
    intro a b c hab hbc
    exact (hle a c).mpr (((hle a b).mp hab).trans ((hle b c).mp hbc))
  have htotal : ∀ a b, le a b || le b a := by
    intro a b
    simpa [hle] using le_total (key a) (key b)
  refine ⟨List.mergeSort_perm l le,
    (List.pairwise_mergeSort htrans htotal l).imp fun h => (hle _ _).mp h, fun k => ?_⟩
  -- the items of one key are a sorted sublist, which a stable sort keeps as it is
  have hsorted : (l.filter fun a => key a = k).Pairwise (fun a b => le a b) := by
    refine List.pairwise_of_forall_mem_list fun a ha b hb => (hle a b).mpr ?_
    simp only [List.mem_filter, decide_eq_true_eq] at ha hb
    exact (ha.2.trans hb.2.symm).le
  have hsub := (List.sublist_mergeSort htrans htotal hsorted List.filter_sublist).filter
    (fun a => decide (key a = k))
  simp only [List.filter_filter, Bool.and_self] at hsub
  exact (hsub.eq_of_length ((List.mergeSort_perm l le).filter _).length_eq.symm).symm

/-- Sorting a list by a key has one result. -/
theorem SortedBy.unique {key : α → κ} {l s s' : List α} (h : SortedBy key l s)
    (h' : SortedBy key l s') : s = s' := by
  have hperm : s.Perm s' := h.perm.trans h'.perm.symm
  have hties : ∀ k, s.filter (fun a => key a = k) = s'.filter (fun a => key a = k) :=
    fun k => (h.ties k).trans (h'.ties k).symm
  have hs := h.ordered
  have hs' := h'.ordered
  clear h h'
  induction s generalizing s' with
  | nil => exact hperm.symm.eq_nil.symm
  | cons a s ih =>
    cases s' with
    | nil => exact hperm.eq_nil
    | cons b s' =>
      obtain ⟨ha, hrest⟩ := List.pairwise_cons.mp hs
      obtain ⟨hb, hrest'⟩ := List.pairwise_cons.mp hs'
      have hkey : key a = key b := by
        apply le_antisymm
        · rcases List.mem_cons.mp (hperm.mem_iff.mpr List.mem_cons_self) with rfl | hmem
          · exact le_rfl
          · exact ha b hmem
        · rcases List.mem_cons.mp (hperm.mem_iff.mp List.mem_cons_self) with rfl | hmem
          · exact le_rfl
          · exact hb a hmem
      -- the first item of the least key is the first item of both
      have hfirst := hties (key a)
      rw [List.filter_cons_of_pos (by simp), List.filter_cons_of_pos (by simp [hkey])] at hfirst
      obtain ⟨rfl, -⟩ := List.cons.inj hfirst
      rw [ih hperm.cons_inv (fun k => ?_) hrest hrest']
      have hk := hties k
      by_cases hak : key a = k
      · rw [List.filter_cons_of_pos (by simpa using hak), List.filter_cons_of_pos (by simpa using hak)]
          at hk
        exact (List.cons.inj hk).2
      · rwa [List.filter_cons_of_neg (by simpa using hak),
          List.filter_cons_of_neg (by simpa using hak)] at hk

theorem SortedBy.filter {key : α → κ} {l s : List α} (h : SortedBy key l s) (p : α → Bool) :
    SortedBy key (l.filter p) (s.filter p) where
  perm := h.perm.filter p
  ordered := h.ordered.filter p
  ties k := by
    rw [List.filter_comm, h.ties k, List.filter_comm]

/-- Where no two items have one key, the order in which they are listed does not matter. -/
theorem SortedBy.congr_perm {key : α → κ} {l l' s s' : List α} (h : SortedBy key l s)
    (h' : SortedBy key l' s') (hperm : l.Perm l') (hkeys : l.Pairwise fun a b => key a ≠ key b) :
    s = s' := by
  have hstrict : ∀ {l s : List α}, SortedBy key l s → (l.Pairwise fun a b => key a ≠ key b) →
      s.Pairwise fun a b => key a < key b := by
    intro l s hs hl
    have hdiffer : s.Pairwise fun a b => key a ≠ key b :=
      (hs.perm.pairwise_iff fun h => h.symm).mpr hl
    exact (hs.ordered.and hdiffer).imp fun h => lt_of_le_of_ne h.1 h.2
  have hkeys' : l'.Pairwise fun a b => key a ≠ key b :=
    (hperm.pairwise_iff fun h => h.symm).mp hkeys
  refine List.Perm.eq_of_pairwise ?_ (hstrict h hkeys) (hstrict h' hkeys')
    (h.perm.trans (hperm.trans h'.perm.symm))
  intro a b _ _ hab hba
  exact absurd hba hab.asymm

/-- A sorted list is itself sorted. -/
lemma SortedBy.self {key : α → κ} {l s : List α} (h : SortedBy key l s) : SortedBy key s s where
  perm := .refl s
  ordered := h.ordered
  ties _ := rfl

/-- What sorts by a key leaves what it has sorted as it is. -/
lemma SortedBy.again {key : α → κ} {f : List α → List α} (h : ∀ l, SortedBy key l (f l)) (l : List α) :
    f (f l) = f l := (h (f l)).unique (h l).self

/-- The test of a merge sort has to go by the key of the listed items only. -/
lemma sortedBy_mergeSort_of_mem {key : α → κ} {le : α → α → Bool} {l : List α}
    (hle : ∀ a ∈ l, ∀ b ∈ l, le a b = true ↔ key a ≤ key b) : SortedBy key l (l.mergeSort le) := by
  have hsame : l.mergeSort le = l.mergeSort fun a b => decide (key a ≤ key b) := by
    have hmap := List.map_mergeSort (f := id) (s := fun a b => decide (key a ≤ key b))
      fun a ha b hb => Bool.eq_iff_iff.mpr ((hle a ha b hb).trans decide_eq_true_iff.symm)
    rwa [List.map_id, List.map_id] at hmap
  rw [hsame]
  exact sortedBy_mergeSort key (fun a b => decide_eq_true_iff) l

section Twice

variable {ι : Type} [LinearOrder ι]

/-- A list in the order of one key, of which the items of each value are in the order of another, is in
the order of both. -/
lemma pairwise_toLex {key : α → κ} {second : α → ι} {s : List α} (h : s.Pairwise fun a b => key a ≤ key b)
    (hties : ∀ k, (s.filter fun a => key a = k).Pairwise fun a b => second a ≤ second b) :
    s.Pairwise fun a b => toLex (key a, second a) ≤ toLex (key b, second b) := by
  induction s with
  | nil => exact .nil
  | cons a s ih =>
    obtain ⟨ha, hs⟩ := List.pairwise_cons.mp h
    refine List.pairwise_cons.mpr ⟨fun b hb => ?_, ih hs fun k => ?_⟩
    · rw [Prod.Lex.toLex_le_toLex]
      refine (ha b hb).lt_or_eq.imp_right fun heq => ⟨heq, ?_⟩
      have hfirst := hties (key a)
      rw [List.filter_cons_of_pos (by simp)] at hfirst
      exact (List.pairwise_cons.mp hfirst).1 b (List.mem_filter.mpr ⟨hb, decide_eq_true heq.symm⟩)
    · exact (hties k).sublist ((List.sublist_cons_self a s).filter _)

/-- Sorting by one key and then by another one sorts by the latter first, and by the former where that
one ties. -/
theorem SortedBy.next {key : α → κ} {second : α → ι} {l m s : List α} (h : SortedBy second l m)
    (h' : SortedBy key m s) : SortedBy (fun a => toLex (key a, second a)) l s where
  perm := h'.perm.trans h.perm
  ordered := pairwise_toLex h'.ordered fun k => by
    rw [h'.ties k]
    exact h.ordered.filter _
  ties k := by
    have hboth : ∀ t : List α, t.filter (fun a => toLex (key a, second a) = k) =
        (t.filter fun a => key a = (ofLex k).1).filter fun a => second a = (ofLex k).2 := by
      intro t
      rw [List.filter_filter]
      refine List.filter_congr fun a _ => ?_
      rw [← Bool.decide_and, decide_eq_decide]
      constructor
      · rintro rfl
        exact ⟨rfl, rfl⟩
      · rintro ⟨hsecond, hkey⟩
        rw [hsecond, hkey]
        rfl
    rw [hboth, hboth, h'.ties, List.filter_comm, h.ties, List.filter_comm]

end Twice

/-- Two parts of a list, each sorted, in a row are the list sorted if the keys of the one are below
those of the other. -/
theorem SortedBy.append {key : α → κ} {p : α → Bool} {l s t : List α} (hs : SortedBy key (l.filter p) s)
    (ht : SortedBy key (l.filter fun a => !p a) t)
    (hbelow : ∀ a b, p a = true → p b = false → key a < key b) : SortedBy key l (s ++ t) where
  perm := (hs.perm.append ht.perm).trans (List.filter_append_perm p l)
  ordered := by
    refine List.pairwise_append.mpr ⟨hs.ordered, ht.ordered, fun a ha b hb => (hbelow a b ?_ ?_).le⟩
    · exact (List.mem_filter.mp (hs.perm.mem_iff.mp ha)).2
    · simpa using (List.mem_filter.mp (ht.perm.mem_iff.mp hb)).2
  ties k := by
    rw [List.filter_append, hs.ties, ht.ties, List.filter_comm, List.filter_comm (fun a => key a = k)]
    -- the items of one key are all in one part
    by_cases hk : ∃ a ∈ l.filter (fun a => key a = k), p a = true
    · obtain ⟨a, ha, hpa⟩ := hk
      have hall : ∀ b ∈ l.filter (fun a => key a = k), p b = true := by
        intro b hb
        by_contra hpb
        have hlt := hbelow a b hpa (by simpa using hpb)
        rw [of_decide_eq_true (List.mem_filter.mp ha).2, of_decide_eq_true (List.mem_filter.mp hb).2] at hlt
        exact lt_irrefl k hlt
      have hnone : (l.filter fun a => key a = k).filter (fun a => !p a) = [] :=
        List.filter_eq_nil_iff.mpr fun b hb => by simp [hall b hb]
      rw [List.filter_eq_self.mpr hall, hnone, List.append_nil]
    · push Not at hk
      have hnone : (l.filter fun a => key a = k).filter p = [] := List.filter_eq_nil_iff.mpr hk
      have hall : ∀ b ∈ l.filter (fun a => key a = k), (!p b) = true := fun b hb => by
        simpa using hk b hb
      rw [hnone, List.filter_eq_self.mpr hall, List.nil_append]

/-- The order of texts is the lexicographic one by code points. -/
lemma Text.lt_iff {a b : Text} : Text.lt a b = true ↔ a < b := by
  induction a generalizing b with
  | nil => cases b <;> simp [Text.lt]
  | cons x xs ih =>
    cases b with
    | nil => simp [Text.lt]
    | cons y ys =>
      have hxy : x.toNat < y.toNat ↔ x < y := by
        rw [Char.lt_def, UInt32.lt_iff_toNat_lt]; rfl
      simp [Text.lt, ih, hxy, List.cons_lt_cons_iff]

/-- The key of siblings: the order, then the title without regard to case. -/
def siblingKey (order : ℤ) (title : Text) : ℤ ×ₗ Text := toLex (order, Text.caseFold title)

lemma siblingKey_le_iff {m n : ℤ} {s t : Text} :
    siblingKey m s ≤ siblingKey n t ↔
      (m < n || (m = n && !Text.lt (Text.caseFold t) (Text.caseFold s))) = true := by
  have hnot : Text.lt (Text.caseFold t) (Text.caseFold s) = false ↔
      Text.caseFold s ≤ Text.caseFold t := by
    rw [← not_lt, ← Text.lt_iff, Bool.not_eq_true]
  simp [siblingKey, Prod.Lex.toLex_le_toLex, hnot]

end Sitewright
