import Sitewright.FileTree
import Sitewright.Proofs.Association
import Sitewright.Proofs.Ordering

/-!
What files hold. A file that is written holds what was written to it, and all others stay; so behind
a run of writes every file holds what came last. A write fails only for names that are files already,
above the file or below it.
-/
namespace Sitewright.FileTree

variable {name : FileName} {content : FileContent} {t t' : FileTree}

lemma lookup_setFile (n : FileName) (files : List (FileName × FileContent)) :
    (setFile name content files).lookup n = if n = name then some content else files.lookup n := by
  induction files with
  | nil => exact lookup_cons_ite n name content []
  | cons f fs ih =>
    obtain ⟨m, c⟩ := f
    rw [setFile, lookup_cons_ite n m c fs]
    by_cases hm : m = name
    · subst hm
      rw [if_pos rfl, lookup_cons_ite]
      split <;> rfl
    · rw [if_neg hm, lookup_cons_ite, ih]
      by_cases h : n = m
      · rw [if_pos h, if_pos h, if_neg (h ▸ hm)]
      · rw [if_neg h, if_neg h]

lemma read?_set (n : FileName) :
    (t.set name content).read? n = if n = name then some content else t.read? n :=
  lookup_setFile n t.files

/-- A file is written where nothing above it is a file and it is no directory. -/
lemma write_eq_ok_iff : t.write name content = .ok t' ↔
    (∀ n ∈ ancestors name, (t.read? n).isSome = false) ∧ t.isDirectory name = false ∧
      t' = t.set name content := by
  unfold write
  cases ancestors name with
  | nil => cases t.isDirectory name <;> simp [eq_comm (a := t')]
  | cons parent above =>
    have habove : (∀ n ∈ above, (t.read? n).isSome = false) ↔
        (above.any fun n => (t.read? n).isSome) = false := by
      rw [List.any_eq_false]
      exact forall₂_congr fun n _ => (Bool.not_eq_true _).symm.to_iff
    dsimp only
    rw [List.forall_mem_cons, habove]
    split_ifs with hparent hfile hdirectory
    · simp [hparent]
    · simp [hfile]
    · simp [hdirectory]
    · simp only [Bool.not_eq_true] at hparent hfile hdirectory
      simp only [hparent, hfile, hdirectory, true_and, Except.ok.injEq]
      exact eq_comm

lemma read?_write (h : t.write name content = .ok t') (n : FileName) :
    t'.read? n = if n = name then some content else t.read? n := by
  rw [(write_eq_ok_iff.mp h).2.2, read?_set]

lemma isSome_read? : (t.read? name).isSome = true ↔ name ∈ t.files.map Prod.fst := by
  rw [Option.isSome_iff_ne_none, read?, Ne, lookup_eq_none, not_not]

section Below

variable {directory n rest : FileName} {c : FileContent}

/-- The name is that of something below a directory. -/
def Below (directory name : FileName) : Prop := ∃ rest, rest ≠ [] ∧ name = directory ++ rest

/-- A file as seen from a directory, if it lies below it. -/
def seenFrom? (directory : FileName) (f : FileName × FileContent) : Option (FileName × FileContent) :=
  match directory.isPrefixOf? f.1 with
  | some [] => none
  | some rest => some (rest, f.2)
  | none => none

lemma under_eq (directory : FileName) (t : FileTree) :
    t.under directory = t.files.filterMap (seenFrom? directory) := rfl

lemma seenFrom?_eq_some : seenFrom? directory (n, c) = some (name, content) ↔
    name ≠ [] ∧ directory ++ name = n ∧ c = content := by
  constructor
  · intro h
    unfold seenFrom? at h
    split at h
    · cases h
    · rename_i rest hne hrest
      cases h
      exact ⟨hne, List.isPrefixOf?_eq_some_iff_append_eq.mp hrest, rfl⟩
    · cases h
  · rintro ⟨hne, hn, rfl⟩
    rw [seenFrom?, List.isPrefixOf?_eq_some_iff_append_eq.mpr hn]
    cases name with
    | nil => exact absurd rfl hne
    | cons s ss => rfl

lemma seenFrom?_append (hne : rest ≠ []) (c : FileContent) :
    seenFrom? directory (directory ++ rest, c) = some (rest, c) := seenFrom?_eq_some.mpr ⟨hne, rfl, rfl⟩

lemma seenFrom?_of_not_below (h : ¬ Below directory name) (c : FileContent) :
    seenFrom? directory (name, c) = none := by
  rw [Option.eq_none_iff_forall_ne_some]
  rintro ⟨rest, c'⟩ hsome
  obtain ⟨hne, hname, -⟩ := seenFrom?_eq_some.mp hsome
  exact h ⟨rest, hne, hname.symm⟩

/-- The files below a directory are those whose names go on from its name. -/
lemma mem_under :
    (name, content) ∈ t.under directory ↔ name ≠ [] ∧ (directory ++ name, content) ∈ t.files := by
  rw [under_eq, List.mem_filterMap]
  constructor
  · rintro ⟨⟨n, c⟩, hmem, hsome⟩
    obtain ⟨hne, rfl, rfl⟩ := seenFrom?_eq_some.mp hsome
    exact ⟨hne, hmem⟩
  · rintro ⟨hne, hmem⟩
    exact ⟨_, hmem, seenFrom?_append hne content⟩

lemma isDirectory_iff :
    t.isDirectory name = true ↔ name = [] ∨ ∃ n, Below name n ∧ (t.read? n).isSome = true := by
  rw [isDirectory, Bool.or_eq_true, List.isEmpty_iff, Bool.not_eq_true',
    List.isEmpty_eq_false_iff_exists_mem]
  apply or_congr_right
  constructor
  · rintro ⟨⟨rest, c⟩, hmem⟩
    obtain ⟨hne, hfile⟩ := mem_under.mp hmem
    exact ⟨name ++ rest, ⟨rest, hne, rfl⟩, isSome_read?.mpr (List.mem_map_of_mem hfile)⟩
  · rintro ⟨n, ⟨rest, hne, rfl⟩, hread⟩
    obtain ⟨⟨n, c⟩, hfile, hn⟩ := List.mem_map.mp (isSome_read?.mp hread)
    cases hn
    exact ⟨(rest, c), mem_under.mpr ⟨hne, hfile⟩⟩

/-- What is set elsewhere does not show in a directory. -/
lemma under_set_of_not_below (h : ¬ Below directory name) :
    (t.set name content).under directory = t.under directory := by
  rw [under_eq, under_eq, set]
  induction t.files with
  | nil => exact List.filterMap_cons_none (seenFrom?_of_not_below h content)
  | cons f fs ih =>
    obtain ⟨m, c⟩ := f
    rw [setFile]
    split
    · rename_i hm
      have hother := seenFrom?_of_not_below (hm ▸ h : ¬ Below directory m)
      rw [List.filterMap_cons_none (hother content), List.filterMap_cons_none (hother c)]
    · rw [List.filterMap_cons, List.filterMap_cons, ih]

/-- What is set below a directory is set among what the directory holds. -/
lemma under_set_append (hne : rest ≠ []) :
    (t.set (directory ++ rest) content).under directory = setFile rest content (t.under directory) := by
  rw [under_eq, under_eq, set]
  induction t.files with
  | nil => exact List.filterMap_cons_some (seenFrom?_append hne content)
  | cons f fs ih =>
    obtain ⟨m, c⟩ := f
    rw [setFile]
    split
    · rename_i hm
      rw [hm, List.filterMap_cons_some (seenFrom?_append hne content),
        List.filterMap_cons_some (seenFrom?_append hne c), setFile, if_pos rfl]
    · rename_i hm
      by_cases hbelow : Below directory m
      · obtain ⟨rest', hne', rfl⟩ := hbelow
        have hrest : rest' ≠ rest := mt (congrArg (directory ++ ·)) hm
        rw [List.filterMap_cons_some (seenFrom?_append hne' c),
          List.filterMap_cons_some (seenFrom?_append hne' c), setFile, if_neg hrest, ih]
      · have hother := seenFrom?_of_not_below hbelow c
        rw [List.filterMap_cons_none hother, List.filterMap_cons_none hother, ih]

end Below

section Sorting

lemma mem_sortedUnder {directory : FileName} {f : FileName × FileContent} :
    f ∈ t.sortedUnder directory ↔ f ∈ t.under directory := List.mem_mergeSort

/-- Files that are in order already stay where they are. -/
lemma sortedUnder_of_pairwise {directory : FileName}
    (h : (t.under directory).Pairwise fun a b => (!nameLt b.1 a.1) = true) :
    t.sortedUnder directory = t.under directory := List.mergeSort_of_pairwise h

/-- The order of file names is the lexicographic one. -/
lemma nameLt_iff {a b : FileName} : nameLt a b = true ↔ a < b := by
  induction a generalizing b with
  | nil => cases b <;> simp [nameLt]
  | cons s ss ih =>
    cases b with
    | nil => simp [nameLt]
    | cons u us => simp [nameLt, ih, Text.lt_iff, List.cons_lt_cons_iff]

lemma sortedUnder_sortedBy (directory : FileName) (t : FileTree) :
    SortedBy Prod.fst (t.under directory) (t.sortedUnder directory) := by
  apply sortedBy_mergeSort
  intro a b
  rw [← not_lt, ← nameLt_iff, Bool.not_eq_true, Bool.not_eq_true']

lemma sublist_map_filterMap {α β γ : Type} {f : α → Option β} {g : β → γ} {h : α → γ}
    (hg : ∀ a b, f a = some b → g b = h a) (l : List α) : ((l.filterMap f).map g).Sublist (l.map h) := by
  induction l with
  | nil => exact .slnil
  | cons a l ih =>
    cases hfa : f a with
    | none =>
      rw [List.filterMap_cons_none hfa]
      exact ih.cons _
    | some b =>
      rw [List.filterMap_cons_some hfa, List.map_cons, List.map_cons, hg a b hfa]
      exact ih.cons_cons _

/-- Files of different names have different names below a directory. -/
lemma nodup_sortedUnder (directory : FileName) (h : (t.files.map Prod.fst).Nodup) :
    ((t.sortedUnder directory).map Prod.fst).Nodup := by
  have hsub : ((t.under directory).map fun f => directory ++ f.1).Sublist
      (t.files.map Prod.fst) := by
    refine sublist_map_filterMap ?_ t.files
    rintro ⟨n, c⟩ ⟨name, content⟩ hf
    exact (seenFrom?_eq_some.mp hf).2.1
  have hnames : (((t.under directory).map Prod.fst).map (directory ++ ·)).Nodup := by
    rw [List.map_map]
    exact h.sublist hsub
  exact ((List.mergeSort_perm _ _).map Prod.fst).nodup_iff.mpr hnames.of_map

end Sorting

end Sitewright.FileTree
