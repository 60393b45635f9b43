import Mathlib.Data.List.Induction
import Sitewright.Proofs.Build

/-!
Trees of files that agree but for some files. What is written to both of them keeps them so, and what
succeeds in the one with more files succeeds in the other one.
-/
namespace Sitewright

namespace FileTree

variable {apart apart' kept : FileName → Prop} {directory name n : FileName} {content : FileContent}
  {t t' u : FileTree}

section Without

/-- The tree without a file. -/
def without (name : FileName) (t : FileTree) : FileTree := ⟨t.files.filter fun f => f.1 ≠ name⟩

lemma read?_without (h : n ≠ name) : (t.without name).read? n = t.read? n := by
  unfold read? without
  induction t.files with
  | nil => rfl
  | cons f fs ih =>
    obtain ⟨m, c⟩ := f
    by_cases hm : m = name
    · have hne : n ≠ m := hm ▸ h
      rw [List.filter_cons_of_neg (by simpa using hm), lookup_cons_ite, if_neg hne, ih]
    · rw [List.filter_cons_of_pos (by simpa using hm), lookup_cons_ite, lookup_cons_ite, ih]

lemma isSome_read?_of_without (h : ((t.without name).read? n).isSome = true) :
    (t.read? n).isSome = true := by
  rw [isSome_read?] at h ⊢
  exact (List.filter_sublist.map Prod.fst).subset h

/-- A directory that the file does not lie below holds the same without it. -/
lemma under_without_of_not_below (h : ¬ Below directory name) :
    (t.without name).under directory = t.under directory := by
  rw [under_eq, under_eq, without, List.filterMap_filter]
  apply List.filterMap_congr
  rintro ⟨m, c⟩ -
  by_cases hm : m = name
  · rw [seenFrom?_of_not_below (hm ▸ h) c]
    exact ite_self none
  · exact if_pos (by simpa using hm)

/-- A directory that the file lies below holds the others. -/
lemma under_without_append {rest : FileName} : (t.without (directory ++ rest)).under directory =
    (t.under directory).filter fun f => f.1 ≠ rest := by
  rw [under_eq, under_eq, without, List.filterMap_filter, List.filter_filterMap]
  apply List.filterMap_congr
  rintro ⟨m, c⟩ -
  by_cases hbelow : Below directory m
  · obtain ⟨rest', hne', rfl⟩ := hbelow
    rw [seenFrom?_append hne' c]
    by_cases h : rest' = rest <;> simp [h, Option.filter_some]
  · rw [seenFrom?_of_not_below hbelow c]
    exact ite_self none

lemma sortedUnder_without_of_not_below (h : ¬ Below directory name) :
    (t.without name).sortedUnder directory = t.sortedUnder directory := by
  rw [sortedUnder, sortedUnder, under_without_of_not_below h]

lemma sortedUnder_without_append {rest : FileName} :
    (t.without (directory ++ rest)).sortedUnder directory =
      (t.sortedUnder directory).filter fun f => f.1 ≠ rest := by
  have hsorted := sortedUnder_sortedBy directory (t.without (directory ++ rest))
  rw [under_without_append] at hsorted
  exact hsorted.unique ((sortedUnder_sortedBy directory t).filter _)

end Without

section Agree

/-- The second tree agrees with the first one: it has no file that the first one has not, the files
hold the same but for those set apart, and some directories hold the same. -/
structure Agree (apart kept : FileName → Prop) (t t' : FileTree) : Prop where
  read : ∀ n, ¬ apart n → t.read? n = t'.read? n
  isSome : ∀ n, (t'.read? n).isSome = true → (t.read? n).isSome = true
  under : ∀ directory, kept directory → t.under directory = t'.under directory

lemma agree_without (h : ∀ directory, kept directory → ¬ Below directory name) :
    Agree (· = name) kept t (t.without name) where
  read _ hn := (read?_without hn).symm
  isSome _ hn := isSome_read?_of_without hn
  under directory hdirectory := (under_without_of_not_below (h directory hdirectory)).symm

lemma Agree.mono (h : Agree apart kept t t') (hapart : ∀ n, apart n → apart' n) :
    Agree apart' kept t t' where
  read n hn := h.read n fun happ => hn (hapart n happ)
  isSome := h.isSome
  under := h.under

lemma Agree.sortedUnder (h : Agree apart kept t t') (hkept : kept directory) :
    t.sortedUnder directory = t'.sortedUnder directory := by
  rw [FileTree.sortedUnder, FileTree.sortedUnder, h.under directory hkept]

/-- What is written to both keeps the agreement. -/
lemma Agree.write (h : Agree apart kept t t') (hwrite : t.write name content = .ok u) :
    ∃ u', t'.write name content = .ok u' ∧ Agree apart kept u u' := by
  obtain ⟨habove, hdirectory, rfl⟩ := write_eq_ok_iff.mp hwrite
  refine ⟨t'.set name content, write_eq_ok_iff.mpr ⟨?_, ?_, rfl⟩, ?_, ?_, ?_⟩
  · intro n hn
    rw [← Bool.not_eq_true]
    exact fun hfile => Bool.false_ne_true ((habove n hn).symm.trans (h.isSome n hfile))
  · rw [← Bool.not_eq_true, isDirectory_iff] at hdirectory ⊢
    rintro (hnil | ⟨n, hbelow, hfile⟩)
    · exact hdirectory (.inl hnil)
    · exact hdirectory (.inr ⟨n, hbelow, h.isSome n hfile⟩)
  · intro n hn
    rw [read?_set, read?_set, h.read n hn]
  · intro n
    rw [read?_set, read?_set]
    split
    · exact id
    · exact h.isSome n
  · intro directory hkept
    by_cases hbelow : Below directory name
    · obtain ⟨rest, hne, rfl⟩ := hbelow
      rw [under_set_append hne, under_set_append hne, h.under directory hkept]
    · rw [under_set_of_not_below hbelow, under_set_of_not_below hbelow, h.under directory hkept]

/-- So does what is written to the first one only, to a file set apart outside of those directories. -/
lemma Agree.write_left (h : Agree apart kept t t') (hwrite : t.write name content = .ok u)
    (hname : apart name) (houtside : ∀ directory, kept directory → ¬ Below directory name) :
    Agree apart kept u t' := by
  obtain ⟨-, -, rfl⟩ := write_eq_ok_iff.mp hwrite
  constructor
  case read =>
    intro n hn
    have hother : n ≠ name := fun he => hn (he ▸ hname)
    rw [read?_set, if_neg hother, h.read n hn]
  case isSome =>
    intro n hn
    rw [read?_set]
    split
    · rfl
    · exact h.isSome n hn
  case under =>
    intro directory hkept
    rw [under_set_of_not_below (houtside directory hkept), h.under directory hkept]

end Agree

section Runs

open Site

variable {working : Text} {site : Site} {results : List (Except RenderError Artifact)}
  {written : List Text}

/-- A run of writes to both keeps the agreement. -/
lemma Agree.writeAll (h : Agree apart kept t t')
    (hwrite : Site.writeAll working site results t = (u, .ok written)) :
    ∃ u', Site.writeAll working site results t' = (u', .ok written) ∧ Agree apart kept u u' := by
  induction results generalizing t t' written with
  | nil =>
    cases hwrite
    exact ⟨t', rfl, h⟩
  | cons result results ih =>
    cases result with
    | error e => cases hwrite
    | ok a =>
      obtain ⟨next, rest, hfirst, hrest, rfl⟩ := writeAll_cons hwrite
      obtain ⟨next', hfirst', hnext⟩ := h.write hfirst
      obtain ⟨u', hrest', hagree⟩ := ih hnext hrest
      exact ⟨u', writeAll_of_cons hfirst' hrest', hagree⟩

lemma Agree.writeAll_left (h : Agree apart kept t t')
    (hwrite : Site.writeAll working site results t = (u, .ok written))
    (hown : ∀ a, Except.ok a ∈ results → apart (fileOf working site a.path) ∧
      ∀ directory, kept directory → ¬ Below directory (fileOf working site a.path)) :
    Agree apart kept u t' := by
  induction results generalizing t written with
  | nil =>
    cases hwrite
    exact h
  | cons result results ih =>
    cases result with
    | error e => cases hwrite
    | ok a =>
      obtain ⟨next, rest, hfirst, hrest, rfl⟩ := writeAll_cons hwrite
      obtain ⟨hapart, houtside⟩ := hown a List.mem_cons_self
      exact ih (h.write_left hfirst hapart houtside) hrest fun b hb => hown b (List.mem_cons_of_mem _ hb)

lemma copyFiles_concat (directory : FileName) (t : FileTree) (files : List (FileName × FileContent))
    (f : FileName × FileContent) : Site.copyFiles directory t (files ++ [f]) =
      match (Site.copyFiles directory t files).1.write (directory ++ f.1) f.2 with
      | .ok next => (next, (Site.copyFiles directory t files).2)
      | .error _ => ((Site.copyFiles directory t files).1, false) := by
  rw [Site.copyFiles, List.foldl_append]
  rfl

/-- So do copies of the same files. -/
lemma Agree.copyFiles {files : List (FileName × FileContent)} (h : Agree apart kept t t')
    (hall : (Site.copyFiles directory t files).2 = true) :
    (Site.copyFiles directory t' files).2 = true ∧
      Agree apart kept (Site.copyFiles directory t files).1 (Site.copyFiles directory t' files).1 := by
  induction files using List.reverseRecOn with
  | nil => exact ⟨rfl, h⟩
  | append_singleton files f ih =>
    rw [copyFiles_concat] at hall ⊢
    rw [copyFiles_concat]
    split at hall
    · rename_i next hwrite
      obtain ⟨hall', hagree⟩ := ih hall
      obtain ⟨next', hwrite', hnext⟩ := hagree.write hwrite
      simp only [hwrite']
      exact ⟨hall', hnext⟩
    · cases hall

/-- The static files of a site are copied alike to both if their directory is among those that hold
the same. -/
lemma Agree.copyStatic {copied : List Text} (h : Agree apart kept t t')
    (hkept : ∀ source, site.config.staticDir = some source → kept (Place.locate working source))
    (hcopy : site.copyStatic working t = (u, .ok copied)) :
    ∃ u', site.copyStatic working t' = (u', .ok copied) ∧ Agree apart kept u u' := by
  unfold Site.copyStatic at hcopy ⊢
  split at hcopy
  · cases hcopy
    exact ⟨t', rfl, h⟩
  · rename_i source hsource
    have hfiles := h.sortedUnder (hkept source hsource)
    unfold copyDirectory at hcopy ⊢
    dsimp only at hcopy ⊢
    split at hcopy
    · rename_i hall
      cases hcopy
      obtain ⟨hall', hagree⟩ := h.copyFiles hall
      rw [← hfiles, hall']
      exact ⟨_, rfl, hagree⟩
    · cases hcopy

end Runs

end FileTree
end Sitewright
