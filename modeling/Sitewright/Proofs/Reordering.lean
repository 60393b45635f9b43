import Sitewright.Proofs.Index
import Sitewright.Proofs.Trail

/-!
The order in which pages are listed. Whether pages make a tree, and which page stands above which,
does not depend on it; where no two siblings have the same order and title, nothing does.
-/
namespace Sitewright

namespace Lineage

variable {pages pages' : List Page} (h : pages.Perm pages')
include h

lemma IdsValid.perm (hids : IdsValid pages) : IdsValid pages' :=
  ⟨fun p hp => hids.1 p (h.mem_iff.mpr hp), (h.map Page.id).nodup_iff.mp hids.2⟩

lemma Closed.perm (hclosed : Closed pages) : Closed pages' := by
  intro p hp
  rw [← (h.map Page.id).mem_iff]
  exact hclosed p (h.mem_iff.mpr hp)

/-- Where identifiers are distinct, each finds the same page. -/
lemma find?_id_perm (hnodup : (pages.map Page.id).Nodup) (id : Text) :
    (pages.find? fun p => p.id = id) = pages'.find? fun p => p.id = id := by
  have hids := h.map Page.id
  by_cases hid : id ∈ pages.map Page.id
  · obtain ⟨p, hp, rfl⟩ := List.mem_map.mp hid
    rw [find?_of_mem hnodup hp, find?_of_mem (hids.nodup_iff.mp hnodup) (h.mem_iff.mp hp)]
  · have hnone : ∀ {pages : List Page}, id ∉ pages.map Page.id →
        (pages.find? fun p => p.id = id) = none := by simp
    rw [hnone hid, hnone fun hm => hid (hids.mem_iff.mpr hm)]

lemma parent?_perm (hnodup : (pages.map Page.id).Nodup) (id : Text) :
    parent? pages id = parent? pages' id := by
  rw [parent?, parent?, find?_id_perm h hnodup]

lemma above_perm (hnodup : (pages.map Page.id).Nodup) (n : ℕ) :
    above pages n = above pages' n := by
  induction n with
  | zero => rfl
  | succ n ih =>
    funext id
    simp only [above, ih, parent?_perm h hnodup]

lemma ReachesRoot.perm (hnodup : (pages.map Page.id).Nodup) {id : Text}
    (hreach : ReachesRoot pages id) : ReachesRoot pages' id := by
  obtain ⟨n, hn⟩ := hreach
  exact ⟨n, above_perm h hnodup n ▸ hn⟩

end Lineage

namespace Tree
open Lineage

/-- No two pages below one parent have the same place in the order of siblings. -/
def SiblingsDiffer (pages : List Page) : Prop :=
  pages.Pairwise fun p q => p.parent = q.parent → sortKey p ≠ sortKey q

instance (pages : List Page) : Decidable (SiblingsDiffer pages) :=
  inferInstanceAs (Decidable (List.Pairwise _ _))

lemma SiblingsDiffer.of_parent {pages : List Page} (hdiffer : SiblingsDiffer pages) (parent : Text) :
    (pages.filter fun p => p.parent = parent).Pairwise fun p q => sortKey p ≠ sortKey q := by
  refine (List.Pairwise.filter _ hdiffer).imp_of_mem fun {p q} hp hq hkeys => hkeys ?_
  simp only [List.mem_filter, decide_eq_true_eq] at hp hq
  exact hp.2.trans hq.2.symm

section Siblings

variable {pages pages' : List Page} (h : pages.Perm pages') (hdiffer : SiblingsDiffer pages)
include h hdiffer

lemma siblings_perm (parent : Text) : siblings pages parent = siblings pages' parent :=
  (siblings_sortedBy pages parent).congr_perm (siblings_sortedBy pages' parent) (h.filter _)
    (hdiffer.of_parent parent)

lemma branches_perm (depth : ℕ) (id : Text) : branches pages depth id = branches pages' depth id := by
  induction depth generalizing id with
  | zero => rfl
  | succ depth ih => simp only [branches, ih, siblings_perm h hdiffer]

end Siblings

/-- Links to the pages at the top are the same, in whatever order the pages are listed. -/
lemma navItems_perm {placed placed' : List Placed} (h : placed.Perm placed')
    (hdiffer : SiblingsDiffer (placed.map Placed.page)) (basePath : Text) (boosted : Bool) :
    NavItem.ofPages basePath boosted placed = NavItem.ofPages basePath boosted placed' := by
  have hsorted : ∀ placed : List Placed, SortedBy (fun p : Placed => sortKey p.page)
      (placed.filter fun p => p.page.parent = rootId) (Index.placedSiblings placed rootId) :=
    fun placed => sortedBy_mergeSort (fun p : Placed => sortKey p.page)
      (fun _ _ => siblingKey_le_iff.symm) _
  have hkeys := hdiffer.of_parent rootId
  rw [List.filter_map, List.pairwise_map] at hkeys
  rw [Index.navItems_eq, Index.navItems_eq,
    (hsorted placed).congr_perm (hsorted placed') (h.filter _) hkeys]

/-- Listing pages in another order changes neither whether they make a tree, nor which page an
identifier finds, nor the trail to it. Where siblings differ in order or title, the tree is the same
as a whole, and so are the links of the navigation bar. -/
theorem ofPages_perm {pages pages' : List Page} (h : pages.Perm pages') :
    ((∃ ts, ofPages pages = .ok ts) ↔ ∃ ts, ofPages pages' = .ok ts) ∧
    (∀ ts ts', ofPages pages = .ok ts → ofPages pages' = .ok ts' →
      ((nodesOf ts).map page).Perm ((nodesOf ts').map page) ∧
      (∀ id, find? id ts = find? id ts') ∧
      (∀ id, breadcrumbs id ts = breadcrumbs id ts') ∧
      (SiblingsDiffer pages → ts = ts')) ∧
    ∀ placed placed', placed.map Placed.page = pages → placed.Perm placed' → SiblingsDiffer pages →
      ∀ basePath boosted,
        NavItem.ofPages basePath boosted placed = NavItem.ofPages basePath boosted placed' := by
  have haccepted : ∀ {pages pages' : List Page}, pages.Perm pages' →
      (∃ ts, ofPages pages = .ok ts) → ∃ ts, ofPages pages' = .ok ts := by
    intro pages pages' h hok
    obtain ⟨hids, hclosed, hreach⟩ := exists_ofPages_iff.mp hok
    exact exists_ofPages_iff.mpr ⟨hids.perm h, hclosed.perm h,
      fun p hp => (hreach p (h.mem_iff.mpr hp)).perm h hids.2⟩
  refine ⟨⟨haccepted h, haccepted h.symm⟩, fun ts ts' hts hts' => ⟨?_, ?_, ?_, ?_⟩, ?_⟩
  · exact (map_page_nodesOf_perm hts).trans (h.trans (map_page_nodesOf_perm hts').symm)
  · intro id
    have hwalk := (map_page_nodesOf_perm hts).trans (h.trans (map_page_nodesOf_perm hts').symm)
    have hnodup : ((pagesOf ts).map Page.id).Nodup :=
      map_page_nodesOf ts ▸ ((map_page_nodesOf_perm hts).map Page.id).nodup_iff.mpr
        (check_of_ofPages hts).1.2
    rw [map_page_nodesOf, map_page_nodesOf] at hwalk
    exact find?_id_perm hwalk hnodup id
  · intro id
    have htrail : trail? id ts = trail? id ts' := by
      ext way
      rw [trail?_eq_some_iff hts, trail?_eq_some_iff hts']
      simp only [List.subset_def, h.mem_iff]
    rw [breadcrumbs, breadcrumbs, htrail]
  · intro hdiffer
    rw [(ofPages_eq_ok.mp hts).2, (ofPages_eq_ok.mp hts').2, h.length_eq, branches_perm h hdiffer]
  · rintro placed placed' rfl hplaced hdiffer basePath boosted
    exact navItems_perm hplaced hdiffer basePath boosted

/-- Pages listed against their tree; the two in the blog differ in their titles, the two at the top
in their order. -/
def listed : List Placed := [
  ⟨"blog/b.md".toList, { id := "b".toList, title := "Beta".toList, parent := "blog".toList }⟩,
  ⟨"blog/a.md".toList, { id := "a".toList, title := "alpha".toList, parent := "blog".toList }⟩,
  ⟨"blog/index.md".toList, { id := "blog".toList, title := "Blog".toList, order := 2 }⟩,
  ⟨"about.md".toList, { id := "about".toList, title := "Blog".toList, order := 1 }⟩]

theorem ofPages_perm_listed :
    SiblingsDiffer (listed.map Placed.page) ∧
    (∃ ts, ofPages (listed.map Placed.page) = .ok ts ∧
      ofPages (listed.reverse.map Placed.page) = .ok ts) ∧
    NavItem.ofPages [] true listed = NavItem.ofPages [] true listed.reverse := by
  have hdiffer : SiblingsDiffer (listed.map Placed.page) := by decide
  have hperm : listed.Perm listed.reverse := (List.reverse_perm listed).symm
  obtain ⟨haccepted, hsame, hlinks⟩ := ofPages_perm (hperm.map Placed.page)
  obtain ⟨ts', hts'⟩ := haccepted.mp ⟨_, ofPages_eq_ok.mpr ⟨rfl, rfl⟩⟩
  obtain ⟨-, -, -, htree⟩ := hsame _ ts' (ofPages_eq_ok.mpr ⟨rfl, rfl⟩) hts'
  refine ⟨hdiffer, ⟨ts', ?_, hts'⟩, hlinks listed listed.reverse rfl hperm hdiffer [] true⟩
  rw [← htree hdiffer]
  exact ofPages_eq_ok.mpr ⟨rfl, rfl⟩

end Tree
end Sitewright
