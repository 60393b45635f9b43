import Sitewright.Proofs.Association
import Sitewright.Proofs.Catalog
import Sitewright.Proofs.Tree
import Sitewright.Site.Index

/-!
The views of a site. Navigation, listings of children, catalog and labels are each computed from the
list of documents by filters and sorts of their own; all of them show the tree that the pages form.
-/
namespace Sitewright

/-- Siblings stand in order, so sorting them again changes nothing. -/
lemma Tree.pairwise_siblings (pages : List Page) (parent : Text) :
    (siblings pages parent).Pairwise fun p q => inOrder p q = true :=
  (siblings_sortedBy pages parent).ordered.imp fun h => siblingKey_le_iff.mp h

namespace Index

section Paths

variable {before paths : List (Text × Text)} {ps : List Placed}

/-- The paths are those of the pages as they are listed, and no identifier comes twice. -/
lemma pathsFrom_eq_ok (h : pathsFrom before ps = .ok paths) :
    paths = before ++ ps.map (fun p => (p.page.id, p.path)) ∧
      ((before.map Prod.fst).Nodup → (paths.map Prod.fst).Nodup) := by
  induction ps generalizing before with
  | nil =>
    cases h
    simp
  | cons p ps ih =>
    unfold pathsFrom at h
    split at h
    · cases h
    · rename_i hnew
      obtain ⟨rfl, hnodup⟩ := ih h
      refine ⟨by simp, fun hbefore => hnodup ?_⟩
      rw [List.map_append, List.map_singleton, ← List.concat_eq_append]
      exact hbefore.concat (lookup_eq_none.mp hnew)

/-- Every page is found at the path of its document. -/
lemma lookup_path (h : pathsFrom [] ps = .ok paths) {p : Placed} (hp : p ∈ ps) :
    paths.lookup p.page.id = some p.path := by
  obtain ⟨rfl, hnodup⟩ := pathsFrom_eq_ok h
  exact lookup_of_mem (hnodup List.nodup_nil) (List.mem_map_of_mem hp)

lemma pathOf_eq (h : pathsFrom [] ps = .ok paths) {p : Placed} (hp : p ∈ ps) :
    pathOf paths p.page.id = p.path := by
  rw [pathOf, lookup_path h hp]
  rfl

end Paths

section Siblings

variable {placed : List Placed}

/-- The placed pages below a parent, in the order of siblings. -/
def placedSiblings (placed : List Placed) (parent : Text) : List Placed :=
  (placed.filter fun p => p.page.parent = parent).mergeSort fun p q => Tree.inOrder p.page q.page

lemma mem_of_mem_placedSiblings {parent : Text} {p : Placed}
    (h : p ∈ placedSiblings placed parent) : p ∈ placed := by
  rw [placedSiblings, List.mem_mergeSort] at h
  exact (List.mem_filter.mp h).1

lemma siblings_placed (placed : List Placed) (parent : Text) :
    Tree.siblings (placed.map Placed.page) parent =
      (placedSiblings placed parent).map Placed.page := by
  rw [Tree.siblings, List.filter_map, placedSiblings, List.map_mergeSort]
  · rfl
  · intro p _ q _
    rfl

/-- Links are sorted as the pages that they lead to. -/
lemma navItems_eq (basePath : Text) (boosted : Bool) (placed : List Placed) :
    NavItem.ofPages basePath boosted placed =
      (placedSiblings placed rootId).map (NavItem.ofPlaced basePath boosted) := by
  rw [NavItem.ofPages, placedSiblings, List.map_mergeSort]
  · rfl
  · intro p _ q _
    rfl

/-- Of the trees below a parent, what is made of a page and the path found for it is made of the
page and the path of its document. -/
lemma map_pathOf {α : Type} {paths : List (Text × Text)} {ts : List Tree} {parent : Text}
    (hpaths : pathsFrom [] placed = .ok paths)
    (hts : ts.map Tree.page = Tree.siblings (placed.map Placed.page) parent) (f : Text → Page → α) :
    ts.map (fun t => f (pathOf paths t.page.id) t.page) =
      (placedSiblings placed parent).map fun p => f p.path p.page := by
  rw [siblings_placed] at hts
  have hpages := congrArg (List.map fun p => f (pathOf paths p.id) p) hts
  rw [List.map_map, List.map_map] at hpages
  refine hpages.trans (List.map_congr_left fun p hp => ?_)
  rw [Function.comp_apply, pathOf_eq hpaths (mem_of_mem_placedSiblings hp)]

end Siblings

section Views

variable {basePath : Text} {boosted : Bool} {documents : List Document} {index : Index}

/-- What an index is made of. -/
lemma ofDocuments_eq_ok (h : ofDocuments basePath boosted documents = .ok index) :
    let placed := documents.filterMap Document.placed?
    pathsFrom [] placed = .ok index.paths ∧
      Tree.ofPages (placed.map Placed.page) = .ok index.tree ∧
      index.navigation = NavItem.ofPages basePath boosted placed ∧
      index.labels = Catalog.labels (placed.map Placed.page) ∧
      index.children =
        (Tree.nodesOf index.tree).map (fun t => (t.page.id, childrenOf basePath index.paths t)) ∧
      index.catalog = Catalog.ofPages basePath placed := by
  intro placed
  unfold ofDocuments at h
  cases hpaths : pathsFrom [] placed with
  | error e => simp [placed, hpaths, bind, Except.bind] at h
  | ok paths =>
    cases htree : Tree.ofPages (placed.map Placed.page) with
    | error e => simp [placed, hpaths, htree, bind, Except.bind, Except.mapError] at h
    | ok tree =>
      simp only [placed] at hpaths htree
      simp only [hpaths, htree, bind, Except.bind, Except.mapError, pure, Except.pure,
        Except.ok.injEq] at h
      subst h
      exact ⟨rfl, rfl, rfl, rfl, rfl, rfl⟩

/-- The views of documents that an index holds agree with its tree. -/
structure Agrees (basePath : Text) (boosted : Bool) (documents : List Document) (index : Index) :
    Prop where
  /-- The tree holds the pages of the documents. -/
  pages : ((Tree.nodesOf index.tree).map Tree.page).Perm (documents.filterMap Document.page)
  /-- Each is found at the path of its document. -/
  paths : ∀ d ∈ documents, ∀ p, d.page = some p → pathOf index.paths p.id = d.path
  navigation : index.navigation = index.tree.map fun t =>
    { label := t.page.title
      href := Path.url (pathOf index.paths t.page.id) basePath
      boosted := boosted
      order := t.page.order }
  /-- Every node has a list of children, and nothing else has one. -/
  parents : index.children.map Prod.fst = (Tree.nodesOf index.tree).map fun t => t.page.id
  parentsOnce : (index.children.map Prod.fst).Nodup
  children : ∀ t ∈ Tree.nodesOf index.tree, index.children.lookup t.page.id =
    some (t.children.map fun c =>
      Child.ofPage (Path.url (pathOf index.paths c.page.id) basePath) c.page)
  /-- The nodes below a node are those of the pages that name its page. -/
  below : ∀ t ∈ Tree.nodesOf index.tree, (t.children.map Tree.page).Perm
    ((documents.filterMap Document.page).filter fun p => p.parent = t.page.id)
  sorted : ∀ entry ∈ index.children, Child.sort none entry.2 = entry.2
  catalog : index.catalog =
    documents.filterMap fun d => d.page.map fun p => Entry.ofPlaced basePath ⟨d.path, p⟩
  labels : index.labels = (Catalog.byLabel index.catalog).map Prod.fst

/-- The children of a node are sorted already. -/
lemma sort_childrenOf {pages : List Page} {t : Tree} (paths : List (Text × Text))
    (h : t.children.map Tree.page = Tree.siblings pages t.page.id) :
    Child.sort none (childrenOf basePath paths t) = childrenOf basePath paths t := by
  have hsorted := Tree.pairwise_siblings pages t.page.id
  rw [← h, List.pairwise_map] at hsorted
  have hchildren : (childrenOf basePath paths t).Pairwise fun a b => Child.inOrder a b = true := by
    rw [childrenOf, List.pairwise_map]
    exact hsorted
  exact List.mergeSort_of_pairwise hchildren

lemma pages_placed (documents : List Document) :
    (documents.filterMap Document.placed?).map Placed.page = documents.filterMap Document.page := by
  rw [List.map_filterMap]
  congr 1
  funext d
  simp [Document.placed?, Function.comp_def]

lemma placed_mem {d : Document} (hd : d ∈ documents) {p : Page} (hp : d.page = some p) :
    ⟨d.path, p⟩ ∈ documents.filterMap Document.placed? :=
  List.mem_filterMap.mpr ⟨d, hd, by rw [Document.placed?, hp]; rfl⟩

/-- Five views are computed apart and agree with one another, for every list of documents that has
an index. -/
theorem ofDocuments_agrees (h : ofDocuments basePath boosted documents = .ok index) :
    Agrees basePath boosted documents index := by
  obtain ⟨hpaths, htree, hnavigation, hlabels, hchildren, hcatalog⟩ := ofDocuments_eq_ok h
  have hbelow : ∀ t ∈ Tree.nodesOf index.tree, t.children.map Tree.page =
      Tree.siblings ((documents.filterMap Document.placed?).map Placed.page) t.page.id :=
    fun t ht => Tree.map_page_children_ofPages htree ht
  have hwalk := Tree.map_page_nodesOf_perm htree
  have hkeys : index.children.map Prod.fst =
      (Tree.nodesOf index.tree).map fun t => t.page.id := by
    rw [hchildren, List.map_map]
    rfl
  have honce : (index.children.map Prod.fst).Nodup := by
    have hids := (hwalk.map Page.id).nodup_iff.mpr (Tree.check_of_ofPages htree).1.2
    rw [List.map_map] at hids
    rw [hkeys]
    exact hids
  constructor
  case pages => rwa [pages_placed] at hwalk
  case paths =>
    intro d hd p hp
    exact pathOf_eq hpaths (placed_mem hd hp)
  case navigation =>
    rw [hnavigation, navItems_eq]
    exact (map_pathOf hpaths (Tree.map_page_ofPages htree)
      fun path p => NavItem.ofPlaced basePath boosted ⟨path, p⟩).symm
  case parents => exact hkeys
  case parentsOnce => exact honce
  case children =>
    intro t ht
    refine lookup_of_mem honce ?_
    rw [hchildren]
    exact List.mem_map_of_mem ht
  case below =>
    intro t ht
    rw [hbelow t ht, ← pages_placed]
    exact (Tree.siblings_sortedBy _ _).perm
  case sorted =>
    intro entry hentry
    rw [hchildren] at hentry
    obtain ⟨t, ht, rfl⟩ := List.mem_map.mp hentry
    exact sort_childrenOf index.paths (hbelow t ht)
  case catalog =>
    rw [hcatalog, Catalog.ofPages, List.map_filterMap]
    congr 1
    funext d
    cases hd : d.page <;> simp [Document.placed?, hd]
  case labels =>
    rw [hlabels, hcatalog]
    exact Catalog.labels_eq_keys basePath _

/-- Pages listed against their tree, two of them tied, and a plain document between them. -/
def sampleDocuments : List Document := [
  ⟨"a/c.md".toList, [], [], some
    { id := "c".toList, title := "same".toList, parent := "a".toList, labels := ["x".toList] }⟩,
  ⟨"plain.md".toList, [], [], none⟩,
  ⟨"a/b.md".toList, [], [], some
    { id := "b".toList, title := "Same".toList, parent := "a".toList,
      labels := ["y".toList, "x".toList] }⟩,
  ⟨"a/index.md".toList, [], [], some { id := "a".toList, title := "top".toList }⟩]

theorem ofDocuments_agrees_sample :
    ∃ index, ofDocuments "/docs".toList true sampleDocuments = .ok index ∧
      Agrees "/docs".toList true sampleDocuments index :=
  ⟨_, rfl, ofDocuments_agrees rfl⟩

end Views

end Index
end Sitewright
