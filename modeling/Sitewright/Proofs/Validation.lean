import Sitewright.Proofs.Build
import Sitewright.Proofs.Index
import Sitewright.Proofs.Trail

/-!
Builds that are refused. All documents are loaded and the pages checked before anything is written, so
a build with a fault of a page leaves every file as it was; and what is looked up behind the check is
always there.
-/
namespace Sitewright

namespace Index

variable {basePath : Text} {boosted : Bool} {documents : List Document} {index : Index}

/-- An index has everything that is looked up in it for documents. -/
structure Complete (documents : List Document) (index : Index) : Prop where
  trail : ∀ d ∈ documents, ∀ p, d.page = some p →
    ∃ way, Tree.breadcrumbs p.id index.tree = .ok way ∧
      ∀ q ∈ way, (index.paths.lookup q.id).isSome = true
  children : ∀ d ∈ documents, ∀ p, d.page = some p → (index.children.lookup p.id).isSome = true
  below : ∀ t ∈ Tree.nodesOf index.tree, ∀ c ∈ t.children,
    (index.paths.lookup c.page.id).isSome = true

/-- The pages of documents have distinct valid identifiers and known parents, and none is above
itself. -/
structure Checked (documents : List Document) : Prop where
  ids : Lineage.IdsValid (documents.filterMap Document.page)
  parents : Lineage.Closed (documents.filterMap Document.page)
  reach : ∀ p ∈ documents.filterMap Document.page,
    Lineage.ReachesRoot (documents.filterMap Document.page) p.id

lemma checked_of_ofDocuments (h : ofDocuments basePath boosted documents = .ok index) :
    Checked documents := by
  obtain ⟨-, htree, -⟩ := ofDocuments_eq_ok h
  rw [pages_placed] at htree
  obtain ⟨hids, hclosed, hreach⟩ := Tree.check_of_ofPages htree
  exact ⟨hids, hclosed, hreach⟩

lemma complete_of_ofDocuments (h : ofDocuments basePath boosted documents = .ok index) :
    Complete documents index := by
  obtain ⟨hpaths, htree, -, -, hchildren, -⟩ := ofDocuments_eq_ok h
  have hfound : ∀ p ∈ (documents.filterMap Document.placed?).map Placed.page,
      (index.paths.lookup p.id).isSome = true := by
    intro p hp
    obtain ⟨q, hq, rfl⟩ := List.mem_map.mp hp
    rw [lookup_path hpaths hq]
    rfl
  have hmem : ∀ d ∈ documents, ∀ p, d.page = some p →
      p ∈ (documents.filterMap Document.placed?).map Placed.page :=
    fun d hd p hp => List.mem_map_of_mem (placed_mem hd hp)
  constructor
  case trail =>
    intro d hd p hp
    obtain ⟨way, hway⟩ := Option.isSome_iff_exists.mp
      ((Tree.isSome_trail?_iff htree).mpr (List.mem_map_of_mem (hmem d hd p hp)))
    refine ⟨way, by rw [Tree.breadcrumbs, hway], fun q hq => hfound q ?_⟩
    exact ((Tree.trail?_eq_some_iff htree).mp hway).1 hq
  case children =>
    intro d hd p hp
    have hkey : p.id ∈ index.children.map Prod.fst := by
      have hwalk := (Tree.map_page_nodesOf_perm htree).mem_iff.mpr (hmem d hd p hp)
      obtain ⟨t, ht, rfl⟩ := List.mem_map.mp hwalk
      rw [hchildren, List.map_map]
      exact List.mem_map_of_mem ht
    rw [Option.isSome_iff_ne_none, Ne, lookup_eq_none]
    exact not_not_intro hkey
  case below =>
    intro t ht c hc
    have hsibling : c.page ∈ t.children.map Tree.page := List.mem_map_of_mem hc
    rw [Tree.map_page_children_ofPages htree ht, Tree.mem_siblings] at hsibling
    exact hfound c.page hsibling.1

end Index

/-- The fault of a page that a build is refused for. -/
def BuildError.pageError? : BuildError → Option PageError
  | load (.page e) => some e
  | index e => some e
  | _ => none

namespace Site

variable {working : Text} {site : Site} {tree : FileTree} {documents : List Document}
  {skipped : List (Text × Text)}

/-- Loading is refused for a page by the document that makes it. -/
lemma loadFiles_error {files : List (FileName × FileContent)} {e : BuildError} {fault : PageError}
    (h : loadFiles files = .error e) (hfault : e.pageError? = some fault) : e = .load (.page fault) := by
  induction files with
  | nil => cases h
  | cons f files ih =>
    obtain ⟨name, content⟩ := f
    have hrest : ∀ {g : List Document × List (Text × Text) → List Document × List (Text × Text)},
        (loadFiles files).map g = .error e → e = .load (.page fault) := by
      intro g hg
      cases hfiles : loadFiles files with
      | error e' =>
        rw [hfiles] at hg
        cases hg
        exact ih hfiles
      | ok loaded => rw [hfiles] at hg; cases hg
    unfold loadFiles at h
    cases content with
    | bytes bs => cases h; cases hfault
    | text t =>
      dsimp only at h
      split at h
      · exact hrest h
      · split at h
        · exact hrest h
        · cases h; cases hfault
      · cases h
        rename_i e _ _
        cases e with
        | header e => cases hfault
        | page e => cases hfault; rfl
        | beyondCalendar => cases hfault
        | tooLong => cases hfault

lemma writeAll_error {results : List (Except RenderError Artifact)} {e : BuildError}
    (h : (writeAll working site results tree).2 = .error e) : e.pageError? = none := by
  induction results generalizing tree with
  | nil => cases h
  | cons result results ih =>
    cases result with
    | error r => cases h; rfl
    | ok a =>
      rw [writeAll] at h
      dsimp only at h
      split at h
      · cases h; rfl
      · rename_i next _
        cases hrest : (writeAll working site results next).2 with
        | error e' =>
          rw [hrest] at h
          cases h
          exact ih hrest
        | ok written => rw [hrest] at h; cases h

lemma copyStatic_error {e : BuildError} (h : (site.copyStatic working tree).2 = .error e) :
    e = .copy := by
  unfold copyStatic at h
  split at h
  · cases h
  · unfold copyDirectory at h
    dsimp only at h
    split at h <;> cases h
    rfl

/-- Once the index is made, nothing fails for a fault of a page. -/
lemma pageError?_of_indexOf {index : Index}
    (hload : site.loadAll working tree = .ok (documents, skipped))
    (hindex : site.indexOf documents = .ok index) {e : BuildError}
    (h : (site.build working tree).2 = .error e) : e.pageError? = none := by
  simp only [build, hload, hindex] at h
  split at h
  · rename_i hwrite
    cases h
    exact writeAll_error (congrArg Prod.snd hwrite)
  · rename_i generated written _
    split at h
    · rename_i hcopy
      cases h
      rw [copyStatic_error (congrArg Prod.snd hcopy)]
      rfl
    · cases h

/-- Every source becomes a document or is left out with a reason. -/
lemma exists_loaded (hload : site.loadAll working tree = .ok (documents, skipped)) :
    ∀ f ∈ documentFiles (Place.locate working site.config.contentDir) tree,
      ∃ own left, Loaded f own left ∧ own ⊆ documents ∧ left ⊆ skipped := by
  intro f hf
  obtain ⟨front, back, hsplit⟩ := List.append_of_mem hf
  rw [loadAll, hsplit] at hload
  obtain ⟨own, left, before, after, before', after', hown, rfl, rfl, -⟩ := loadFiles_without hload
  exact ⟨own, left, hown, by simp, by simp⟩

/-- A build that is refused for a page leaves every file as it was, and only loading or indexing
refuses one: behind them nothing that is looked up is missing. A build that changes any file has
loaded all sources before, but for malformed headers, and all pages have passed every check. -/
theorem build_validates (working : Text) (site : Site) (tree : FileTree) :
    (∀ e fault, (site.build working tree).2 = .error e → e.pageError? = some fault →
      (site.build working tree).1 = tree ∧
      (site.loadAll working tree = .error (.load (.page fault)) ∨
        ∃ documents skipped, site.loadAll working tree = .ok (documents, skipped) ∧
          site.indexOf documents = .error fault)) ∧
    (∀ documents skipped index, site.loadAll working tree = .ok (documents, skipped) →
      site.indexOf documents = .ok index → Index.Complete documents index ∧
        ∀ e, (site.build working tree).2 = .error e → e.pageError? = none) ∧
    ((site.build working tree).1 ≠ tree →
      ∃ documents skipped, site.loadAll working tree = .ok (documents, skipped) ∧
        (∀ f ∈ documentFiles (Place.locate working site.config.contentDir) tree,
          ∃ own left, Loaded f own left ∧ own ⊆ documents ∧ left ⊆ skipped) ∧
        Index.Checked documents) := by
  cases hload : site.loadAll working tree with
  | error e' =>
    have hbuild : site.build working tree = (tree, .error e') := by simp [build, hload]
    rw [hbuild]
    refine ⟨fun e fault he hfault => ⟨rfl, .inl ?_⟩, ?_, fun hne => absurd rfl hne⟩
    · cases he
      rw [loadFiles_error hload hfault]
    · intro documents skipped index hok
      cases hok
  | ok loaded =>
    obtain ⟨documents, skipped⟩ := loaded
    cases hindex : site.indexOf documents with
    | error e' =>
      have hbuild : site.build working tree = (tree, .error (.index e')) := by
        simp [build, hload, hindex]
      rw [hbuild]
      refine ⟨fun e fault he hfault => ⟨rfl, .inr ⟨documents, skipped, rfl, ?_⟩⟩, ?_,
        fun hne => absurd rfl hne⟩
      · cases he
        cases hfault
        exact hindex
      · intro documents' skipped' index hok hindex'
        cases hok
        cases hindex.symm.trans hindex'
    | ok index =>
      have hnone : ∀ e, (site.build working tree).2 = .error e → e.pageError? = none :=
        fun e he => pageError?_of_indexOf hload hindex he
      refine ⟨fun e fault he hfault => ?_, ?_, fun _ => ?_⟩
      · rw [hnone e he] at hfault
        cases hfault
      · intro documents' skipped' index' hok hindex'
        cases hok
        exact ⟨Index.complete_of_ofDocuments hindex', hnone⟩
      · exact ⟨documents, skipped, rfl, exists_loaded hload, Index.checked_of_ofDocuments hindex⟩

section Sample

/-- A page that could be written, one whose parent there is not, and a file of an earlier build. -/
def orphanTree : FileTree := ⟨[
  (["content".toList, "a.md".toList], .text "---\nShort-URI: a\n---\n".toList),
  (["content".toList, "b.md".toList], .text "---\nShort-URI: b\nParent: x\n---\n".toList),
  (["dist".toList, "a".toList, "index.html".toList], .text "old".toList)]⟩

def orphanError : PageError := ⟨"b.md".toList, .orphan "b".toList "x".toList⟩

/-- The fault of a page that a build ends with. -/
def refusal? : Except BuildError BuildReport → Option PageError
  | .error e => e.pageError?
  | .ok _ => none

lemma refusal?_eq_some {result : Except BuildError BuildReport} {fault : PageError}
    (h : refusal? result = some fault) : ∃ e, result = .error e ∧ e.pageError? = some fault := by
  cases result with
  | error e => exact ⟨e, rfl, h⟩
  | ok report => cases h

theorem build_validates_orphanTree :
    ∃ e documents skipped, (sample.build "/site".toList orphanTree).2 = .error e ∧
      e.pageError? = some orphanError ∧
      (sample.build "/site".toList orphanTree).1 = orphanTree ∧
      sample.loadAll "/site".toList orphanTree = .ok (documents, skipped) ∧
      sample.indexOf documents = .error orphanError := by
  have hload : (sample.loadAll "/site".toList orphanTree).toOption.isSome = true := by
    rw [loadAll, documentFiles, FileTree.sortedUnder_of_pairwise (by decide)]
    decide +kernel
  have hrun : refusal? (sample.build "/site".toList orphanTree).2 = some orphanError := by
    rw [build, loadAll, documentFiles, FileTree.sortedUnder_of_pairwise (by decide)]
    decide +kernel
  obtain ⟨e, he, hfault⟩ := refusal?_eq_some hrun
  obtain ⟨htree, hrefused⟩ := (build_validates _ _ _).1 e orphanError he hfault
  rcases hrefused with hrefused | ⟨documents, skipped, hloaded, hindex⟩
  · rw [hrefused] at hload
    cases hload
  · exact ⟨e, documents, skipped, he, hfault, htree, hloaded, hindex⟩

end Sample

end Site

end Sitewright
