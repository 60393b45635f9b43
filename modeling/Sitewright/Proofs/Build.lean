import Sitewright.Proofs.FileTree
import Sitewright.Proofs.Loading
import Sitewright.Proofs.Path

/-!
What a build leaves in the output directory. Everything generated is written in a fixed order, so a
file holds at the end what came last for it: documents first, then listings, then static files.
-/
namespace Sitewright

/-- A directory of sources as a file system has it: names are proper, and no file is there twice. -/
structure FileTree.WellNamed (directory : FileName) (t : FileTree) : Prop where
  names : ∀ f ∈ t.under directory, ∀ s ∈ f.1, Place.IsName s
  once : (t.files.map Prod.fst).Nodup

namespace Site

variable {working : Text} {site : Site} {tree tree' : FileTree}

/-- The file that is written for a path below the output directory. -/
def fileOf (working : Text) (site : Site) (path : Text) : FileName :=
  Place.locate working (site.outputPlace path)

section Writing

/-- What comes last for a file. -/
def lastFor (working : Text) (site : Site) (artifacts : List Artifact) (n : FileName) :
    Option Artifact :=
  artifacts.reverse.find? fun a => fileOf working site a.path = n

lemma lastFor_cons (a : Artifact) (artifacts : List Artifact) (n : FileName) :
    lastFor working site (a :: artifacts) n = (lastFor working site artifacts n).or
      (if n = fileOf working site a.path then some a else none) := by
  rw [lastFor, List.reverse_cons, List.find?_append, lastFor]
  congr 1
  by_cases h : n = fileOf working site a.path
  · simp [h]
  · simp [h, Ne.symm h]

lemma lastFor_split {before after : List Artifact} {a : Artifact}
    (h : ∀ b ∈ after, fileOf working site b.path ≠ fileOf working site a.path) :
    lastFor working site (before ++ a :: after) (fileOf working site a.path) = some a := by
  rw [lastFor, List.reverse_append, List.reverse_cons, List.append_assoc, List.find?_append,
    List.find?_eq_none.mpr]
  · simp
  · simpa using h

lemma writeAll_cons {a : Artifact} {results : List (Except RenderError Artifact)}
    {written : List Text} (h : writeAll working site (.ok a :: results) tree = (tree', .ok written)) :
    ∃ next rest, tree.write (fileOf working site a.path) (.text a.content) = .ok next ∧
      writeAll working site results next = (tree', .ok rest) ∧
      written = site.outputPlace a.path :: rest := by
  rw [writeAll] at h
  dsimp only at h
  split at h
  · cases h
  · rename_i next hwrite
    cases hrest : writeAll working site results next with
    | mk final result =>
      rw [hrest] at h
      cases result with
      | error e => cases h
      | ok rest =>
        cases h
        exact ⟨next, rest, hwrite, hrest, rfl⟩

lemma writeAll_of_cons {a : Artifact} {results : List (Except RenderError Artifact)}
    {written : List Text} {next : FileTree}
    (hwrite : tree.write (fileOf working site a.path) (.text a.content) = .ok next)
    (h : writeAll working site results next = (tree', .ok written)) :
    writeAll working site (.ok a :: results) tree =
      (tree', .ok (site.outputPlace a.path :: written)) := by
  rw [fileOf] at hwrite
  rw [writeAll]
  simp only [hwrite, h]
  rfl

/-- Behind a run of writes every file holds what came last for it, and the others what they held. -/
lemma writeAll_eq_ok {results : List (Except RenderError Artifact)} {written : List Text}
    (h : writeAll working site results tree = (tree', .ok written)) :
    ∃ artifacts, results = artifacts.map .ok ∧
      written = artifacts.map (fun a => site.outputPlace a.path) ∧
      ∀ n, tree'.read? n = ((lastFor working site artifacts n).map fun a => .text a.content).or
        (tree.read? n) := by
  induction results generalizing tree written with
  | nil =>
    cases h
    exact ⟨[], rfl, rfl, fun n => rfl⟩
  | cons result results ih =>
    cases result with
    | error e => cases h
    | ok a =>
      obtain ⟨next, rest, hwrite, hrest, rfl⟩ := writeAll_cons h
      obtain ⟨artifacts, hresults, hwritten, hread⟩ := ih hrest
      refine ⟨a :: artifacts, by rw [hresults]; rfl, by rw [hwritten]; rfl, fun n => ?_⟩
      rw [hread, FileTree.read?_write hwrite, lastFor_cons]
      cases lastFor working site artifacts n with
      | some b => rfl
      | none => split <;> rfl

lemma writeAll_append {front back : List (Except RenderError Artifact)} {written : List Text} :
    writeAll working site (front ++ back) tree = (tree', .ok written) ↔
      ∃ between first second, writeAll working site front tree = (between, .ok first) ∧
        writeAll working site back between = (tree', .ok second) ∧ written = first ++ second := by
  induction front generalizing tree written with
  | nil =>
    constructor
    · exact fun h => ⟨tree, [], written, rfl, h, rfl⟩
    · rintro ⟨between, first, second, hfront, hback, rfl⟩
      cases hfront
      exact hback
  | cons result front ih =>
    cases result with
    | error e =>
      constructor
      · intro h
        cases h
      · rintro ⟨between, first, second, hfront, -⟩
        cases hfront
    | ok a =>
      constructor
      · intro h
        obtain ⟨next, rest, hwrite, hrest, rfl⟩ := writeAll_cons h
        obtain ⟨between, first, second, hfront, hback, rfl⟩ := ih.mp hrest
        exact ⟨between, _, second, writeAll_of_cons hwrite hfront, hback, rfl⟩
      · rintro ⟨between, first, second, hfront, hback, rfl⟩
        obtain ⟨next, rest, hwrite, hrest, rfl⟩ := writeAll_cons hfront
        exact writeAll_of_cons hwrite (ih.mpr ⟨between, rest, second, hrest, hback, rfl⟩)

/-- Where everything is made, what is made of one of several is at its place. -/
lemma exists_artifact {before after : List (Except RenderError Artifact)}
    {result : Except RenderError Artifact} {artifacts : List Artifact}
    (h : before ++ result :: after = artifacts.map .ok) :
    ∃ front a back, artifacts = front ++ a :: back ∧ result = .ok a ∧ after = back.map .ok := by
  obtain ⟨front, rest, rfl, -, hrest⟩ := List.map_eq_append_iff.mp h.symm
  obtain ⟨a, back, rfl, ha, hback⟩ := List.map_eq_cons_iff.mp hrest
  exact ⟨front, a, back, rfl, ha.symm, hback.symm⟩

lemma exists_item {α : Type} {f : α → Except RenderError Artifact} {items : List α}
    {artifacts : List Artifact} (h : items.map f = artifacts.map .ok) {a : Artifact}
    (ha : a ∈ artifacts) : ∃ item ∈ items, f item = .ok a :=
  List.mem_map.mp (h ▸ List.mem_map_of_mem ha)

lemma map_artifacts {α β : Type} {f : α → Except RenderError Artifact} {items : List α}
    {artifacts : List Artifact} (h : items.map f = artifacts.map .ok) {g : Artifact → β} {g' : α → β}
    (hg : ∀ item a, f item = .ok a → g a = g' item) : artifacts.map g = items.map g' := by
  induction items generalizing artifacts with
  | nil => rw [List.map_eq_nil_iff.mp h.symm]; rfl
  | cons item items ih =>
    obtain ⟨a, rest, rfl, ha, hrest⟩ := List.map_eq_cons_iff.mp h.symm
    rw [List.map_cons, List.map_cons, hg item a ha.symm, ih hrest.symm]

/-- Copying leaves every file as it is that none is copied to. -/
lemma read?_copyFiles {directory n : FileName} {files : List (FileName × FileContent)}
    (h : ∀ f ∈ files, directory ++ f.1 ≠ n) (t : FileTree) :
    (copyFiles directory t files).1.read? n = t.read? n := by
  unfold copyFiles
  refine List.foldlRecOn (motive := fun state : FileTree × Bool => state.1.read? n = t.read? n)
    files _ rfl ?_
  rintro ⟨t', all⟩ ht' ⟨name, content⟩ hf
  dsimp only at ht' ⊢
  split
  · rename_i next hwrite
    rw [FileTree.read?_write hwrite, if_neg (Ne.symm (h _ hf)), ht']
  · exact ht'

end Writing

section Loading

/-- Documents come from files of their own, in the order of the files. -/
lemma loadFiles_sublist {files : List (FileName × FileContent)} {documents : List Document}
    {skipped : List (Text × Text)} (h : loadFiles files = .ok (documents, skipped)) :
    (documents.map Document.path).Sublist (files.map fun f => pathOf f.1) := by
  induction files generalizing documents skipped with
  | nil =>
    cases h
    exact .slnil
  | cons f files ih =>
    obtain ⟨own, left, documents', skipped', hown, hrest, rfl, rfl⟩ := loadFiles_cons h
    cases hown with
    | document hd =>
      rw [List.singleton_append, List.map_cons, List.map_cons, path_of_load hd]
      exact (ih hrest).cons_cons _
    | skipped => exact (ih hrest).cons _

lemma pathOf_injOn {n m : FileName} (hn : ∀ s ∈ n, Place.IsName s) (hm : ∀ s ∈ m, Place.IsName s)
    (h : pathOf n = pathOf m) : n = m := by
  have hsegments := congrArg Place.segments h
  rwa [pathOf, pathOf, Place.segments_join fun s hs => (hn s hs).counts,
    Place.segments_join fun s hs => (hm s hs).counts] at hsegments

variable {documents : List Document} {skipped : List (Text × Text)}

/-- The files that documents come from. -/
lemma exists_source (h : site.loadAll working tree = .ok (documents, skipped)) :
    ∀ d ∈ documents, ∃ f ∈ tree.under (Place.locate working site.config.contentDir),
      d.path = pathOf f.1 := by
  intro d hd
  have hmem := (loadFiles_sublist h).subset (List.mem_map_of_mem hd)
  obtain ⟨f, hf, hpath⟩ := List.mem_map.mp hmem
  exact ⟨f, FileTree.mem_sortedUnder.mp (List.mem_filter.mp hf).1, hpath.symm⟩

lemma exists_name (h : site.loadAll working tree = .ok (documents, skipped))
    (hnamed : tree.WellNamed (Place.locate working site.config.contentDir)) :
    ∀ d ∈ documents, ∃ n : FileName, n ≠ [] ∧ (∀ s ∈ n, Place.IsName s) ∧ d.path = pathOf n := by
  intro d hd
  obtain ⟨f, hf, hpath⟩ := exists_source h d hd
  exact ⟨f.1, (FileTree.mem_under.mp hf).1, hnamed.names f hf, hpath⟩

/-- Documents without backslashes in their paths are one file only with one output file. -/
lemma output_eq_of_fileOf (hworking : Place.isAbsolute working = true)
    (hnamed : tree.WellNamed (Place.locate working site.config.contentDir))
    (h : site.loadAll working tree = .ok (documents, skipped)) {d e : Document}
    (hd : d ∈ documents) (he : e ∈ documents) (hdslash : '\\' ∉ d.path) (heslash : '\\' ∉ e.path)
    (hfile : fileOf working site (Path.output d.path) = fileOf working site (Path.output e.path)) :
    Path.output d.path = Path.output e.path := by
  obtain ⟨n, hnne, hn, hdn⟩ := exists_name h hnamed d hd
  obtain ⟨m, hmne, hm, hem⟩ := exists_name h hnamed e he
  rw [hdn] at hdslash hfile ⊢
  rw [hem] at heslash hfile ⊢
  exact Path.output_eq_of_locate hworking hn hm hnne hmne hdslash heslash hfile

/-- No two documents have the same path. -/
lemma nodup_paths (h : site.loadAll working tree = .ok (documents, skipped))
    (hnamed : tree.WellNamed (Place.locate working site.config.contentDir)) :
    (documents.map Document.path).Nodup := by
  refine List.Nodup.sublist (loadFiles_sublist h) ?_
  have hfiles : ((documentFiles (Place.locate working site.config.contentDir) tree).map Prod.fst).Nodup :=
    (FileTree.nodup_sortedUnder _ hnamed.once).sublist (List.filter_sublist.map Prod.fst)
  have hpaths := List.Nodup.map_on (f := pathOf) ?_ hfiles
  · rwa [List.map_map] at hpaths
  · intro n hn m hm hnm
    obtain ⟨f, hf, rfl⟩ := List.mem_map.mp hn
    obtain ⟨g, hg, rfl⟩ := List.mem_map.mp hm
    exact pathOf_injOn (hnamed.names f (FileTree.mem_sortedUnder.mp (List.mem_filter.mp hf).1))
      (hnamed.names g (FileTree.mem_sortedUnder.mp (List.mem_filter.mp hg).1)) hnm

end Loading

section Pages

/-- A build that succeeds loads and indexes the documents, writes what is generated, and copies the
static files. -/
lemma build_eq_ok {report : BuildReport} (h : site.build working tree = (tree', .ok report)) :
    ∃ documents index generated written copied,
      site.loadAll working tree = .ok (documents, report.skipped) ∧
      site.indexOf documents = .ok index ∧
      writeAll working site (site.artifacts index documents) tree = (generated, .ok written) ∧
      site.copyStatic working generated = (tree', .ok copied) ∧
      report.written = written ++ copied := by
  unfold build at h
  split at h
  · cases h
  · rename_i documents skipped hload
    split at h
    · cases h
    · rename_i index hindex
      split at h
      · cases h
      · rename_i generated written hwrite
        split at h
        · cases h
        · rename_i final copied hcopy
          cases h
          exact ⟨documents, index, generated, written, copied, hload, hindex, hwrite, hcopy, rfl⟩

lemma documentArtifact_eq_ok {index : Index} {d : Document} {a : Artifact}
    (h : site.documentArtifact index d = .ok a) :
    a.path = Path.output d.path ∧ site.render index d = .ok a.content := by
  obtain ⟨html, hrender, rfl⟩ := except_map_ok h
  exact ⟨rfl, hrender⟩

/-- Where everything is written, the page of each document is among what is generated. -/
lemma exists_page {index : Index} {documents : List Document} {written : List Text}
    (h : writeAll working site (site.artifacts index documents) tree = (tree', .ok written))
    {d : Document} (hd : d ∈ documents) :
    ∃ a, Except.ok a ∈ site.artifacts index documents ∧ a.path = Path.output d.path := by
  have hmem : site.documentArtifact index d ∈ site.artifacts index documents := by
    simp only [artifacts, List.mem_append]
    exact .inl (.inl (.inl (List.mem_map_of_mem hd)))
  obtain ⟨generated, hgenerated, -⟩ := writeAll_eq_ok h
  obtain ⟨a, -, ha⟩ := List.mem_map.mp (hgenerated ▸ hmem)
  exact ⟨a, ha ▸ hmem, (documentArtifact_eq_ok ha.symm).1⟩

/-- The pages of documents are published one by one. A document is published in the file of another
one exactly where both are one page by their paths, names with backslashes aside, which may lead to
any place; and a file holds the page of the last document that is published there. -/
theorem build_publishes {report : BuildReport} (hworking : Place.isAbsolute working = true)
    (hnamed : tree.WellNamed (Place.locate working site.config.contentDir))
    (h : site.build working tree = (tree', .ok report)) :
    ∃ documents index published written,
      site.loadAll working tree = .ok (documents, report.skipped) ∧
      site.indexOf documents = .ok index ∧
      writeAll working site (documents.map (site.documentArtifact index)) tree =
        (published, .ok written) ∧
      written = documents.map (fun d => site.outputPlace (Path.output d.path)) ∧
      written <+: report.written ∧
      (documents.map Document.path).Nodup ∧
      (∀ d ∈ documents, ∀ e ∈ documents, Path.SharesPage d.path e.path →
        fileOf working site (Path.output d.path) = fileOf working site (Path.output e.path)) ∧
      (∀ d ∈ documents, ∀ e ∈ documents, '\\' ∉ d.path → '\\' ∉ e.path →
        fileOf working site (Path.output d.path) = fileOf working site (Path.output e.path) →
          Path.SharesPage d.path e.path) ∧
      ∀ before d after, documents = before ++ d :: after →
        (∀ e ∈ after,
          fileOf working site (Path.output e.path) ≠ fileOf working site (Path.output d.path)) →
        ∃ html, site.render index d = .ok html ∧
          published.read? (fileOf working site (Path.output d.path)) = some (.text html) := by
  obtain ⟨documents, index, generated, written, copied, hload, hindex, hwrite, -, hreport⟩ :=
    build_eq_ok h
  rw [artifacts, List.append_assoc, List.append_assoc] at hwrite
  obtain ⟨published, first, second, hpublish, -, rfl⟩ := writeAll_append.mp hwrite
  obtain ⟨pages, hpages, hfirst, hread⟩ := writeAll_eq_ok hpublish
  refine ⟨documents, index, published, first, hload, hindex, hpublish, ?_, ?_,
    nodup_paths hload hnamed, ?_, ?_, ?_⟩
  · rw [hfirst]
    refine map_artifacts hpages fun d a ha => ?_
    rw [(documentArtifact_eq_ok ha).1]
  · rw [hreport, List.append_assoc]
    exact List.prefix_append _ _
  · intro d _ e _ hshare
    rw [Path.output_eq_output.mpr hshare]
  · intro d hd e he hdslash heslash hfile
    exact Path.output_eq_output.mp
      (output_eq_of_fileOf hworking hnamed hload hd he hdslash heslash hfile)
  · intro before d after hsplit hlast
    rw [hsplit, List.map_append, List.map_cons] at hpages
    obtain ⟨front, a, back, rfl, ha, hback⟩ := exists_artifact hpages
    obtain ⟨hpath, hhtml⟩ := documentArtifact_eq_ok ha
    refine ⟨a.content, hhtml, ?_⟩
    rw [hread, ← hpath, lastFor_split]
    · rfl
    · intro b hb
      obtain ⟨e, he, hb⟩ := exists_item hback hb
      rw [(documentArtifact_eq_ok hb).1, hpath]
      exact hlast e he

/-- The page of a directory, and a page named like the directory beside it. -/
def sampleTree : FileTree := ⟨[
  (["content".toList, "about".toList, "index.md".toList], .text "first".toList),
  (["content".toList, "about.md".toList], .text "second".toList)]⟩

def sampleDocuments : List Document := [
  ⟨"about/index.md".toList, [], "first".toList, none⟩,
  ⟨"about.md".toList, [], "second".toList, none⟩]

/-- A site whose layout is the content. -/
def sample : Site where
  config := {}
  components := Component.builtin
  layouts := ⟨[(defaultTemplate, "\x7b\x7bcontent\x7d\x7d".toList)]⟩

lemma loadAll_sampleTree : sample.loadAll "/site".toList sampleTree = .ok (sampleDocuments, []) := by
  rw [loadAll, documentFiles, FileTree.sortedUnder_of_pairwise (by decide)]
  rfl

lemma render_sample (index : Index) :
    sample.render index ⟨"about.md".toList, [], "second".toList, none⟩ =
      .ok "<p>second</p>".toList := by
  have hcompile : Markdown.compile "second".toList = "<p>second</p>".toList := by decide +kernel
  have hcontent : sample.content index ⟨"about.md".toList, [], "second".toList, none⟩ =
      .ok (Markdown.compile "second".toList) := rfl
  rw [render, hcontent, hcompile]
  rfl

theorem build_publishes_sample :
    ∃ tree' report, sample.build "/site".toList sampleTree = (tree', .ok report) ∧
      ∃ index published written,
        sample.indexOf sampleDocuments = .ok index ∧
        writeAll "/site".toList sample (sampleDocuments.map (sample.documentArtifact index))
          sampleTree = (published, .ok written) ∧
        written = ["dist/about/index.html".toList, "dist/about/index.html".toList] ∧
        published.read? ["dist".toList, "about".toList, "index.html".toList] =
          some (.text "<p>second</p>".toList) := by
  have hbuild : ∃ tree' report, sample.build "/site".toList sampleTree = (tree', .ok report) := by
    rw [build, loadAll_sampleTree]
    exact ⟨_, _, rfl⟩
  obtain ⟨tree', report, hbuild⟩ := hbuild
  refine ⟨tree', report, hbuild, ?_⟩
  obtain ⟨documents, index, published, written, hload, hindex, hpublish, hwritten, -, -, -, -, hlast⟩ :=
    build_publishes (by decide) ⟨by decide, by decide⟩ hbuild
  obtain ⟨rfl, -⟩ := Prod.mk.inj (Except.ok.inj (loadAll_sampleTree.symm.trans hload))
  refine ⟨index, published, written, hindex, hpublish, hwritten, ?_⟩
  obtain ⟨html, hhtml, hread⟩ := hlast [_] _ [] rfl (by simp)
  obtain rfl := Except.ok.inj ((render_sample index).symm.trans hhtml)
  exact hread

end Pages

end Site
end Sitewright
