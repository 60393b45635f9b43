import Sitewright.Proofs.Agreement
import Sitewright.Proofs.Confinement
import Sitewright.Proofs.Index

/-!
Documents that are left out, and documents that are no pages. A build without such a document differs
in nothing but its output file and its own entry in the report. The one exception is a document whose
path strays among the static files, where its page is copied along with them.
-/
namespace Sitewright

namespace Index

variable {basePath : Text} {boosted : Bool} {documents before own after : List Document}

lemma placed_of_plain (h : ∀ d ∈ documents, d.page = none) :
    documents.filterMap Document.placed? = [] := by
  rw [List.filterMap_eq_nil_iff]
  intro d hd
  rw [Document.placed?, h d hd]
  rfl

lemma ofDocuments_of_plain (h : ∀ d ∈ documents, d.page = none) :
    ofDocuments basePath boosted documents = .ok empty := by
  have htree : Tree.ofPages [] = .ok [] := Tree.ofPages_eq_ok.mpr ⟨rfl, rfl⟩
  simp [ofDocuments, placed_of_plain h, pathsFrom, htree, Except.mapError, bind, Except.bind, pure,
    Except.pure, NavItem.ofPages, Catalog.labels, Catalog.ofPages, Tree.nodesOf, empty]

/-- An index shows nothing of documents that make no pages. -/
lemma ofDocuments_without (hown : ∀ d ∈ own, d.page = none) :
    ofDocuments basePath boosted (before ++ own ++ after) =
      ofDocuments basePath boosted (before ++ after) := by
  have hplaced : (before ++ own ++ after).filterMap Document.placed? =
      (before ++ after).filterMap Document.placed? := by
    rw [List.filterMap_append, List.filterMap_append, placed_of_plain hown, List.append_nil,
      List.filterMap_append]
  unfold ofDocuments
  rw [hplaced]

end Index

namespace FileTree

variable {d e : FileName}

/-- Neither directory lies in the other one. -/
def Apart (d e : FileName) : Prop := ¬ d <+: e ∧ ¬ e <+: d

instance (d e : FileName) : Decidable (Apart d e) := inferInstanceAs (Decidable (_ ∧ _))

lemma Apart.not_below (h : Apart d e) (name : FileName) : ¬ Below d (e ++ name) := by
  rintro ⟨rest, -, he⟩
  have hprefix : d <+: e ++ name := he ▸ List.prefix_append d rest
  exact (List.prefix_or_prefix_of_prefix hprefix (List.prefix_append e name)).elim h.1 h.2

end FileTree

namespace Site

open FileTree

variable {working : Text} {site : Site} {tree tree' : FileTree} {before own after : List Document}
  {left : List (Text × Text)} {source : FileName × FileContent}

section Directories

/-- The sources are apart from the templates and the static files, and nothing is published among the
static files whose path stays below the output directory. -/
structure DirectoriesApart (working : Text) (site : Site) : Prop where
  templates : ∀ d, site.config.templatesDir = some d →
    Apart (Place.locate working d) (Place.locate working site.config.contentDir)
  static : ∀ d, site.config.staticDir = some d →
    Apart (Place.locate working d) (Place.locate working site.config.contentDir)
  output : ∀ d, site.config.staticDir = some d → ∀ path, Place.Stays path →
    ¬ Below (Place.locate working d) (fileOf working site path)

/-- For a relative output directory this is so where it is apart from the static files itself. -/
lemma directoriesApart_of_relative (hworking : Place.isAbsolute working = true)
    (houtput : Place.isAbsolute site.config.outputDir = false)
    (htemplates : ∀ d, site.config.templatesDir = some d →
      Apart (Place.locate working d) (Place.locate working site.config.contentDir))
    (hstatic : ∀ d, site.config.staticDir = some d →
      Apart (Place.locate working d) (Place.locate working site.config.contentDir) ∧
        Apart (Place.locate working d)
          (Place.stepUp [] (Place.segments site.config.outputDir))) :
    DirectoriesApart working site where
  templates := htemplates
  static d hd := (hstatic d hd).1
  output d hd path hpath := by
    rw [fileOf, outputPlace, hpath.locate_join hworking houtput]
    exact (hstatic d hd).2.not_below _

/-- What is published for a path is a file of the static directory. -/
def AmongStatic (working : Text) (site : Site) (path : Text) : Prop :=
  ∃ d, site.config.staticDir = some d ∧ Below (Place.locate working d) (fileOf working site path)

/-- The static directory of a site, if it has one. -/
def IsStatic (working : Text) (site : Site) (directory : FileName) : Prop :=
  ∃ d, site.config.staticDir = some d ∧ directory = Place.locate working d

lemma not_below_of_not_amongStatic {path : Text} (h : ¬ AmongStatic working site path) :
    ∀ directory, IsStatic working site directory → ¬ Below directory (fileOf working site path) := by
  rintro directory ⟨d, hd, rfl⟩ hbelow
  exact h ⟨d, hd, hbelow⟩

/-- Only a path that strays leads among the static files. -/
lemma strays_of_amongStatic (hapart : DirectoriesApart working site) {path : Text} (hne : path ≠ [])
    (h : AmongStatic working site (Path.output path)) : Path.Strays path := by
  obtain ⟨d, hd, hbelow⟩ := h
  by_contra hstays
  exact hapart.output d hd _ ((Path.stays_output hne).mpr hstays) hbelow

end Directories

section Loading

/-- The templates are read from elsewhere. -/
lemma ofConfig?_without (hapart : DirectoriesApart working site) (name : FileName)
    (components : Components) :
    ofConfig? working (tree.without (Place.locate working site.config.contentDir ++ name)) components
      site.config = ofConfig? working tree components site.config := by
  unfold ofConfig?
  cases htemplates : site.config.templatesDir with
  | none => rfl
  | some d =>
    have houtside := (hapart.templates d htemplates).not_below name
    dsimp only
    rw [Layouts.ofDirectory?, Layouts.ofDirectory?, sortedUnder_without_of_not_below houtside]

/-- Without one of the documents of a directory the others stay, in their order. -/
lemma documentFiles_without {directory : FileName} (hnodup : (tree.files.map Prod.fst).Nodup)
    (hsource : source ∈ documentFiles directory tree) :
    ∃ front back, documentFiles directory tree = front ++ source :: back ∧
      documentFiles directory (tree.without (directory ++ source.1)) = front ++ back := by
  have hothers : documentFiles directory (tree.without (directory ++ source.1)) =
      (documentFiles directory tree).filter fun f => f.1 ≠ source.1 := by
    rw [documentFiles, sortedUnder_without_append, List.filter_comm]
    rfl
  obtain ⟨front, back, hsplit⟩ := List.append_of_mem hsource
  have hnames : ((documentFiles directory tree).map Prod.fst).Nodup :=
    (nodup_sortedUnder directory hnodup).sublist (List.filter_sublist.map Prod.fst)
  rw [hsplit] at hnames hothers
  exact ⟨front, back, hsplit, hothers.trans (filter_key_ne hnames)⟩

/-- Of the other sources becomes the same. -/
lemma loadAll_without {documents : List Document} {skipped : List (Text × Text)}
    (hnodup : (tree.files.map Prod.fst).Nodup)
    (hsource : source ∈ documentFiles (Place.locate working site.config.contentDir) tree)
    (hown : Loaded source own left) (h : site.loadAll working tree = .ok (documents, skipped)) :
    ∃ before after before' after', documents = before ++ own ++ after ∧
      skipped = before' ++ left ++ after' ∧
      site.loadAll working (tree.without (Place.locate working site.config.contentDir ++ source.1)) =
        .ok (before ++ after, before' ++ after') := by
  obtain ⟨front, back, hfiles, hothers⟩ := documentFiles_without hnodup hsource
  rw [loadAll, hfiles] at h
  obtain ⟨own', left', before, after, before', after', hown', hdocuments, hskipped, hload⟩ :=
    loadFiles_without h
  obtain ⟨rfl, rfl⟩ := hown.unique hown'
  rw [loadAll, hothers]
  exact ⟨before, after, before', after', hdocuments, hskipped, hload⟩

end Loading

section Writing

/-- The tree without a source agrees with the tree but for that file and others, in the static files
too. -/
lemma agree_without_source (hapart : DirectoriesApart working site) (tree : FileTree)
    (name : FileName) (others : FileName → Prop) :
    Agree (fun n => n = Place.locate working site.config.contentDir ++ name ∨ others n)
      (IsStatic working site) tree
      (tree.without (Place.locate working site.config.contentDir ++ name)) := by
  refine (agree_without ?_).mono fun n => .inl
  rintro directory ⟨d, hd, rfl⟩
  exact (hapart.static d hd).not_below name

/-- Without documents of which the index shows nothing, everything else is written as it is with
them. -/
lemma writeAll_artifacts_without {apart kept : FileName → Prop} {t t' u : FileTree} {index : Index}
    {written : List Text} (h : Agree apart kept t t')
    (hwrite : writeAll working site (site.artifacts index (before ++ own ++ after)) t =
      (u, .ok written))
    (hown : ∀ d ∈ own, apart (fileOf working site (Path.output d.path)) ∧
      ∀ directory, kept directory → ¬ Below directory (fileOf working site (Path.output d.path))) :
    ∃ u' first last,
      writeAll working site (site.artifacts index (before ++ after)) t' = (u', .ok (first ++ last)) ∧
      written = first ++ own.map (fun d => site.outputPlace (Path.output d.path)) ++ last ∧
      Agree apart kept u u' := by
  simp only [artifacts, List.map_append, List.append_assoc] at hwrite ⊢
  obtain ⟨t₁, first, rest, hfirst, hrest, rfl⟩ := writeAll_append.mp hwrite
  obtain ⟨t₂, places, last, hplaces, hlast, rfl⟩ := writeAll_append.mp hrest
  obtain ⟨t₁', hfirst', hagree₁⟩ := h.writeAll hfirst
  have hagree₂ : Agree apart kept t₂ t₁' := by
    refine hagree₁.writeAll_left hplaces fun a ha => ?_
    obtain ⟨d, hd, hda⟩ := List.mem_map.mp ha
    rw [(documentArtifact_eq_ok hda).1]
    exact hown d hd
  obtain ⟨u', hlast', hagree⟩ := hagree₂.writeAll hlast
  refine ⟨u', first, last, writeAll_append.mpr ⟨t₁', first, last, hfirst', hlast', rfl⟩, ?_, hagree⟩
  obtain ⟨artifacts, hartifacts, rfl, -⟩ := writeAll_eq_ok hplaces
  rw [map_artifacts hartifacts fun d a hda => congrArg site.outputPlace (documentArtifact_eq_ok hda).1]

/-- What is generated among the static files is copied with them. -/
lemma mem_copied {results : List (Except RenderError Artifact)} {written copied : List Text}
    {generated : FileTree} (hwrite : writeAll working site results tree = (generated, .ok written))
    (hcopy : site.copyStatic working generated = (tree', .ok copied)) {a : Artifact}
    (ha : .ok a ∈ results) {d : Text} {rest : FileName} (hd : site.config.staticDir = some d)
    (hne : rest ≠ []) (hrest : fileOf working site a.path = Place.locate working d ++ rest) :
    site.outputPlace (pathOf rest) ∈ copied := by
  obtain ⟨artifacts, rfl, -, hread⟩ := writeAll_eq_ok hwrite
  rw [List.mem_map_of_injective fun _ _ => Except.ok.inj] at ha
  have hlast : (lastFor working site artifacts (fileOf working site a.path)).isSome = true := by
    rw [lastFor, List.find?_isSome]
    exact ⟨a, List.mem_reverse.mpr ha, decide_eq_true rfl⟩
  have hfile : (generated.read? (Place.locate working d ++ rest)).isSome = true := by
    rw [← hrest, hread, Option.isSome_or, Option.isSome_map, hlast, Bool.true_or]
  obtain ⟨⟨n, content⟩, hcontent, hn⟩ := List.mem_map.mp (isSome_read?.mp hfile)
  cases hn
  rw [copied_eq hcopy hd]
  exact List.mem_map.mpr ⟨(rest, content), mem_sortedUnder.mpr (mem_under.mpr ⟨hne, hcontent⟩), rfl⟩

end Writing

section Sample

/-- A site with static files. -/
def mirrored : Site := { sample with config := { sample.config with staticDir := some "static".toList } }

/-- Three documents, one of them with a name that leads to the static files. -/
def mirroredTree : FileTree := ⟨[
  (["content".toList, "..\\static.md".toList], .text "stray".toList),
  (["content".toList, "index.md".toList], .text "home".toList),
  (["content".toList, "plain.md".toList], .text "plain".toList),
  (["static".toList, "a.txt".toList], .text "kept".toList)]⟩

def mirroredDocuments : List Document := [
  ⟨"..\\static.md".toList, [], "stray".toList, none⟩,
  ⟨"index.md".toList, [], "home".toList, none⟩,
  ⟨"plain.md".toList, [], "plain".toList, none⟩]

lemma loadAll_mirroredTree :
    mirrored.loadAll "/site".toList mirroredTree = .ok (mirroredDocuments, []) := by
  rw [loadAll, documentFiles, sortedUnder_of_pairwise (by decide)]
  rfl

/-- What is generated from them, and how that ends. -/
def mirroredRun : FileTree × Except BuildError (List Text) :=
  writeAll "/site".toList mirrored (mirrored.artifacts Index.empty mirroredDocuments) mirroredTree

lemma copyStatic_mirroredRun : ∃ tree' copied,
    mirrored.copyStatic "/site".toList mirroredRun.1 = (tree', .ok copied) := by
  have hall : (copyFiles ["dist".toList] mirroredRun.1
      (mirroredRun.1.under ["static".toList])).2 = true := by decide +kernel
  have hstatic : mirrored.copyStatic "/site".toList mirroredRun.1 =
      copyDirectory "/site".toList "static".toList "dist".toList mirroredRun.1 := rfl
  have hsorted : mirroredRun.1.sortedUnder (Place.locate "/site".toList "static".toList) =
      mirroredRun.1.under ["static".toList] := sortedUnder_of_pairwise (by decide +kernel)
  have htarget : Place.locate "/site".toList "dist".toList = ["dist".toList] := by decide
  rw [hstatic]
  simp only [copyDirectory, hsorted, htarget, hall]
  exact ⟨_, _, rfl⟩

lemma build_mirroredTree :
    ∃ tree' report, mirrored.build "/site".toList mirroredTree = (tree', .ok report) := by
  obtain ⟨tree', copied, hcopy⟩ := copyStatic_mirroredRun
  have hindex : mirrored.indexOf mirroredDocuments = .ok Index.empty :=
    Index.ofDocuments_of_plain (by decide)
  have hok : mirroredRun.2.toOption.isSome = true := by decide +kernel
  obtain ⟨written, hwritten⟩ : ∃ written, mirroredRun.2 = .ok written := by
    cases hrun : mirroredRun.2 with
    | error e => rw [hrun] at hok; cases hok
    | ok written => exact ⟨written, rfl⟩
  have hwrite : writeAll "/site".toList mirrored
      (mirrored.artifacts Index.empty mirroredDocuments) mirroredTree =
        (mirroredRun.1, .ok written) := hwritten ▸ rfl
  exact ⟨_, _, by simp only [build, loadAll_mirroredTree, hindex, hwrite, hcopy]; rfl⟩

lemma directoriesApart_mirrored : DirectoriesApart "/site".toList mirrored :=
  directoriesApart_of_relative (by decide) (by decide) (fun _ h => nomatch h) fun d h => by
    cases h
    decide

end Sample

end Site
end Sitewright
