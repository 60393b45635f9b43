import Sitewright.Proofs.Build
import Sitewright.Proofs.Slug

/-!
The listings that a build leaves. They are written behind the documents and in front of the static
files, each to a file that the slug of its name decides.
-/
namespace Sitewright.Site

variable {working : Text} {site : Site} {tree tree' : FileTree}

section Files

/-- Places below the output directory are one file exactly where they have the same segments. -/
lemma fileOf_eq_fileOf {p q : Text} (hworking : Place.isAbsolute working = true)
    (hp : Place.Descends p) (hq : Place.Descends q) :
    fileOf working site p = fileOf working site q ↔ Place.segments p = Place.segments q :=
  Place.locate_join_eq_iff hworking hp hq

variable {directory : Text}

lemma segments_listingPath (hdirectory : Place.IsName directory) (name : Text) :
    Place.segments (listingPath directory name) =
      directory :: Place.segments (slug name) ++ ["index.html".toList] := by
  have hsegments : Place.segments directory = [directory] :=
    Place.segments_join fun s hs => List.mem_singleton.mp hs ▸ hdirectory.counts
  have hpath : listingPath directory name =
      directory ++ '/' :: (slug name ++ '/' :: "index.html".toList) := by
    simp [listingPath]
  rw [hpath, Place.segments_append, Place.segments_append, hsegments]
  rfl

lemma descends_listingPath (hdirectory : Place.IsName directory) (name : Text) :
    Place.Descends (listingPath directory name) := by
  obtain ⟨c, cs, hc⟩ := List.exists_cons_of_ne_nil hdirectory.counts.1
  constructor
  case ne_nil => simp [listingPath, hc]
  case relative =>
    have hslash : c ≠ '/' := by
      rintro rfl
      exact hdirectory.counts.2.2 (hc ▸ List.mem_cons_self)
    simp [listingPath, hc, Place.isAbsolute, hslash]
  case no_up =>
    rw [segments_listingPath hdirectory]
    intro hup
    rcases List.mem_append.mp hup with hup | hup
    · rcases List.mem_cons.mp hup with hup | hup
      · exact hdirectory.ne_up hup.symm
      · exact (isName_of_mem_segments_slug hup).ne_up rfl
    · exact absurd (List.mem_singleton.mp hup) (by decide)

/-- Listings share a file exactly where they are in one directory and their names have one slug. -/
lemma fileOf_listingPath {c d : Text} (hworking : Place.isAbsolute working = true)
    (hc : Place.IsName c) (hd : Place.IsName d) (a b : Text) :
    fileOf working site (listingPath c a) = fileOf working site (listingPath d b) ↔
      c = d ∧ slug a = slug b := by
  rw [fileOf_eq_fileOf hworking (descends_listingPath hc a) (descends_listingPath hd b),
    segments_listingPath hc, segments_listingPath hd, List.cons_append, List.cons_append,
    List.cons.injEq, List.append_cancel_right_eq, segments_slug_inj]

lemma isName_of_mem_directories {c : Text}
    (h : c ∈ [Sitemap.labelDirectory, Sitemap.categoryDirectory]) : Place.IsName c := by
  revert c
  decide

lemma exists_listingPath {index : Index} {l : Listing} (h : l ∈ listings index) :
    ∃ c ∈ [Sitemap.labelDirectory, Sitemap.categoryDirectory], ∃ name,
      l.path = listingPath c name := by
  rcases List.mem_append.mp h with h | h
  · obtain ⟨⟨name, es⟩, -, rfl⟩ := List.mem_map.mp h
    exact ⟨_, List.mem_cons_self, name, rfl⟩
  · obtain ⟨⟨name, es⟩, -, rfl⟩ := List.mem_map.mp h
    exact ⟨_, List.mem_cons_of_mem _ List.mem_cons_self, name, rfl⟩

end Files

section Static

/-- The files that static files are copied to. -/
def staticFiles (working : Text) (site : Site) (t : FileTree) : List FileName :=
  match site.config.staticDir with
  | none => []
  | some source => (t.sortedUnder (Place.locate working source)).map fun f =>
      Place.locate working site.config.outputDir ++ f.1

lemma read?_copyStatic {n : FileName} {t : FileTree} (h : n ∉ staticFiles working site t) :
    (site.copyStatic working t).1.read? n = t.read? n := by
  unfold staticFiles at h
  unfold copyStatic
  cases hstatic : site.config.staticDir with
  | none => rfl
  | some source =>
    rw [hstatic] at h
    refine read?_copyFiles (fun f hf he => h ?_) t
    exact List.mem_map.mpr ⟨f, hf, he⟩

end Static

lemma listingArtifact_eq_ok {index : Index} {l : Listing} {a : Artifact}
    (h : site.listingArtifact index l = .ok a) :
    a.path = l.path ∧
      site.renderListing index l.heading l.description l.entries = .ok a.content := by
  obtain ⟨html, hrender, rfl⟩ := except_map_ok h
  exact ⟨rfl, hrender⟩

/-- What is written for search engines is named by a single segment. -/
lemma exists_searchName {index : Index} {a : Artifact} (ha : a ∈ site.searchArtifacts index) :
    ∃ s, Place.IsName s ∧ a.path = Text.join ['/'] [s] := by
  unfold searchArtifacts at ha
  split at ha
  · cases ha
  · split at ha
    · cases ha
    · rcases List.mem_cons.mp ha with rfl | ha
      · exact ⟨"robots.txt".toList, by decide, rfl⟩
      · rw [List.mem_singleton.mp ha]
        exact ⟨"sitemap.xml".toList, by decide, rfl⟩

/-- What is written for search engines goes to no file of a listing. -/
lemma fileOf_searchArtifact_ne {index : Index} {a : Artifact} {l : Listing}
    (hworking : Place.isAbsolute working = true) (ha : a ∈ site.searchArtifacts index)
    (hl : l ∈ listings index) : fileOf working site a.path ≠ fileOf working site l.path := by
  obtain ⟨c, hc, name, hpath⟩ := exists_listingPath hl
  have hc := isName_of_mem_directories hc
  obtain ⟨s, hs, hs'⟩ := exists_searchName ha
  have hall : ∀ t ∈ [s], Place.IsName t := fun t ht => List.mem_singleton.mp ht ▸ hs
  rw [hpath, hs', Ne, fileOf_eq_fileOf hworking (Place.descends_join (List.cons_ne_nil _ _) hall)
    (descends_listingPath hc name), Place.segments_join fun t ht => (hall t ht).counts,
    segments_listingPath hc]
  simp

/-- Listings are kept in the files that the slugs of their names decide. A listing stays in its file
if no later one is written there; documents, which are written before, are not in its way, but lose
their pages if they are published in the file of a listing. -/
theorem build_lists {report : BuildReport} (hworking : Place.isAbsolute working = true)
    (hnamed : tree.WellNamed (Place.locate working site.config.contentDir))
    (h : site.build working tree = (tree', .ok report)) :
    ∃ documents index generated written copied,
      site.loadAll working tree = .ok (documents, report.skipped) ∧
      site.indexOf documents = .ok index ∧
      writeAll working site (site.artifacts index documents) tree = (generated, .ok written) ∧
      site.copyStatic working generated = (tree', .ok copied) ∧
      (∀ c ∈ [Sitemap.labelDirectory, Sitemap.categoryDirectory],
        ∀ d ∈ [Sitemap.labelDirectory, Sitemap.categoryDirectory], ∀ a b,
          fileOf working site (listingPath c a) = fileOf working site (listingPath d b) ↔
            c = d ∧ slug a = slug b) ∧
      (∀ d ∈ documents, '\\' ∉ d.path → ∀ l ∈ listings index,
        fileOf working site (Path.output d.path) = fileOf working site l.path ↔
          Place.segments (Path.output d.path) = Place.segments l.path) ∧
      ∀ before l after, listings index = before ++ l :: after →
        (∀ m ∈ after, fileOf working site m.path ≠ fileOf working site l.path) →
        ∃ html, site.renderListing index l.heading l.description l.entries = .ok html ∧
          generated.read? (fileOf working site l.path) = some (.text html) ∧
          (fileOf working site l.path ∉ staticFiles working site generated →
            tree'.read? (fileOf working site l.path) = some (.text html)) := by
  obtain ⟨documents, index, generated, written, copied, hload, hindex, hwrite, hcopy, -⟩ :=
    build_eq_ok h
  refine ⟨documents, index, generated, written, copied, hload, hindex, hwrite, hcopy, ?_, ?_, ?_⟩
  · intro c hc d hd a b
    exact fileOf_listingPath hworking (isName_of_mem_directories hc)
      (isName_of_mem_directories hd) a b
  · intro d hd hslash l hl
    obtain ⟨n, hne, hn, hpath⟩ := exists_name hload hnamed d hd
    obtain ⟨c, hc, name, hl⟩ := exists_listingPath hl
    rw [hpath] at hslash ⊢
    rw [hl]
    exact fileOf_eq_fileOf hworking (Path.descends_output hn hne hslash)
      (descends_listingPath (isName_of_mem_directories hc) name)
  · intro before l after hsplit hlast
    have hl : l ∈ listings index := hsplit ▸ List.mem_append_right _ List.mem_cons_self
    obtain ⟨artifacts, hartifacts, -, hread⟩ := writeAll_eq_ok hwrite
    have hplace : site.artifacts index documents =
        (documents.map (site.documentArtifact index) ++
          [site.stylesheet, .ok ⟨catalogPath, Catalog.json index.catalog⟩] ++
          before.map (site.listingArtifact index)) ++
        site.listingArtifact index l ::
          (after.map (site.listingArtifact index) ++ (site.searchArtifacts index).map .ok) := by
      rw [Site.artifacts, hsplit]
      simp
    obtain ⟨front, a, back, rfl, ha, hback⟩ := exists_artifact (hplace.symm.trans hartifacts)
    obtain ⟨hpath, hhtml⟩ := listingArtifact_eq_ok ha
    have hkept : generated.read? (fileOf working site l.path) = some (.text a.content) := by
      rw [hread, ← hpath, lastFor_split]
      · rfl
      · intro b hb
        have hmem : Except.ok b ∈ after.map (site.listingArtifact index) ++
            (site.searchArtifacts index).map .ok := hback ▸ List.mem_map_of_mem hb
        rw [hpath]
        rcases List.mem_append.mp hmem with hmem | hmem
        · obtain ⟨m, hm, hmb⟩ := List.mem_map.mp hmem
          rw [(listingArtifact_eq_ok hmb).1]
          exact hlast m hm
        · obtain ⟨b', hb', hbb⟩ := List.mem_map.mp hmem
          exact Except.ok.inj hbb ▸ fileOf_searchArtifact_ne hworking hb' hl
    refine ⟨a.content, hhtml, hkept, fun hstatic => ?_⟩
    rw [← hkept, ← read?_copyStatic hstatic, hcopy]

section Sample

/-- The source of a page with two labels of one slug. -/
def labelled (id : String) : Text :=
  "---\nShort-URI: ".toList ++ id.toList ++ "\nLabels: [C++, C#]\n---\n".toList

def labelledTree : FileTree := ⟨[
  (["content".toList, "a.md".toList], .text (labelled "a")),
  (["content".toList, "b.md".toList], .text (labelled "b"))]⟩

lemma build_labelledTree : ∃ tree' report, sample.build "/site".toList labelledTree = (tree', .ok report) := by
  have hok : (sample.build "/site".toList labelledTree).2.toOption.isSome = true := by
    rw [build, loadAll, documentFiles, FileTree.sortedUnder_of_pairwise (by decide)]
    decide +kernel
  cases hbuild : sample.build "/site".toList labelledTree with
  | mk tree' result =>
    rw [hbuild] at hok
    cases result with
    | error e => cases hok
    | ok report => exact ⟨tree', report, rfl⟩

/-- The listings of an index of the sample, by what tells them apart. -/
lemma listings_labelledTree {documents : List Document} {skipped : List (Text × Text)}
    {index : Index} (hload : sample.loadAll "/site".toList labelledTree = .ok (documents, skipped))
    (hindex : sample.indexOf documents = .ok index) :
    (listings index).map (fun l => (l.path, l.heading)) =
      [("label/c/index.html".toList, "Label: C++".toList),
        ("label/c/index.html".toList, "Label: C#".toList)] := by
  have hlistings : ((sample.loadAll "/site".toList labelledTree).toOption.bind fun loaded =>
      (sample.indexOf loaded.1).toOption.map fun index =>
        (listings index).map fun l => (l.path, l.heading)) =
      some [("label/c/index.html".toList, "Label: C++".toList),
        ("label/c/index.html".toList, "Label: C#".toList)] := by
    rw [loadAll, documentFiles, FileTree.sortedUnder_of_pairwise (by decide)]
    decide +kernel
  rw [hload] at hlistings
  simpa [Except.toOption, hindex] using hlistings

theorem build_lists_sample :
    ∃ tree' report documents index first second,
      sample.build "/site".toList labelledTree = (tree', .ok report) ∧
      sample.loadAll "/site".toList labelledTree = .ok (documents, report.skipped) ∧
      sample.indexOf documents = .ok index ∧
      listings index = [first, second] ∧
      first.heading = "Label: C++".toList ∧ second.heading = "Label: C#".toList ∧
      fileOf "/site".toList sample first.path = fileOf "/site".toList sample second.path ∧
      ∃ html, sample.renderListing index second.heading second.description second.entries = .ok html ∧
        tree'.read? ["dist".toList, "label".toList, "c".toList, "index.html".toList] =
          some (.text html) := by
  obtain ⟨tree', report, hbuild⟩ := build_labelledTree
  obtain ⟨documents, index, generated, written, copied, hload, hindex, -, -, -, -, hlast⟩ :=
    build_lists (by decide) ⟨by decide, by decide⟩ hbuild
  obtain ⟨first, rest, hlistings, hfirst, hrest⟩ :=
    List.map_eq_cons_iff.mp (listings_labelledTree hload hindex)
  obtain ⟨second, none, rfl, hsecond, hnone⟩ := List.map_eq_cons_iff.mp hrest
  obtain rfl := List.map_eq_nil_iff.mp hnone
  obtain ⟨html, hhtml, -, hkept⟩ := hlast [first] second [] hlistings (by simp)
  have hfile : fileOf "/site".toList sample second.path =
      ["dist".toList, "label".toList, "c".toList, "index.html".toList] := by
    rw [(Prod.mk.inj hsecond).1]
    decide
  refine ⟨tree', report, documents, index, first, second, hbuild, hload, hindex, hlistings,
    (Prod.mk.inj hfirst).2, (Prod.mk.inj hsecond).2, ?_, html, hhtml, ?_⟩
  · rw [(Prod.mk.inj hfirst).1, (Prod.mk.inj hsecond).1]
  · rw [← hfile]
    exact hkept List.not_mem_nil

end Sample

end Sitewright.Site
