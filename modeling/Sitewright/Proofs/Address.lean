import Sitewright.Proofs.Index
import Sitewright.Proofs.Listing

/-!
Addresses and output files. A page is published at the file that its address names, so every link
that a site makes to one of its pages leads to a file that the build has written.
-/
namespace Sitewright

namespace Path

/-- The file that an address names: the page of the directory behind its first slash. -/
def fileAt (address : Text) : Text :=
  if address = ['/'] then "index.html".toList else address.tail ++ "/index.html".toList

/-- A path from some directory on, also when its backslashes are slashes. -/
def IsRelative (path : Text) : Prop := path ≠ [] ∧ Place.isAbsolute (slashed path) = false

lemma url_eq (path basePath : Text) : url path basePath = basePath ++ url path [] := by
  unfold url
  dsimp only
  split
  · rfl
  · rfl

/-- A relative path keeps more than its directories, and starts as it did. -/
lemma stem_of_isRelative {path : Text} (h : IsRelative path) :
    stem path ≠ [] ∧ Place.isAbsolute (stem path) = false := by
  obtain ⟨hne, hrelative⟩ := h
  obtain ⟨directories, name, hfree, hslashed, hstem, -⟩ := exists_pieces path
  rw [hslashed] at hrelative
  rw [hstem]
  cases directories with
  | nil =>
    have hname : name ≠ [] := fun he => hne (List.map_eq_nil_iff.mp (he ▸ hslashed))
    have hslash := slash_not_mem_nameStem (hfree name (List.mem_singleton_self name))
    refine ⟨nameStem_ne_nil hname, ?_⟩
    rw [← Bool.not_eq_true, List.nil_append, isAbsolute_pieces hslash]
    exact fun h => h.2 rfl
  | cons d ds =>
    have hd := hfree d List.mem_cons_self
    rw [← Bool.not_eq_true, List.cons_append, isAbsolute_pieces hd, not_and_or] at hrelative
    have hdne : d ≠ [] := hrelative.resolve_right (not_not_intro (List.concat_ne_nil _ _))
    rw [List.cons_append]
    constructor
    · exact fun he => hdne (List.infix_nil.mp (he ▸ Text.infix_join List.mem_cons_self ['/']))
    · rw [← Bool.not_eq_true, isAbsolute_pieces hd]
      exact fun h => hdne h.1

lemma url_of_eq_indexName {path : Text} (h : stem path = indexName) : url path [] = ['/'] := by
  rw [url, if_pos h]
  rfl

lemma fileAt_cons {page : Text} (h : page ≠ []) :
    fileAt ('/' :: page) = page ++ '/' :: indexName ++ ".html".toList := by
  have hroot : '/' :: page ≠ ['/'] := fun he => h (List.cons.inj he).2
  rw [fileAt, if_neg hroot, List.append_assoc]
  rfl

/-- The address of a document that is no root page, by its stem without the name of an index page. -/
lemma url_of_ne_indexName {path page : Text} (h : stem path ≠ indexName)
    (hpage : stem path = page ++ '/' :: indexName ∨ stem path = page ∧ ¬ IsIndex (stem path))
    (hrelative : Place.isAbsolute page = false) : url path [] = '/' :: page := by
  have hslash : ¬ (['/'].isPrefixOf page) = true := by
    intro hstart
    obtain ⟨rest, rfl⟩ := List.isPrefixOf_iff_prefix.mp hstart
    exact Bool.noConfusion hrelative
  have hcut : (if ('/' :: indexName).isSuffixOf (stem path)
      then (stem path).take ((stem path).length - (indexName.length + 1)) else stem path) = page := by
    rcases hpage with hpage | ⟨hpage, hindex⟩
    · rw [if_pos (List.isSuffixOf_iff_suffix.mpr (hpage ▸ List.suffix_append _ _)), hpage]
      simp
    · rw [if_neg fun hsuffix => hindex (.inr (List.isSuffixOf_iff_suffix.mp hsuffix)), hpage]
  rw [url, if_neg h]
  dsimp only
  rw [hcut, if_neg hslash, List.nil_append]

/-- The address of a document names its output file. -/
lemma output_eq_fileAt {path : Text} (h : IsRelative path) :
    ∃ page, url path [] = '/' :: page ∧ output path = fileAt ('/' :: page) := by
  obtain ⟨hne, hrelative⟩ := stem_of_isRelative h
  by_cases hroot : stem path = indexName
  · refine ⟨[], url_of_eq_indexName hroot, ?_⟩
    rw [output_of_isIndex (.inl hroot), hroot]
    rfl
  by_cases hindex : IsIndex (stem path)
  · obtain ⟨page, hpage⟩ := hindex.resolve_left hroot
    have hpagene : page ≠ [] := by
      rintro rfl
      rw [← hpage] at hrelative
      cases hrelative
    have hpagerelative : Place.isAbsolute page = false := by
      obtain ⟨c, cs, rfl⟩ := List.exists_cons_of_ne_nil hpagene
      rw [← hpage] at hrelative
      exact hrelative
    refine ⟨page, url_of_ne_indexName hroot (.inl hpage.symm) hpagerelative, ?_⟩
    rw [output_of_isIndex hindex, ← hpage, fileAt_cons hpagene]
  · refine ⟨stem path, url_of_ne_indexName hroot (.inr ⟨rfl, hindex⟩) hrelative, ?_⟩
    rw [output_of_not_isIndex hindex, fileAt_cons hne]

lemma fileAt_inj {p q : Text} : fileAt ('/' :: p) = fileAt ('/' :: q) ↔ p = q := by
  have hroot : fileAt ['/'] = indexName ++ ".html".toList := rfl
  -- the root page is shorter than all others
  have hne : ∀ {page : Text}, page ≠ [] → fileAt ('/' :: page) ≠ fileAt ['/'] := by
    intro page hpage he
    rw [fileAt_cons hpage, hroot, List.append_cancel_right_eq] at he
    have hlength := congrArg List.length he
    rw [List.length_append, List.length_cons] at hlength
    omega
  refine ⟨fun h => ?_, fun h => h ▸ rfl⟩
  by_cases hp : p = [] <;> by_cases hq : q = []
  · rw [hp, hq]
  · exact absurd (hp ▸ h).symm (hne hq)
  · exact absurd (hq ▸ h) (hne hp)
  · rwa [fileAt_cons hp, fileAt_cons hq, List.append_cancel_right_eq,
      List.append_cancel_right_eq] at h

/-- Documents have one address exactly where they have one output file. -/
lemma url_eq_url_iff {p q : Text} (hp : IsRelative p) (hq : IsRelative q) (basePath : Text) :
    url p basePath = url q basePath ↔ output p = output q := by
  obtain ⟨page, hpage, hpfile⟩ := output_eq_fileAt hp
  obtain ⟨page', hpage', hqfile⟩ := output_eq_fileAt hq
  rw [url_eq, url_eq q, List.append_cancel_left_eq, hpage, hpage', hpfile, hqfile, fileAt_inj,
    List.cons.injEq, and_iff_right rfl]

end Path

namespace Tree

mutual

/-- The pages on the way down to a page are pages of the tree. -/
lemma mem_of_path? {id : Text} {way : List Page} {p : Page} :
    ∀ t : Tree, path? id t = some way → p ∈ way → p ∈ t.pages
  | node q ts, h, hp => by
    rw [path?] at h
    rw [pages]
    split at h
    · cases h
      exact List.mem_singleton.mp hp ▸ List.mem_cons_self
    · obtain ⟨rest, hrest, rfl⟩ := Option.map_eq_some_iff.mp h
      rcases List.mem_cons.mp hp with rfl | hp
      · exact List.mem_cons_self
      · exact List.mem_cons_of_mem _ (mem_of_trail? ts hrest hp)

lemma mem_of_trail? {id : Text} {way : List Page} {p : Page} :
    ∀ ts : List Tree, trail? id ts = some way → p ∈ way → p ∈ pagesOf ts
  | [], h, _ => by cases h
  | t :: ts, h, hp => by
    rw [trail?] at h
    rw [pagesOf]
    split at h
    · rename_i found hfound
      cases h
      exact List.mem_append_left _ (mem_of_path? t hfound hp)
    · exact List.mem_append_right _ (mem_of_trail? ts h hp)

end

end Tree

namespace Site

variable {working : Text} {site : Site} {tree tree' : FileTree}

/-- The links to its pages that a site makes with an index: those of the navigation bar, also as the
pages show it, the trails above pages, the listings of pages below a page, and the catalog. -/
inductive Links (site : Site) (index : Index) : Text → Prop
  | navigation {item : NavItem} (h : item ∈ index.navigation) : Links site index item.href
  | shown {d : Document} {content : Text} {item : NavItem}
      (h : item ∈ (site.context index d content).navigation) : Links site index item.href
  | trail {d : Document} {content : Text} {crumb : Text × Text}
      (h : crumb ∈ (site.context index d content).trail) : Links site index crumb.2
  | child {id : Text} {children : List Child} {c : Child} (h : (id, children) ∈ index.children)
      (hc : c ∈ children) : Links site index c.url
  | entry {e : Entry} (h : e ∈ index.catalog) : Links site index e.url

section Linked

variable {documents : List Document} {index : Index}

lemma href_of_mem_navigation (h : site.indexOf documents = .ok index) {item : NavItem}
    (hitem : item ∈ index.navigation) :
    ∃ p ∈ documents.filterMap Document.placed?, item.href = Path.url p.path site.config.basePath := by
  obtain ⟨-, -, hnavigation, -, -, -⟩ := Index.ofDocuments_eq_ok h
  rw [hnavigation, Index.navItems_eq] at hitem
  obtain ⟨p, hp, rfl⟩ := List.mem_map.mp hitem
  exact ⟨p, Index.mem_of_mem_placedSiblings hp, rfl⟩

lemma href_of_mem_trail (h : site.indexOf documents = .ok index) {id : Text} {crumb : Text × Text}
    (hcrumb : crumb ∈ index.trail site.config.basePath id) :
    ∃ p ∈ documents.filterMap Document.placed?, crumb.2 = Path.url p.path site.config.basePath := by
  obtain ⟨hpaths, htree, -⟩ := Index.ofDocuments_eq_ok h
  unfold Index.trail at hcrumb
  split at hcrumb
  · obtain ⟨page, hpage, rfl⟩ := List.mem_map.mp hcrumb
    cases hway : Tree.trail? id index.tree with
    | none => rw [hway] at hpage; cases hpage
    | some way =>
      rw [hway] at hpage
      have hmem := Tree.mem_of_trail? index.tree hway hpage
      rw [← Tree.map_page_nodesOf, (Tree.map_page_nodesOf_perm htree).mem_iff] at hmem
      obtain ⟨p, hp, rfl⟩ := List.mem_map.mp hmem
      exact ⟨p, hp, by rw [Index.pathOf_eq hpaths hp]⟩
  · cases hcrumb

lemma href_of_mem_children (h : site.indexOf documents = .ok index) {id : Text}
    {children : List Child} (hchildren : (id, children) ∈ index.children) {c : Child}
    (hc : c ∈ children) :
    ∃ p ∈ documents.filterMap Document.placed?, c.url = Path.url p.path site.config.basePath := by
  obtain ⟨hpaths, htree, -, -, hlists, -⟩ := Index.ofDocuments_eq_ok h
  rw [hlists] at hchildren
  obtain ⟨t, ht, heq⟩ := List.mem_map.mp hchildren
  obtain ⟨-, rfl⟩ := Prod.mk.inj heq
  rw [Index.childrenOf, Index.map_pathOf hpaths (Tree.map_page_children_ofPages htree ht)
    fun path p => Child.ofPage (Path.url path site.config.basePath) p] at hc
  obtain ⟨p, hp, rfl⟩ := List.mem_map.mp hc
  exact ⟨p, Index.mem_of_mem_placedSiblings hp, rfl⟩

/-- Every link leads to the address of a document. -/
lemma Links.exists_document (h : site.indexOf documents = .ok index) {href : Text}
    (hlink : Links site index href) :
    ∃ d ∈ documents, href = Path.url d.path site.config.basePath := by
  have hplaced : ∃ p ∈ documents.filterMap Document.placed?,
      href = Path.url p.path site.config.basePath := by
    cases hlink with
    | navigation hitem => exact href_of_mem_navigation h hitem
    | @shown d content item hitem =>
      have hmarked : item ∈ index.navigation.map (NavItem.marked site.config.basePath d.path) := by
        unfold context at hitem
        dsimp only at hitem
        split at hitem <;> exact hitem
      obtain ⟨unmarked, hunmarked, rfl⟩ := List.mem_map.mp hmarked
      have hhref := href_of_mem_navigation h hunmarked
      exact hhref
    | @trail d content crumb hcrumb =>
      unfold context at hcrumb
      dsimp only at hcrumb
      split at hcrumb
      · cases hcrumb
      · exact href_of_mem_trail h hcrumb
    | child hchildren hc => exact href_of_mem_children h hchildren hc
    | entry he =>
      obtain ⟨-, -, -, -, -, hcatalog⟩ := Index.ofDocuments_eq_ok h
      rw [hcatalog] at he
      obtain ⟨p, hp, rfl⟩ := List.mem_map.mp he
      exact ⟨p, hp, rfl⟩
  obtain ⟨p, hp, rfl⟩ := hplaced
  obtain ⟨d, hd, hdp⟩ := List.mem_filterMap.mp hp
  obtain ⟨page, -, rfl⟩ := Option.map_eq_some_iff.mp hdp
  exact ⟨d, hd, rfl⟩

end Linked

/-- The names of documents hold no backslashes. -/
def NoBackslashes (working : Text) (site : Site) (tree : FileTree) : Prop :=
  ∀ f ∈ tree.under (Place.locate working site.config.contentDir), ∀ s ∈ f.1, '\\' ∉ s

lemma backslash_not_mem_path {documents : List Document} {skipped : List (Text × Text)}
    (hload : site.loadAll working tree = .ok (documents, skipped))
    (hslash : NoBackslashes working site tree) {d : Document} (hd : d ∈ documents) :
    '\\' ∉ d.path := by
  obtain ⟨f, hf, hpath⟩ := exists_source hload d hd
  rw [hpath]
  intro hmem
  rcases Text.mem_join hmem with hmem | ⟨s, hs, hmem⟩
  · exact absurd (List.mem_singleton.mp hmem) (by decide)
  · exact hslash f hf s hs hmem

lemma isRelative_path {documents : List Document} {skipped : List (Text × Text)}
    (hload : site.loadAll working tree = .ok (documents, skipped))
    (hnamed : tree.WellNamed (Place.locate working site.config.contentDir))
    (hslash : NoBackslashes working site tree) {d : Document} (hd : d ∈ documents) :
    Path.IsRelative d.path := by
  have hpathslash := backslash_not_mem_path hload hslash hd
  obtain ⟨n, hne, hn, hpath⟩ := exists_name hload hnamed d hd
  have hdescends := Place.descends_join hne hn
  rw [Path.IsRelative, Path.slashed_of_not_mem hpathslash, hpath]
  exact ⟨hdescends.ne_nil, hdescends.relative⟩

/-- The page of every document is among what a build reports. -/
lemma output_mem_written {report : BuildReport} {documents : List Document} {index : Index}
    (h : site.build working tree = (tree', .ok report))
    (hload : site.loadAll working tree = .ok (documents, report.skipped))
    (hindex : site.indexOf documents = .ok index) {d : Document} (hd : d ∈ documents) :
    site.outputPlace (Path.output d.path) ∈ report.written := by
  obtain ⟨documents', index', generated, written, copied, hload', hindex', hwrite, -, hreport⟩ :=
    build_eq_ok h
  obtain ⟨rfl, -⟩ := Prod.mk.inj (Except.ok.inj (hload.symm.trans hload'))
  obtain rfl := Except.ok.inj (hindex.symm.trans hindex')
  obtain ⟨a, ha, hpath⟩ := exists_page hwrite hd
  obtain ⟨artifacts, hartifacts, rfl, -⟩ := writeAll_eq_ok hwrite
  rw [hartifacts, List.mem_map_of_injective fun _ _ => Except.ok.inj] at ha
  rw [hreport, ← hpath]
  exact List.mem_append_left _ (List.mem_map_of_mem ha)

/-- Every link that a site makes to one of its pages is the base path and an address, and the file
that the address names is among those that the build has written. Two documents have one address
exactly where they are one file; the address and the output file of any relative path name each
other. -/
theorem build_resolves {report : BuildReport} (hworking : Place.isAbsolute working = true)
    (hnamed : tree.WellNamed (Place.locate working site.config.contentDir))
    (hslash : NoBackslashes working site tree)
    (h : site.build working tree = (tree', .ok report)) :
    (∃ documents index, site.loadAll working tree = .ok (documents, report.skipped) ∧
      site.indexOf documents = .ok index ∧
      (∀ href, Links site index href → ∃ page, href = site.config.basePath ++ '/' :: page ∧
        site.outputPlace (Path.fileAt ('/' :: page)) ∈ report.written) ∧
      ∀ d ∈ documents, ∀ e ∈ documents,
        Path.url d.path site.config.basePath = Path.url e.path site.config.basePath ↔
          fileOf working site (Path.output d.path) = fileOf working site (Path.output e.path)) ∧
    (∀ path, Path.IsRelative path → ∃ page,
      (∀ basePath, Path.url path basePath = basePath ++ '/' :: page) ∧
        Path.output path = Path.fileAt ('/' :: page)) ∧
    ∀ p q, Path.IsRelative p → Path.IsRelative q → ∀ basePath,
      Path.url p basePath = Path.url q basePath ↔ Path.output p = Path.output q := by
  have haddress : ∀ path, Path.IsRelative path → ∃ page,
      (∀ basePath, Path.url path basePath = basePath ++ '/' :: page) ∧
        Path.output path = Path.fileAt ('/' :: page) := by
    intro path hpath
    obtain ⟨page, hurl, hfile⟩ := Path.output_eq_fileAt hpath
    exact ⟨page, fun basePath => by rw [Path.url_eq, hurl], hfile⟩
  refine ⟨?_, haddress, fun p q hp hq => Path.url_eq_url_iff hp hq⟩
  obtain ⟨documents, index, -, -, -, hload, hindex, -, -, -⟩ := build_eq_ok h
  refine ⟨documents, index, hload, hindex, ?_, ?_⟩
  · intro href hlink
    obtain ⟨d, hd, rfl⟩ := hlink.exists_document hindex
    obtain ⟨page, hurl, hfile⟩ := haddress d.path (isRelative_path hload hnamed hslash hd)
    refine ⟨page, hurl _, ?_⟩
    rw [← hfile]
    exact output_mem_written h hload hindex hd
  · intro d hd e he
    rw [Path.url_eq_url_iff (isRelative_path hload hnamed hslash hd)
      (isRelative_path hload hnamed hslash he)]
    exact ⟨fun heq => congrArg _ heq, output_eq_of_fileOf hworking hnamed hload hd he
      (backslash_not_mem_path hload hslash hd) (backslash_not_mem_path hload hslash he)⟩

/-- The addresses in the catalog of the pages with two labels. -/
lemma urls_labelledTree {documents : List Document} {skipped : List (Text × Text)}
    {index : Index} (hload : sample.loadAll "/site".toList labelledTree = .ok (documents, skipped))
    (hindex : sample.indexOf documents = .ok index) :
    index.catalog.map Entry.url = ["/a".toList, "/b".toList] := by
  have hurls : ((sample.loadAll "/site".toList labelledTree).toOption.bind fun loaded =>
      (sample.indexOf loaded.1).toOption.map fun index => index.catalog.map Entry.url) =
      some ["/a".toList, "/b".toList] := by
    rw [loadAll, documentFiles, FileTree.sortedUnder_of_pairwise (by decide)]
    decide +kernel
  rw [hload] at hurls
  simpa [Except.toOption, hindex] using hurls

theorem build_resolves_labelledTree :
    ∃ tree' report documents index,
      sample.build "/site".toList labelledTree = (tree', .ok report) ∧
      sample.loadAll "/site".toList labelledTree = .ok (documents, report.skipped) ∧
      sample.indexOf documents = .ok index ∧ Links sample index "/b".toList ∧
      "dist/b/index.html".toList ∈ report.written := by
  obtain ⟨tree', report, hbuild⟩ := build_labelledTree
  obtain ⟨⟨documents, index, hload, hindex, hresolves, -⟩, -⟩ :=
    build_resolves (by decide) ⟨by decide, by decide⟩
      (fun f hf s hs => by revert s f; decide) hbuild
  have hlink : Links sample index "/b".toList := by
    have hmem : "/b".toList ∈ index.catalog.map Entry.url := by
      rw [urls_labelledTree hload hindex]
      decide
    obtain ⟨e, he, hurl⟩ := List.mem_map.mp hmem
    exact hurl ▸ .entry he
  obtain ⟨page, hpage, hwritten⟩ := hresolves _ hlink
  obtain rfl : page = "b".toList := (List.cons.inj hpage).2.symm
  exact ⟨tree', report, documents, index, hbuild, hload, hindex, hlink, hwritten⟩

end Site

end Sitewright
