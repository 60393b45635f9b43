import Sitewright.Proofs.Index
import Sitewright.Proofs.PageFields

/-!
Which document a fault of a site is blamed on. Identifiers are checked while documents are loaded and
found to be distinct while their paths are noted, so the tree of pages can only fail for a parent;
and the page that its fault is about is found again by its identifier.
-/
namespace Sitewright

namespace Lineage

/-- The page that a fault of parents is about. -/
inductive Culprit (pages : List Page) : Page → PageFault → Prop
  | orphan {p : Page} (mem : p ∈ pages) (not_root : p.parent ≠ rootId)
      (unknown : p.parent ∉ pages.map Page.id) : Culprit pages p (.orphan p.id p.parent)
  /-- The page where the cycle ends is above itself. -/
  | cycle {p : Page} {loop : List Text} (mem : p ∈ pages) (last : loop.getLast? = some p.id)
      (above : ∃ k, above pages (k + 1) p.id = some p.id) : Culprit pages p (.cycle loop)

variable {pages : List Page} {fault : PageFault}

lemma Culprit.mem {p : Page} (h : Culprit pages p fault) : p ∈ pages := by
  cases h <;> assumption

lemma Culprit.id?_eq {p : Page} (h : Culprit pages p fault) : fault.id? = some p.id := by
  cases h with
  | orphan => rfl
  | cycle _ last => exact last

lemma checkParents_culprit (h : checkParents pages = .error fault) :
    ∃ p, Culprit pages p fault := by
  unfold checkParents at h
  split at h
  · rename_i p hp
    cases h
    have hlost : ¬ (p.parent = rootId ∨ p.parent ∈ pages.map Page.id) := by
      rw [← hasParent_iff]
      simpa using List.find?_some hp
    obtain ⟨hroot, hunknown⟩ := not_or.mp hlost
    exact ⟨p, .orphan (List.mem_of_find?_eq_some hp) hroot hunknown⟩
  · cases h

/-- Pages with valid identifiers fail the check for a parent of one of them. -/
lemma check_culprit (hids : checkIds [] pages = .ok ())
    (h : check pages = .error (.invalid fault)) : ∃ p, Culprit pages p fault := by
  unfold check at h
  rw [hids] at h
  dsimp only at h
  split at h
  · rename_i fault' hparents
    cases h
    exact checkParents_culprit hparents
  · rename_i hparents
    obtain ⟨loop, hloop⟩ := checkCycles_invalid (checkParents_eq_ok.mp hparents) [] pages (by simp) h
    cases hloop
    obtain ⟨p, hp, hlast, habove⟩ := checkCycles_cycle h
    exact ⟨p, .cycle hp hlast habove⟩

end Lineage

/-- Fields make a page only with an identifier that passes the check. -/
lemma Page.checkId_of_ofFields {fields : Fields} {p : Page} (h : Page.ofFields fields = .ok p) :
    Page.checkId p.id = .ok () :=
  (Page.idOf_eq_ok.mp (Page.describes_of_ofFields h).id).2.2

lemma Document.checkId_of_load {text path : Text} {d : Document} {p : Page}
    (h : Document.load text path = .ok d) (hp : d.page = some p) : Page.checkId p.id = .ok () := by
  obtain ⟨split, -, h⟩ := except_bind_ok h
  obtain ⟨page, hpage, h⟩ := except_bind_ok h
  cases h
  unfold pageOf at hpage
  dsimp only at hp
  subst hp
  split at hpage
  · rename_i q hq
    cases hpage
    exact Page.checkId_of_ofFields hq
  all_goals cases hpage

namespace Index

variable {before paths : List (Text × Text)} {documents : List Document}

/-- Noting paths stops at the first page whose identifier is noted already. -/
lemma pathsFrom_eq_error {ps : List Placed} {e : PageError} (h : pathsFrom before ps = .error e) :
    ∃ front p back first, ps = front ++ p :: back ∧
      (before ++ front.map fun p => (p.page.id, p.path)).lookup p.page.id = some first ∧
      e = ⟨p.path, .duplicate p.page.id (some first)⟩ := by
  induction ps generalizing before with
  | nil => cases h
  | cons p ps ih =>
    unfold pathsFrom at h
    split at h
    · rename_i first hfirst
      cases h
      exact ⟨[], p, ps, first, rfl, by simpa using hfirst, rfl⟩
    · obtain ⟨front, q, back, first, rfl, hfirst, rfl⟩ := ih h
      exact ⟨p :: front, q, back, first, rfl, by simpa using hfirst, rfl⟩

/-- The document that a fault of a site is about. -/
inductive Blamed (documents : List Document) : Document → PageFault → Prop
  /-- The later one of two with the same identifier. -/
  | duplicate {front back : List Document} {d first : Document} {p q : Page}
      (split : documents = front ++ d :: back) (page : d.page = some p) (earlier : first ∈ front)
      (same : first.page = some q) (id : q.id = p.id) :
      Blamed documents d (.duplicate p.id (some first.path))
  /-- One whose page names a parent that there is not, or lies on a cycle of parents. -/
  | parent {d : Document} {p : Page} {fault : PageFault} (mem : d ∈ documents)
      (page : d.page = some p) (culprit : Lineage.Culprit (documents.filterMap Document.page) p fault) :
      Blamed documents d fault

lemma placed?_eq_some {d : Document} {p : Placed} (h : d.placed? = some p) :
    d.page = some p.page ∧ p.path = d.path := by
  obtain ⟨page, hpage, rfl⟩ := Option.map_eq_some_iff.mp h
  exact ⟨hpage, rfl⟩

/-- Two pages of one identifier are two documents, of which the later one is blamed. -/
lemma blamed_of_pathsFrom {e : PageError}
    (h : pathsFrom [] (documents.filterMap Document.placed?) = .error e) :
    ∃ d ∈ documents, ∃ p, d.page = some p ∧ e.path = d.path ∧ e.fault.id? = some p.id ∧
      Blamed documents d e.fault := by
  obtain ⟨front, p, back, first, hsplit, hfirst, rfl⟩ := pathsFrom_eq_error h
  obtain ⟨before, rest, rfl, rfl, hrest⟩ := List.filterMap_eq_append_iff.mp hsplit
  obtain ⟨between, d, after, rfl, -, hd, -⟩ := List.filterMap_eq_cons_iff.mp hrest
  obtain ⟨hpage, hpath⟩ := placed?_eq_some hd
  rw [List.nil_append] at hfirst
  obtain ⟨q, hq, heq⟩ := List.mem_map.mp (mem_of_lookup hfirst)
  obtain ⟨hid, rfl⟩ := Prod.mk.inj heq
  obtain ⟨earlier, hearlier, hplaced⟩ := List.mem_filterMap.mp hq
  obtain ⟨hsame, hq⟩ := placed?_eq_some hplaced
  refine ⟨d, by simp, p.page, hpage, hpath, rfl, ?_⟩
  rw [hq]
  exact .duplicate (List.append_assoc before between (d :: after)).symm hpage
    (List.mem_append_left _ hearlier) hsame hid

section Loaded

variable (hloaded : ∀ d ∈ documents, ∃ text, Document.load text d.path = .ok d)
include hloaded

/-- Pages of loaded documents whose paths are noted have valid identifiers. -/
lemma checkIds_of_pathsFrom (h : pathsFrom [] (documents.filterMap Document.placed?) = .ok paths) :
    Lineage.checkIds [] (documents.filterMap Document.page) = .ok () := by
  obtain ⟨rfl, hnodup⟩ := pathsFrom_eq_ok h
  have hids := hnodup List.nodup_nil
  rw [List.nil_append, List.map_map] at hids
  refine Lineage.checkIds_eq_ok.mpr ⟨⟨fun p hp => ?_, ?_⟩, by simp⟩
  · obtain ⟨d, hd, hpage⟩ := List.mem_filterMap.mp hp
    obtain ⟨text, hload⟩ := hloaded d hd
    exact Document.checkId_of_load hload hpage
  · rwa [← pages_placed, List.map_map]

/-- The page that a fault of parents is about is found again at the path of its document. -/
lemma blamed_of_ofPages (hpaths : pathsFrom [] (documents.filterMap Document.placed?) = .ok paths)
    {fault : PageFault} (h : Tree.ofPages (documents.filterMap Document.page) = .error fault) :
    ∃ d ∈ documents, ∃ p, d.page = some p ∧
      (fault.id?.bind fun id => paths.lookup id).getD [] = d.path ∧ fault.id? = some p.id ∧
      Blamed documents d fault := by
  obtain ⟨p, hculprit⟩ :=
    Lineage.check_culprit (checkIds_of_pathsFrom hloaded hpaths) (Tree.ofPages_eq_error.mp h)
  obtain ⟨d, hd, hpage⟩ := List.mem_filterMap.mp hculprit.mem
  refine ⟨d, hd, p, hpage, ?_, hculprit.id?_eq, .parent hd hpage hculprit⟩
  rw [hculprit.id?_eq]
  exact pathOf_eq hpaths (placed_mem hd hpage)

/-- A fault of a site is blamed on one of its documents: on the later one of two with one identifier,
on one whose parent is no page, or on one that lies on a cycle of parents. Its message starts with the
path of that document. Where the tree of pages is made, identifiers are valid and distinct already. -/
theorem ofDocuments_blames (hpaths : ∀ d ∈ documents, d.path ≠ []) (basePath : Text) (boosted : Bool) :
    (∀ e, ofDocuments basePath boosted documents = .error e →
      ∃ d ∈ documents, ∃ p, d.page = some p ∧ e.path = d.path ∧ e.fault.id? = some p.id ∧
        Blamed documents d e.fault ∧ e.message = d.path ++ ": ".toList ++ e.fault.message) ∧
    ∀ paths, pathsFrom [] (documents.filterMap Document.placed?) = .ok paths →
      Lineage.checkIds [] (documents.filterMap Document.page) = .ok () := by
  refine ⟨fun e he => ?_, fun paths h => checkIds_of_pathsFrom hloaded h⟩
  have hblamed : ∃ d ∈ documents, ∃ p, d.page = some p ∧ e.path = d.path ∧
      e.fault.id? = some p.id ∧ Blamed documents d e.fault := by
    unfold ofDocuments at he
    cases hnoted : pathsFrom [] (documents.filterMap Document.placed?) with
    | error e' =>
      simp only [hnoted, bind, Except.bind] at he
      cases he
      exact blamed_of_pathsFrom hnoted
    | ok paths =>
      cases htree : Tree.ofPages (documents.filterMap Document.page) with
      | error fault =>
        simp only [hnoted, pages_placed, htree, bind, Except.bind, Except.mapError] at he
        cases he
        exact blamed_of_ofPages hloaded hnoted htree
      | ok tree =>
        simp only [hnoted, pages_placed, htree, bind, Except.bind, Except.mapError] at he
        cases he
  obtain ⟨d, hd, p, hpage, hpath, hid, hblame⟩ := hblamed
  refine ⟨d, hd, p, hpage, hpath, hid, hblame, ?_⟩
  have hne : e.path.isEmpty = false := by simpa [hpath] using hpaths d hd
  rw [PageError.message, hne, hpath]
  rfl

end Loaded

section Sample

/-- The source of a page below another one. -/
def sourceBelow (id parent : String) : Text :=
  "---\nShort-URI: ".toList ++ id.toList ++ "\nParent: ".toList ++ parent.toList ++ "\n---\n".toList

lemma exists_load (text path : Text) (p : Page)
    (h : ((Document.load text path).toOption.map fun d => (d.path, d.page)) = some (path, some p)) :
    ∃ d, Document.load text path = .ok d ∧ d.placed? = some ⟨path, p⟩ := by
  cases hload : Document.load text path with
  | error e => rw [hload] at h; cases h
  | ok d =>
    rw [hload] at h
    obtain ⟨rfl, hpage⟩ := Prod.mk.inj (Option.some.inj h)
    exact ⟨d, rfl, by rw [Document.placed?, hpage]; rfl⟩

/-- A page that leads into a cycle of two pages: one of these is blamed. -/
theorem ofDocuments_blames_cycle :
    ∃ documents : List Document, (∀ d ∈ documents, ∃ text, Document.load text d.path = .ok d) ∧
      documents.map Document.path = ["a.md".toList, "b.md".toList, "c.md".toList] ∧
      ∃ e, ofDocuments [] false documents = .error e ∧
        e.message = "b.md: Circular parent reference: b -> c -> b".toList ∧
        ∃ d ∈ documents, d.path = "b.md".toList ∧ Blamed documents d e.fault := by
  obtain ⟨a, ha, hpa⟩ := exists_load (sourceBelow "a" "b") "a.md".toList
    { id := "a".toList, title := "a".toList, parent := "b".toList } (by decide +kernel)
  obtain ⟨b, hb, hpb⟩ := exists_load (sourceBelow "b" "c") "b.md".toList
    { id := "b".toList, title := "b".toList, parent := "c".toList } (by decide +kernel)
  obtain ⟨c, hc, hpc⟩ := exists_load (sourceBelow "c" "b") "c.md".toList
    { id := "c".toList, title := "c".toList, parent := "b".toList } (by decide +kernel)
  have herror : ofDocuments [] false [a, b, c] =
      .error ⟨"b.md".toList, .cycle ["b".toList, "c".toList, "b".toList]⟩ := by
    have hplaced : [a, b, c].filterMap Document.placed? = _ :=
      (List.filterMap_cons_some hpa).trans (congrArg _ ((List.filterMap_cons_some hpb).trans
        (congrArg _ (List.filterMap_cons_some hpc))))
    rw [ofDocuments]
    simp only [hplaced]
    rfl
  obtain ⟨-, hpatha⟩ := placed?_eq_some hpa
  obtain ⟨-, hpathb⟩ := placed?_eq_some hpb
  obtain ⟨-, hpathc⟩ := placed?_eq_some hpc
  have hloaded : ∀ d ∈ [a, b, c], ∃ text, Document.load text d.path = .ok d := by
    simp only [List.forall_mem_cons, ← hpatha, ← hpathb, ← hpathc]
    exact ⟨⟨_, ha⟩, ⟨_, hb⟩, ⟨_, hc⟩, by simp⟩
  have hpaths : ∀ d ∈ [a, b, c], d.path ≠ [] := by
    simp [← hpatha, ← hpathb, ← hpathc]
  obtain ⟨d, hd, p, -, hpath, -, hblamed, hmessage⟩ :=
    (ofDocuments_blames hloaded hpaths [] false).1 _ herror
  refine ⟨[a, b, c], hloaded, ?_, _, herror, ?_, d, hd, hpath.symm, hblamed⟩
  · simp [← hpatha, ← hpathb, ← hpathc]
  · rw [hmessage, ← hpath]
    rfl

end Sample

end Index

end Sitewright
