import Sitewright.Proofs.Lineage
import Sitewright.Proofs.Ordering
import Sitewright.Tree

/-!
The tree of pages that pass the check. How far a page stands below the root is the number of
parents above it, so no page comes twice, and none is too far down to be met.
-/
namespace Sitewright.Tree
open Lineage

variable {pages : List Page}

/-- The key of a page among its siblings. -/
def sortKey (p : Page) : ℤ ×ₗ Text := siblingKey p.order p.title

lemma siblings_sortedBy (pages : List Page) (parent : Text) :
    SortedBy sortKey (pages.filter fun p => p.parent = parent) (siblings pages parent) :=
  sortedBy_mergeSort sortKey (fun _ _ => siblingKey_le_iff.symm) _

lemma mem_siblings {parent : Text} {p : Page} :
    p ∈ siblings pages parent ↔ p ∈ pages ∧ p.parent = parent := by
  simp [siblings]

lemma pagesOf_eq_flatMap (ts : List Tree) : pagesOf ts = ts.flatMap Tree.pages := by
  induction ts with
  | nil => simp [pagesOf]
  | cons t ts ih => simp [pagesOf, ih]

lemma nodesOf_eq_flatMap (ts : List Tree) : nodesOf ts = ts.flatMap nodes := by
  induction ts with
  | nil => simp [nodesOf]
  | cons t ts ih => simp [nodesOf, ih]

lemma pagesOf_branches_succ (depth : ℕ) (id : Text) :
    pagesOf (branches pages (depth + 1) id) =
      (siblings pages id).flatMap fun p => p :: pagesOf (branches pages depth p.id) := by
  simp [branches, pagesOf_eq_flatMap, List.flatMap_map, Tree.pages]

lemma nodesOf_branches_succ (depth : ℕ) (id : Text) :
    nodesOf (branches pages (depth + 1) id) = (siblings pages id).flatMap fun p =>
      node p (branches pages depth p.id) :: nodesOf (branches pages depth p.id) := by
  simp [branches, nodesOf_eq_flatMap, List.flatMap_map, nodes]

lemma map_page_branches_succ (depth : ℕ) (id : Text) :
    (branches pages (depth + 1) id).map page = siblings pages id := by
  simp [branches, Function.comp_def, page]

mutual

lemma map_page_nodes : ∀ t : Tree, (nodes t).map page = t.pages
  | node p ts => by rw [nodes, List.map_cons, map_page_nodesOf ts]; rfl

lemma map_page_nodesOf : ∀ ts : List Tree, (nodesOf ts).map page = pagesOf ts
  | [] => rfl
  | t :: ts => by rw [nodesOf, List.map_append, map_page_nodes t, map_page_nodesOf ts]; rfl

end

section Branches

variable (hids : IdsValid pages)
include hids

/-- The pages below an identifier are those that it is above, down to the depth. -/
lemma mem_pagesOf_branches {q : Page} (depth : ℕ) (id : Text) :
    q ∈ pagesOf (branches pages depth id) ↔
      q ∈ pages ∧ ∃ k < depth, above pages (k + 1) q.id = some id := by
  induction depth generalizing id with
  | zero => simp [branches, pagesOf]
  | succ depth ih =>
    simp only [pagesOf_branches_succ, List.mem_flatMap, mem_siblings, List.mem_cons, ih]
    constructor
    · rintro ⟨p, ⟨hp, rfl⟩, rfl | ⟨hq, k, hk, habove⟩⟩
      · exact ⟨hp, 0, by omega, by simp [above, parent?_of_mem hids.2 hp]⟩
      · refine ⟨hq, k + 1, by omega, ?_⟩
        rw [above_succ_last, habove, Option.bind_some, parent?_of_mem hids.2 hp]
    · rintro ⟨hq, k, hk, habove⟩
      rw [above_succ_last] at habove
      obtain ⟨mid, hmid, hstep⟩ := Option.bind_eq_some_iff.mp habove
      obtain ⟨p, hp, rfl, rfl⟩ := parent?_eq_some hstep
      refine ⟨p, ⟨hp, rfl⟩, ?_⟩
      cases k with
      | zero =>
        have hid : q.id = p.id := by simpa [above] using hmid
        exact .inl (List.inj_on_of_nodup_map hids.2 hq hp hid)
      | succ k => exact .inr ⟨hq, k, by omega, hmid⟩

/-- All siblings are equally far from the root, so two of them have no page below both. -/
lemma nodup_pagesOf_branches (depth : ℕ) (id : Text) (hreach : ReachesRoot pages id) :
    (pagesOf (branches pages depth id)).Nodup := by
  induction depth generalizing id with
  | zero => simp [branches, pagesOf]
  | succ depth ih =>
    obtain ⟨n, hn⟩ := hreach
    have hchild : ∀ p ∈ siblings pages id, above pages (n + 1) p.id = some rootId := by
      intro p hp
      obtain ⟨hmem, rfl⟩ := mem_siblings.mp hp
      rw [above_succ_of_step (parent?_of_mem hids.2 hmem), hn]
    rw [pagesOf_branches_succ, List.nodup_flatMap]
    constructor
    · intro p hp
      refine List.nodup_cons.mpr ⟨fun hm => ?_, ih p.id ⟨n + 1, hchild p hp⟩⟩
      obtain ⟨-, k, -, hk⟩ := (mem_pagesOf_branches hids depth p.id).mp hm
      exact not_reachesRoot_of_cycle hids.root_not_mem hk ⟨n + 1, hchild p hp⟩
    · have hnodup : (siblings pages id).Nodup :=
        (siblings_sortedBy pages id).perm.nodup_iff.mpr (hids.2.of_map.filter _)
      refine hnodup.imp_of_mem fun {p p'} hp hp' hne q hq hq' => hne ?_
      have hbelow : ∀ {r : Page}, q ∈ r :: pagesOf (branches pages depth r.id) →
          ∃ k, above pages k q.id = some r.id := by
        intro r hr
        rcases List.mem_cons.mp hr with rfl | hr
        · exact ⟨0, rfl⟩
        · obtain ⟨-, k, -, hk⟩ := (mem_pagesOf_branches hids depth r.id).mp hr
          exact ⟨k + 1, hk⟩
      obtain ⟨a, ha⟩ := hbelow hq
      obtain ⟨b, hb⟩ := hbelow hq'
      have hda : above pages (a + (n + 1)) q.id = some rootId := by
        rw [above_add, ha, Option.bind_some, hchild p hp]
      have hdb : above pages (b + (n + 1)) q.id = some rootId := by
        rw [above_add, hb, Option.bind_some, hchild p' hp']
      have hab : a = b := by
        have := above_root_unique hids.root_not_mem hda hdb
        omega
      rw [← hab, ha] at hb
      exact List.inj_on_of_nodup_map hids.2 (mem_siblings.mp hp).1 (mem_siblings.mp hp').1
        (Option.some.inj hb)

/-- No way to the root is longer than the list of pages. -/
lemma above_root_le_length {n : ℕ} {id : Text} (h : above pages n id = some rootId) :
    n ≤ pages.length := by
  have hstep : ∀ k < n, ∃ c ∈ pages.map Page.id, above pages k id = some c ∧
      above pages (n - k) c = some rootId := by
    intro k hk
    have hsplit : above pages (k + (n - k)) id = some rootId := by
      rw [Nat.add_sub_cancel' (Nat.le_of_lt hk), h]
    rw [above_add] at hsplit
    obtain ⟨c, hc, hrest⟩ := Option.bind_eq_some_iff.mp hsplit
    refine ⟨c, ?_, hc, hrest⟩
    by_contra hm
    obtain ⟨m, hm'⟩ : ∃ m, n - k = m + 1 := ⟨n - k - 1, by omega⟩
    rw [hm'] at hrest
    simp [above, parent?_eq_none.mpr hm] at hrest
  let chain := (List.range n).map fun k => (above pages k id).getD []
  have hnodup : chain.Nodup := by
    refine List.Nodup.map_on ?_ List.nodup_range
    intro i hi j hj he
    obtain ⟨c, -, hc, hci⟩ := hstep i (List.mem_range.mp hi)
    obtain ⟨d, -, hd, hdj⟩ := hstep j (List.mem_range.mp hj)
    rw [hc, hd, Option.getD_some, Option.getD_some] at he
    subst he
    have := above_root_unique hids.root_not_mem hci hdj
    have := List.mem_range.mp hi
    have := List.mem_range.mp hj
    omega
  have hsubset : chain ⊆ pages.map Page.id := by
    intro c hc
    obtain ⟨k, hk, rfl⟩ := List.mem_map.mp hc
    obtain ⟨c, hm, hc, -⟩ := hstep k (List.mem_range.mp hk)
    simpa [hc] using hm
  simpa [chain] using hnodup.length_le_of_subset hsubset

omit hids in
/-- Every node holds the branches of its page, as deep as the depth left there. -/
lemma mem_nodesOf_branches (hnodup : (pages.map Page.id).Nodup) {t : Tree} (depth : ℕ) (id : Text)
    (h : t ∈ nodesOf (branches pages depth id)) :
    ∃ k left, k + 1 + left = depth ∧ t.page ∈ pages ∧
      t.children = branches pages left t.page.id ∧ above pages (k + 1) t.page.id = some id := by
  induction depth generalizing id with
  | zero => simp [branches, nodesOf] at h
  | succ depth ih =>
    simp only [nodesOf_branches_succ, List.mem_flatMap, mem_siblings, List.mem_cons] at h
    obtain ⟨p, ⟨hp, rfl⟩, rfl | h⟩ := h
    · exact ⟨0, depth, by omega, hp, rfl, by simp [above, page, parent?_of_mem hnodup hp]⟩
    · obtain ⟨k, left, hdepth, hpage, hchildren, habove⟩ := ih p.id h
      refine ⟨k + 1, left, by omega, hpage, hchildren, ?_⟩
      rw [above_succ_last, habove, Option.bind_some, parent?_of_mem hnodup hp]

/-- In the whole tree every children list is complete: the depth never cuts one off. -/
lemma map_page_children {t : Tree} (h : t ∈ nodesOf (branches pages pages.length rootId)) :
    t.children.map page = siblings pages t.page.id := by
  obtain ⟨k, left, hdepth, hpage, hchildren, habove⟩ := mem_nodesOf_branches hids.2 _ _ h
  cases left with
  | succ left => rw [hchildren, map_page_branches_succ]
  | zero =>
    have hnone : siblings pages t.page.id = [] := by
      refine List.eq_nil_iff_forall_not_mem.mpr fun c hc => ?_
      obtain ⟨hc, hparent⟩ := mem_siblings.mp hc
      have hstep := parent?_of_mem hids.2 hc
      rw [hparent] at hstep
      have := above_root_le_length hids ((above_succ_of_step hstep (k + 1)).trans habove)
      omega
    rw [hchildren, hnone]
    rfl

end Branches

/-- The trees hold the pages as their parents say. -/
structure FollowsParents (pages : List Page) (ts : List Tree) : Prop where
  /-- The walk over all nodes meets every page and nothing else. -/
  walk : ((nodesOf ts).map page).Perm pages
  /-- It meets no identifier twice. -/
  once : ((nodesOf ts).map fun t => t.page.id).Nodup
  /-- The pages at the top are those that name the root. -/
  top : ∀ p ∈ pages, p ∈ ts.map page ↔ p.parent = rootId
  /-- The pages below a node are those that name its page. -/
  below : ∀ t ∈ nodesOf ts, ∀ p ∈ pages, p ∈ t.children.map page ↔ p.parent = t.page.id
  /-- There is a node for every other parent. -/
  parent : ∀ p ∈ pages, p.parent = rootId ∨ ∃ t ∈ nodesOf ts, t.page.id = p.parent
  topSorted : SortedBy sortKey (pages.filter fun p => p.parent = rootId) (ts.map page)
  belowSorted : ∀ t ∈ nodesOf ts,
    SortedBy sortKey (pages.filter fun p => p.parent = t.page.id) (t.children.map page)

lemma pagesOf_branches_perm (hids : IdsValid pages)
    (hreach : ∀ p ∈ pages, ReachesRoot pages p.id) :
    (pagesOf (branches pages pages.length rootId)).Perm pages := by
  refine (List.perm_ext_iff_of_nodup (nodup_pagesOf_branches hids _ _ ⟨0, rfl⟩)
    hids.2.of_map).mpr fun q => ?_
  rw [mem_pagesOf_branches hids]
  refine ⟨fun h => h.1, fun hq => ⟨hq, ?_⟩⟩
  obtain ⟨n, hn⟩ := hreach q hq
  have hle := above_root_le_length hids hn
  cases n with
  | zero =>
    have hroot : q.id = rootId := by simpa [above] using hn
    exact absurd (hroot ▸ List.mem_map_of_mem hq) hids.root_not_mem
  | succ n => exact ⟨n, hle, hn⟩

/-- At the top stand the siblings below the root. -/
lemma map_page_ofPages {ts : List Tree} (h : ofPages pages = .ok ts) :
    ts.map page = siblings pages rootId := by
  obtain ⟨-, rfl⟩ := ofPages_eq_ok.mp h
  cases hlength : pages.length with
  | succ n => rw [map_page_branches_succ]
  | zero => simp [List.length_eq_zero_iff.mp hlength, branches, siblings]

lemma check_of_ofPages {ts : List Tree} (h : ofPages pages = .ok ts) :
    IdsValid pages ∧ Closed pages ∧ ∀ p ∈ pages, ReachesRoot pages p.id := by
  have houtcome := check_outcome pages
  rw [(ofPages_eq_ok.mp h).1] at houtcome
  obtain ⟨hids, hclosed, hreach⟩ := houtcome
  exact ⟨hids, hclosed, hreach⟩

/-- Pages make a tree exactly where they pass the check of their lineage. -/
lemma exists_ofPages_iff : (∃ ts, ofPages pages = .ok ts) ↔
      IdsValid pages ∧ Closed pages ∧ ∀ p ∈ pages, ReachesRoot pages p.id := by
  refine ⟨fun ⟨ts, hts⟩ => check_of_ofPages hts, fun ⟨hids, hclosed, hreach⟩ => ?_⟩
  have houtcome := check_outcome pages
  cases hcheck : check pages with
  | ok u => exact ⟨_, ofPages_eq_ok.mpr ⟨hcheck, rfl⟩⟩
  | error e =>
    rw [hcheck] at houtcome
    cases houtcome with
    | ids fault hkind hno => exact absurd hids hno
    | orphan id parent _ hno => exact absurd hclosed hno
    | cycle loop _ _ hno => exact absurd hreach hno

/-- A new page below a known one joins the tree just if its identifier is accepted. -/
lemma exists_ofPages_concat {p : Page} (h : ∃ ts, ofPages pages = .ok ts)
    (hnew : p.id ∉ pages.map Page.id) (hparent : p.parent = rootId ∨ p.parent ∈ pages.map Page.id) :
    (∃ ts, ofPages (pages ++ [p]) = .ok ts) ↔ Page.checkId p.id = .ok () := by
  obtain ⟨hids, hclosed, hreach⟩ := exists_ofPages_iff.mp h
  have hmem : p ∈ pages ++ [p] := List.mem_concat_self
  rw [exists_ofPages_iff]
  refine ⟨fun hall => hall.1.1 p hmem, fun hid => ?_⟩
  have hnodup : ((pages ++ [p]).map Page.id).Nodup := by
    rw [List.map_append]
    exact List.concat_eq_append ▸ hids.2.concat hnew
  have hknown : p.parent = rootId ∨ ReachesRoot pages p.parent := by
    refine hparent.imp_right fun hm => ?_
    obtain ⟨q, hq, hqid⟩ := List.mem_map.mp hm
    exact hqid ▸ hreach q hq
  refine ⟨⟨?_, hnodup⟩, ?_, ?_⟩
  · exact List.forall_mem_append.mpr ⟨hids.1, List.forall_mem_singleton.mpr hid⟩
  · intro q hq
    rw [List.map_append]
    rcases List.mem_append.mp hq with hq | hq
    · exact (hclosed q hq).imp_right (List.mem_append_left _)
    · obtain rfl := List.mem_singleton.mp hq
      exact hparent.imp_right (List.mem_append_left _)
  · intro q hq
    rcases List.mem_append.mp hq with hq | hq
    · exact (hreach q hq).append
    · obtain rfl := List.mem_singleton.mp hq
      have hstep := parent?_of_mem hnodup hmem
      rcases hknown with hroot | hroot
      · exact ⟨1, by rw [above_succ_of_step hstep, hroot]; rfl⟩
      · have habove : ReachesRoot (pages ++ [q]) q.parent := hroot.append
        obtain ⟨n, hn⟩ := habove
        exact ⟨n + 1, by rw [above_succ_of_step hstep, hn]⟩

/-- Below a node stand the siblings below its page. -/
lemma map_page_children_ofPages {ts : List Tree} (h : ofPages pages = .ok ts) {t : Tree}
    (ht : t ∈ nodesOf ts) : t.children.map page = siblings pages t.page.id := by
  obtain ⟨hids, -, -⟩ := check_of_ofPages h
  obtain ⟨-, rfl⟩ := ofPages_eq_ok.mp h
  exact map_page_children hids ht

/-- The walk over all nodes meets the pages. -/
lemma map_page_nodesOf_perm {ts : List Tree} (h : ofPages pages = .ok ts) :
    ((nodesOf ts).map page).Perm pages := by
  obtain ⟨hids, -, hreach⟩ := check_of_ofPages h
  obtain ⟨-, rfl⟩ := ofPages_eq_ok.mp h
  rw [map_page_nodesOf]
  exact pagesOf_branches_perm hids hreach

/-- The tree of accepted pages is the relation between pages and their parents. -/
theorem ofPages_followsParents (pages : List Page) (ts : List Tree)
    (h : ofPages pages = .ok ts) : FollowsParents pages ts := by
  obtain ⟨hids, hclosed, -⟩ := check_of_ofPages h
  have hwalk := map_page_nodesOf_perm h
  have htop := map_page_ofPages h
  have hbelow : ∀ t ∈ nodesOf ts, t.children.map page = siblings pages t.page.id :=
    fun t ht => map_page_children_ofPages h ht
  refine ⟨hwalk, ?_, ?_, ?_, ?_, ?_, ?_⟩
  · have hmap := (hwalk.map Page.id).nodup_iff.mpr hids.2
    rwa [List.map_map] at hmap
  · intro p hp
    rw [htop, mem_siblings]
    exact and_iff_right hp
  · intro t ht p hp
    rw [hbelow t ht, mem_siblings]
    exact and_iff_right hp
  · intro p hp
    refine (hclosed p hp).imp_right fun hm => ?_
    obtain ⟨q, hq, he⟩ := List.mem_map.mp hm
    obtain ⟨t, ht, rfl⟩ := List.mem_map.mp (hwalk.mem_iff.mpr hq)
    exact ⟨t, ht, he⟩
  · rw [htop]
    exact siblings_sortedBy pages rootId
  · intro t ht
    rw [hbelow t ht]
    exact siblings_sortedBy pages t.page.id

/-- Four pages listed against their tree: children before parents, a tie, titles in two cases. -/
def sample : List Page := [
  { id := "c".toList, title := "same".toList, parent := "a".toList },
  { id := "b".toList, title := "Same".toList, parent := "a".toList },
  { id := "d".toList, title := "last".toList, parent := "b".toList, order := 1 },
  { id := "a".toList, title := "top".toList }]

theorem ofPages_followsParents_sample :
    ∃ ts, ofPages sample = .ok ts ∧ FollowsParents sample ts :=
  ⟨_, ofPages_eq_ok.mpr ⟨rfl, rfl⟩, ofPages_followsParents sample _ (ofPages_eq_ok.mpr ⟨rfl, rfl⟩)⟩

/-- Pages make a tree exactly when their identifiers are valid and distinct, every parent is known
and every way up comes to the root. The first of these that fails decides the kind of the fault;
no identifier is looked up in vain, and every way up ends. -/
theorem ofPages_decides (pages : List Page) :
    ((∃ ts, ofPages pages = .ok ts) ↔
      IdsValid pages ∧ Closed pages ∧ ∀ p ∈ pages, ReachesRoot pages p.id) ∧
    ((∃ fault, ofPages pages = .error fault ∧ IsIdFault fault) ↔ ¬ IdsValid pages) ∧
    ((∃ id parent, ofPages pages = .error (.orphan id parent)) ↔
      IdsValid pages ∧ ¬ Closed pages) ∧
    ((∃ loop, ofPages pages = .error (.cycle loop)) ↔
      IdsValid pages ∧ Closed pages ∧ ¬ ∀ p ∈ pages, ReachesRoot pages p.id) ∧
    (∀ fault, ofPages pages = .error fault →
      IsIdFault fault ∨ (∃ id parent, fault = .orphan id parent) ∨ ∃ loop, fault = .cycle loop) ∧
    (∀ id, check pages ≠ .error (.unknown id)) ∧ check pages ≠ .error .endless := by
  simp only [ofPages_eq_ok, ofPages_eq_error]
  have h := check_outcome pages
  cases hcheck : check pages with
  | ok u =>
    rw [hcheck] at h
    obtain ⟨hids, hclosed, hreach⟩ := h
    simpa [hids, hclosed] using hreach
  | error e =>
    rw [hcheck] at h
    cases h with
    | ids fault hkind hids =>
      have horphan : ∀ id parent, fault ≠ .orphan id parent := by rintro _ _ rfl; cases hkind
      have hcycle : ∀ loop, fault ≠ .cycle loop := by rintro _ rfl; cases hkind
      simp [hids, hkind, horphan, hcycle]
    | orphan id parent hids hclosed =>
      have hkind : ¬ IsIdFault (.orphan id parent) := by rintro ⟨⟩
      simp [hids, hclosed, hkind]
    | cycle loop hids hclosed hreach =>
      have hkind : ¬ IsIdFault (.cycle loop) := by rintro ⟨⟩
      simp only [hids, hclosed, hreach]
      simp [hkind]

end Sitewright.Tree
