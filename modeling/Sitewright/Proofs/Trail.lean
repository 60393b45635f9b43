import Mathlib.Data.List.Induction
import Sitewright.Proofs.Tree

/-!
Trails. The way from the top of the site down to a page follows the parents of the pages on it, so a
page has one trail, whatever the order of siblings. The search for it tries one branch after the
other, and no identifier is found in two of them.
-/
namespace Sitewright.Tree
open Lineage

/-- Each page names the one in front of it as its parent, and the first one names `start`. -/
def Follows (start : Text) : List Page → Prop
  | [] => True
  | p :: ps => p.parent = start ∧ Follows p.id ps

variable {pages : List Page} {ts : List Tree} {id start : Text} {way : List Page}

@[simp] lemma follows_singleton {p : Page} : Follows start [p] ↔ p.parent = start := by
  simp [Follows]

lemma follows_concat_concat {front : List Page} {q p : Page} :
    Follows start (front ++ [q] ++ [p]) ↔ Follows start (front ++ [q]) ∧ p.parent = q.id := by
  induction front generalizing start with
  | nil => simp [Follows]
  | cons r front ih =>
    simp only [List.cons_append, Follows, ih, and_assoc]

section Search

lemma path?_of_trail? {ts : List Tree} (h : trail? id ts = some way) :
    ∃ t ∈ ts, path? id t = some way := by
  induction ts with
  | nil => cases h
  | cons t ts ih =>
    rw [trail?] at h
    split at h
    · rename_i found hfound
      exact ⟨t, List.mem_cons_self, hfound.trans h⟩
    · obtain ⟨t', ht', hway⟩ := ih h
      exact ⟨t', List.mem_cons_of_mem _ ht', hway⟩

mutual

lemma isSome_path? : ∀ t : Tree, id ∈ t.pages.map Page.id → (path? id t).isSome = true
  | node p ts, h => by
    rw [pages, List.map_cons, List.mem_cons] at h
    rw [path?]
    split
    · rfl
    · rename_i hne
      rw [Option.isSome_map]
      exact isSome_trail? ts (h.resolve_left (Ne.symm hne))

lemma isSome_trail? : ∀ ts : List Tree, id ∈ (pagesOf ts).map Page.id → (trail? id ts).isSome = true
  | [], h => by cases h
  | t :: ts, h => by
    rw [pagesOf, List.map_append, List.mem_append] at h
    rw [trail?]
    split
    · rfl
    · rename_i hnone
      refine isSome_trail? ts (h.resolve_left fun ht => ?_)
      have hsome := isSome_path? t ht
      rw [hnone] at hsome
      cases hsome

end

/-- What is found below an identifier follows parents down to the page that is looked for. -/
lemma follows_of_trail?_branches (depth : ℕ) (h : trail? id (branches pages depth start) = some way) :
    way ⊆ pages ∧ Follows start way ∧ way.getLast?.map Page.id = some id := by
  induction depth generalizing start way with
  | zero => cases h
  | succ depth ih =>
    obtain ⟨t, ht, hpath⟩ := path?_of_trail? h
    rw [branches] at ht
    obtain ⟨p, hp, rfl⟩ := List.mem_map.mp ht
    obtain ⟨hmem, hparent⟩ := mem_siblings.mp hp
    rw [path?] at hpath
    split at hpath
    · rename_i hid
      cases hpath
      exact ⟨by simpa using hmem, by simpa using hparent, by simpa using hid⟩
    · obtain ⟨rest, hrest, rfl⟩ := Option.map_eq_some_iff.mp hpath
      obtain ⟨hsub, hfollows, hlast⟩ := ih hrest
      refine ⟨List.cons_subset.mpr ⟨hmem, hsub⟩, ⟨hparent, hfollows⟩, ?_⟩
      cases rest with
      | nil => cases hlast
      | cons q rest => rwa [List.getLast?_cons_cons]

end Search

section Unique

variable (hids : IdsValid pages)
include hids

/-- A page with another one in front of it does not name the root, which is no page. -/
lemma parent_ne_root {front : List Page} {q p : Page} (hq : q ∈ pages)
    (h : Follows start (front ++ [q] ++ [p])) : p.parent ≠ rootId := by
  rw [(follows_concat_concat.mp h).2]
  intro hroot
  exact hids.root_not_mem (hroot ▸ List.mem_map_of_mem hq)

/-- Two ways down that follow parents from the root to one page are the same. -/
lemma Follows.unique {front front' : List Page} {p : Page} (hsub : front ⊆ pages)
    (hsub' : front' ⊆ pages) (h : Follows rootId (front ++ [p]))
    (h' : Follows rootId (front' ++ [p])) : front = front' := by
  induction front using List.reverseRecOn generalizing front' p with
  | nil =>
    cases front' using List.reverseRecOn with
    | nil => rfl
    | append_singleton front' q' =>
      have hq' : q' ∈ pages := hsub' (by simp)
      exact absurd (follows_singleton.mp h) (parent_ne_root hids hq' h')
  | append_singleton front q ih =>
    have hq : q ∈ pages := hsub (by simp)
    cases front' using List.reverseRecOn with
    | nil => exact absurd (follows_singleton.mp h') (parent_ne_root hids hq h)
    | append_singleton front' q' =>
      have hq' : q' ∈ pages := hsub' (by simp)
      obtain ⟨hfront, hparent⟩ := follows_concat_concat.mp h
      obtain ⟨hfront', hparent'⟩ := follows_concat_concat.mp h'
      have hsame : q = q' :=
        List.inj_on_of_nodup_map hids.2 hq hq' (hparent.symm.trans hparent')
      subst hsame
      rw [ih (fun r hr => hsub (by simp [hr])) (fun r hr => hsub' (by simp [hr])) hfront hfront']

end Unique

section Accepted

variable (h : ofPages pages = .ok ts)
include h

/-- Every page of the site has a trail, and nothing else has one. -/
lemma isSome_trail?_iff : (trail? id ts).isSome = true ↔ id ∈ pages.map Page.id := by
  have hwalk : (pagesOf ts).Perm pages := map_page_nodesOf ts ▸ map_page_nodesOf_perm h
  rw [← (hwalk.map Page.id).mem_iff]
  refine ⟨fun hsome => ?_, isSome_trail? ts⟩
  obtain ⟨way, hway⟩ := Option.isSome_iff_exists.mp hsome
  rw [(ofPages_eq_ok.mp h).2] at hway
  obtain ⟨hsub, -, hlast⟩ := follows_of_trail?_branches _ hway
  obtain ⟨p, hp, rfl⟩ := Option.map_eq_some_iff.mp hlast
  exact (hwalk.map Page.id).mem_iff.mpr (List.mem_map_of_mem (hsub (List.mem_of_getLast? hp)))

/-- The trail to a page is the one way down from the root to it that follows parents. -/
lemma trail?_eq_some_iff :
    trail? id ts = some way ↔
      way ⊆ pages ∧ Follows rootId way ∧ way.getLast?.map Page.id = some id := by
  obtain ⟨hids, -, -⟩ := check_of_ofPages h
  have hfollows : ∀ {way : List Page}, trail? id ts = some way →
      way ⊆ pages ∧ Follows rootId way ∧ way.getLast?.map Page.id = some id := by
    intro way hway
    rw [(ofPages_eq_ok.mp h).2] at hway
    exact follows_of_trail?_branches _ hway
  refine ⟨hfollows, fun ⟨hsub, hway, hlast⟩ => ?_⟩
  obtain ⟨p, hp, rfl⟩ := Option.map_eq_some_iff.mp hlast
  have hmem : p.id ∈ pages.map Page.id := List.mem_map_of_mem (hsub (List.mem_of_getLast? hp))
  obtain ⟨found, hfound⟩ := Option.isSome_iff_exists.mp ((isSome_trail?_iff h).mpr hmem)
  obtain ⟨hsub', hway', hlast'⟩ := hfollows hfound
  obtain ⟨q, hq, hid⟩ := Option.map_eq_some_iff.mp hlast'
  obtain ⟨front, rfl⟩ := List.getLast?_eq_some_iff.mp hp
  obtain ⟨front', rfl⟩ := List.getLast?_eq_some_iff.mp hq
  have hsame : q = p :=
    List.inj_on_of_nodup_map hids.2 (hsub' (by simp)) (hsub (by simp)) hid
  subst hsame
  rw [hfound, Follows.unique hids (fun r hr => hsub' (by simp [hr])) (fun r hr => hsub (by simp [hr]))
    hway' hway]

/-- A node is found by the identifier of its page, and nothing else is found. -/
lemma node?_eq_some_iff {t : Tree} : node? id ts = some t ↔ t ∈ nodesOf ts ∧ t.page.id = id := by
  constructor
  · intro hfound
    exact ⟨List.mem_of_find?_eq_some hfound, by simpa using List.find?_some hfound⟩
  · rintro ⟨ht, rfl⟩
    have hids := ((map_page_nodesOf_perm h).map Page.id).nodup_iff.mpr (check_of_ofPages h).1.2
    rw [List.map_map] at hids
    exact find?_key_of_mem hids ht

lemma node?_eq_none_iff : node? id ts = none ↔ id ∉ pages.map Page.id := by
  have hwalk := ((map_page_nodesOf_perm h).map Page.id).mem_iff (a := id)
  rw [← hwalk]
  simp [node?]

end Accepted

/-- The page with an identifier is that of its node. -/
lemma find?_eq_map_node? (id : Text) (ts : List Tree) : find? id ts = (node? id ts).map page := by
  rw [find?, node?, ← map_page_nodesOf, List.find?_map]
  rfl

/-- What is found by an identifier. That of a page finds the trail to the page, the one way down
that starts at the top and follows parents, and the node of the page. Any other identifier, that of
the root included, finds neither. -/
theorem breadcrumbs_follows (h : ofPages pages = .ok ts) (id : Text) :
    (∀ p ∈ pages, p.id = id →
      (∃ front, breadcrumbs id ts = .ok (front ++ [p]) ∧ front ⊆ pages ∧
        Follows rootId (front ++ [p])) ∧
      ∃ t ∈ nodesOf ts, t.page = p ∧ node? id ts = some t ∧ find? id ts = some p) ∧
    (id ∉ pages.map Page.id →
      breadcrumbs id ts = .error ⟨id⟩ ∧ node? id ts = none ∧ find? id ts = none) ∧
    rootId ∉ pages.map Page.id := by
  obtain ⟨hids, -, -⟩ := check_of_ofPages h
  refine ⟨?_, ?_, hids.root_not_mem⟩
  · rintro p hp rfl
    constructor
    · have hsome := (isSome_trail?_iff h).mpr (List.mem_map_of_mem hp)
      obtain ⟨way, hway⟩ := Option.isSome_iff_exists.mp hsome
      obtain ⟨hsub, hfollows, hlast⟩ := (trail?_eq_some_iff h).mp hway
      obtain ⟨q, hq, hid⟩ := Option.map_eq_some_iff.mp hlast
      obtain ⟨front, rfl⟩ := List.getLast?_eq_some_iff.mp hq
      obtain ⟨hfront, hmem⟩ := List.append_subset.mp hsub
      obtain rfl : q = p := List.inj_on_of_nodup_map hids.2 (hmem List.mem_cons_self) hp hid
      exact ⟨front, by rw [breadcrumbs, hway], hfront, hfollows⟩
    · obtain ⟨t, ht, rfl⟩ := List.mem_map.mp ((map_page_nodesOf_perm h).mem_iff.mpr hp)
      have hnode := (node?_eq_some_iff h).mpr ⟨ht, rfl⟩
      exact ⟨t, ht, rfl, hnode, by rw [find?_eq_map_node?, hnode, Option.map_some]⟩
  · intro hid
    have hnode := (node?_eq_none_iff h).mpr hid
    have htrail : trail? id ts = none := by
      rw [← Option.not_isSome_iff_eq_none, isSome_trail?_iff h]
      exact hid
    exact ⟨by rw [breadcrumbs, htrail], hnode, by rw [find?_eq_map_node?, hnode, Option.map_none]⟩

/-- The page farthest down, which is listed before those above it, and the root. -/
theorem breadcrumbs_follows_sample :
    ∃ ts, ofPages sample = .ok ts ∧
      breadcrumbs "d".toList ts = .ok [sample[3], sample[1], sample[2]] ∧
      (∃ t ∈ nodesOf ts, node? "d".toList ts = some t ∧ t.page.title = "last".toList) ∧
      breadcrumbs rootId ts = .error ⟨rootId⟩ ∧ node? rootId ts = none := by
  have hts : ofPages sample = .ok (branches sample sample.length rootId) :=
    ofPages_eq_ok.mpr ⟨rfl, rfl⟩
  obtain ⟨⟨front, hway, hsub, hfollows⟩, t, ht, hpage, hnode, -⟩ :=
    (breadcrumbs_follows hts "d".toList).1 sample[2] (by decide) rfl
  obtain ⟨-, hother, hroot⟩ := breadcrumbs_follows hts rootId
  obtain ⟨htrail, hnone, -⟩ := hother hroot
  have hfront : front = [sample[3], sample[1]] :=
    Follows.unique (check_of_ofPages hts).1 hsub (by decide) hfollows ⟨rfl, rfl, rfl, trivial⟩
  subst hfront
  exact ⟨_, hts, hway, ⟨t, ht, hnode, by rw [hpage]; rfl⟩, htrail, hnone⟩

end Sitewright.Tree
