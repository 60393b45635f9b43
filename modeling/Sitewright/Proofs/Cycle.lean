import Mathlib.Data.List.Chain
import Sitewright.Proofs.Tree

/-!
Cycles of parents. The walk up from a page may start on a tail that leads into a cycle, and earlier
walks may have settled other pages; what it cuts out of its chain is one round of the cycle alone.
-/
namespace Sitewright

namespace Lineage

/-- A page with the first identifier names the second one as its parent. -/
def Names (pages : List Page) (id parent : Text) : Prop :=
  ∃ p ∈ pages, p.id = id ∧ p.parent = parent

/-- One round of a cycle: pages of different identifiers, each of which names the next one as its
parent, and the last one the first. -/
structure IsRound (pages : List Page) (first : Text) (others : List Text) : Prop where
  nodup : (first :: others).Nodup
  steps : (first :: others ++ [first]).IsChain (Names pages)

variable {pages : List Page} {start id first : Text} {chain others loop : List Text}

lemma Names.mem {parent : Text} (h : Names pages id parent) : id ∈ pages.map Page.id := by
  obtain ⟨p, hp, rfl, -⟩ := h
  exact List.mem_map_of_mem hp

/-- A way up, read from its start, follows parents. -/
lemma Way.isChain (h : Way pages start chain id) :
    (chain.reverse ++ [id]).IsChain (Names pages) := by
  induction h with
  | here => exact .singleton start
  | @up chain id parent below step ih =>
    rw [List.reverse_cons, List.append_assoc, List.singleton_append, List.isChain_split]
    exact ⟨ih, List.isChain_pair.mpr (parent?_eq_some step)⟩

/-- From the first visit of the page that comes again, the way is one round of a cycle. -/
lemma Way.isRound (h : Way pages start chain first) (hnodup : chain.Nodup) (hagain : first ∈ chain) :
    ∃ others, chain.reverse.dropWhile (· ≠ first) ++ [first] = first :: others ++ [first] ∧
      IsRound pages first others := by
  obtain ⟨tail, others, hsplit, hnew⟩ := List.eq_append_cons_of_mem (List.mem_reverse.mpr hagain)
  have hcut : chain.reverse.dropWhile (· ≠ first) = first :: others := by
    rw [hsplit, List.dropWhile_append_of_pos, List.dropWhile_cons_of_neg (by simp)]
    intro c hc
    have hne : c ≠ first := fun he => hnew (he ▸ hc)
    simpa using hne
  have hway := h.isChain
  have hdiffer : chain.reverse.Nodup := List.nodup_reverse.mpr hnodup
  rw [hsplit] at hway hdiffer
  rw [List.append_assoc, List.cons_append, List.isChain_split] at hway
  refine ⟨others, by rw [hcut], ⟨?_, hway.2⟩⟩
  exact (List.nodup_append.mp hdiffer).2.1

/-- Following parents from any page of a round comes back to that page. -/
lemma IsRound.returns (h : IsRound pages first others) (hid : id ∈ first :: others) :
    Relation.TransGen (Names pages) id id := by
  have hpairs : (first :: others ++ [first]).Pairwise (Relation.TransGen (Names pages)) :=
    (h.steps.imp fun _ _ => .single).pairwise
  have hdown : ∀ c ∈ first :: others, Relation.TransGen (Names pages) c first := by
    intro c hc
    exact (List.pairwise_append.mp hpairs).2.2 c hc first List.mem_cons_self
  rcases List.mem_cons.mp hid with rfl | hother
  · exact hdown id hid
  · have hup : Relation.TransGen (Names pages) first id :=
      List.rel_of_pairwise_cons hpairs (List.mem_append_left _ hother)
    exact (hdown id hid).trans hup

lemma IsRound.mem (h : IsRound pages first others) (hid : id ∈ first :: others) :
    id ∈ pages.map Page.id := by
  obtain ⟨parent, hnames, -⟩ := Relation.TransGen.head'_iff.mp (h.returns hid)
  exact hnames.mem

end Lineage

namespace Tree
open Lineage

variable {pages : List Page} {loop : List Text}

/-- What is reported of pages whose parents form a cycle: the identifiers along one round of it, up
to the first one again, which is the page to blame. A page that leads into a cycle without coming
back to itself is never among them. -/
theorem ofPages_round (h : ofPages pages = .error (.cycle loop)) :
    (pages.map Page.id).Nodup ∧
    ∃ first others, loop = first :: others ++ [first] ∧ IsRound pages first others ∧
      (∀ id ∈ loop, id ∈ pages.map Page.id ∧ Relation.TransGen (Names pages) id id) ∧
      (PageFault.cycle loop).id? = some first ∧
      (PageFault.cycle loop).message = "Circular parent reference: ".toList ++
        Text.join " -> ".toList (first :: others ++ [first]) := by
  have hcheck := ofPages_eq_error.mp h
  have houtcome := check_outcome pages
  rw [hcheck] at houtcome
  obtain ⟨hids, hclosed⟩ : IdsValid pages ∧ Closed pages := by
    cases houtcome with
    | ids fault hkind _ => cases hkind
    | cycle _ hids hclosed _ => exact ⟨hids, hclosed⟩
  have hcycles : checkCycles pages [] pages = .error (.invalid (.cycle loop)) := by
    unfold check at hcheck
    rwa [checkIds_eq_ok.mpr ⟨hids, by simp⟩, checkParents_eq_ok.mpr hclosed] at hcheck
  obtain ⟨start, chain, first, hway, hnodup, hagain, rfl⟩ := checkCycles_way hcycles
  obtain ⟨others, hloop, hround⟩ := hway.isRound hnodup hagain
  have hlast : (first :: others ++ [first]).getLast? = some first := List.getLast?_concat
  rw [hloop]
  refine ⟨hids.2, first, others, rfl, hround, ?_, hlast, rfl⟩
  intro id hid
  have hmem : id ∈ first :: others := by
    simpa [or_comm, or_assoc] using hid
  exact ⟨hround.mem hmem, hround.returns hmem⟩

/-- A page at the top, one that leads into a cycle, and the two on the cycle. -/
def tailed : List Page := [
  { id := "top".toList },
  { id := "tail".toList, parent := "a".toList },
  { id := "a".toList, parent := "b".toList },
  { id := "b".toList, parent := "a".toList }]

theorem ofPages_round_tailed :
    ∃ loop, ofPages tailed = .error (.cycle loop) ∧
      (∃ first others, loop = first :: others ++ [first] ∧ IsRound tailed first others) ∧
      (PageFault.cycle loop).message = "Circular parent reference: a -> b -> a".toList := by
  have h : ofPages tailed = .error (.cycle ["a".toList, "b".toList, "a".toList]) :=
    ofPages_eq_error.mpr rfl
  obtain ⟨-, first, others, hloop, hround, -, -, hmessage⟩ := ofPages_round h
  refine ⟨_, h, ⟨first, others, hloop, hround⟩, ?_⟩
  rw [hmessage, ← hloop]
  rfl

end Tree
end Sitewright
