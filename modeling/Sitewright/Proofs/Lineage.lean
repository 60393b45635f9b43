import Mathlib.Data.List.Nodup
import Sitewright.Lineage
import Sitewright.Proofs.Association

/-!
What the check of a lineage decides. Identifiers are looked at first, then parents, then the ways
up; a way up from a page either comes to the root or into a cycle, and settled pages, those that
an earlier way up passed, all reach the root.
-/
namespace Sitewright.Lineage

/-- The identifier so many parents above another one. -/
def above (pages : List Page) : ℕ → Text → Option Text
  | 0, id => some id
  | n + 1, id => (parent? pages id).bind (above pages n)

/-- Following parents from an identifier comes to the root. -/
def ReachesRoot (pages : List Page) (id : Text) : Prop := ∃ n, above pages n id = some rootId

/-- Every identifier is one that pages may have, and no two pages share one. -/
def IdsValid (pages : List Page) : Prop :=
  (∀ p ∈ pages, Page.checkId p.id = .ok ()) ∧ (pages.map Page.id).Nodup

/-- A fault of an identifier by itself or beside those listed before it. -/
inductive IsIdFault : PageFault → Prop
  | badId (id : Text) : IsIdFault (.badId id)
  | reservedId (id : Text) : IsIdFault (.reservedId id)
  | duplicate (id : Text) (first : Option Text) : IsIdFault (.duplicate id first)

section Above

variable {pages : List Page}

lemma above_add (m n : ℕ) (id : Text) :
    above pages (m + n) id = (above pages m id).bind (above pages n) := by
  induction m generalizing id with
  | zero => simp [above]
  | succ m ih =>
    rw [Nat.succ_add]
    simp only [above, Option.bind_assoc]
    congr 1
    funext parent
    exact ih parent

lemma above_succ_of_step {id parent : Text} (h : parent? pages id = some parent) (n : ℕ) :
    above pages (n + 1) id = above pages n parent := by simp [above, h]

lemma above_succ_last (n : ℕ) (id : Text) :
    above pages (n + 1) id = (above pages n id).bind (parent? pages) := by
  rw [above_add]
  congr 1
  funext a
  cases h : parent? pages a <;> simp [above, h]

/-- Where identifiers are distinct, each finds its page. -/
lemma find?_of_mem (hnodup : (pages.map Page.id).Nodup) {p : Page} (hp : p ∈ pages) :
    (pages.find? fun q => q.id = p.id) = some p :=
  find?_key_of_mem hnodup hp

lemma parent?_of_mem (hnodup : (pages.map Page.id).Nodup) {p : Page} (hp : p ∈ pages) :
    parent? pages p.id = some p.parent := by
  rw [parent?, find?_of_mem hnodup hp]
  rfl

/-- Nothing is above the root, so the way from a page to the root has one length. -/
lemma above_root_unique (hroot : rootId ∉ pages.map Page.id) {m n : ℕ} {id : Text}
    (hm : above pages m id = some rootId) (hn : above pages n id = some rootId) : m = n := by
  have hnone : ∀ k, above pages (k + 1) rootId = none := fun k => by
    simp [above, parent?_eq_none.mpr hroot]
  have hbelow : ∀ {a b : ℕ}, above pages a id = some rootId → above pages b id = some rootId →
      b ≤ a := by
    intro a b ha hb
    by_contra hlt
    obtain ⟨k, rfl⟩ := Nat.exists_eq_add_of_lt (Nat.lt_of_not_le hlt)
    rw [Nat.add_assoc, above_add, ha, Option.bind_some, hnone] at hb
    cases hb
  exact Nat.le_antisymm (hbelow hn hm) (hbelow hm hn)

lemma Way.leads {start id : Text} {chain : List Text} (h : Way pages start chain id) :
    ∀ c ∈ chain, ∃ k, above pages (k + 1) c = some id := by
  induction h with
  | here => simp
  | @up chain id parent below step ih =>
    intro c hc
    rcases List.mem_cons.mp hc with rfl | hc
    · exact ⟨0, by simp [above, step]⟩
    · obtain ⟨k, hk⟩ := ih c hc
      exact ⟨k + 1, by rw [above_succ_last, hk, Option.bind_some, step]⟩

/-- Where a way up comes to an identifier that reaches the root, every page on it does. -/
lemma Way.reachesRoot {start id : Text} {chain : List Text} (h : Way pages start chain id)
    (hid : ReachesRoot pages id) : ∀ c ∈ chain, ReachesRoot pages c := by
  intro c hc
  obtain ⟨k, hk⟩ := h.leads c hc
  obtain ⟨n, hn⟩ := hid
  exact ⟨k + 1 + n, by rw [above_add, hk, Option.bind_some, hn]⟩

lemma Way.start_mem {start id : Text} {chain : List Text} (h : Way pages start chain id) :
    start = id ∨ start ∈ chain := by
  induction h with
  | here => exact .inl rfl
  | up below step ih =>
    rcases ih with rfl | hm
    · exact .inr (by simp)
    · exact .inr (List.mem_cons_of_mem _ hm)

/-- A page that is above itself never comes to the root. -/
lemma not_reachesRoot_of_cycle (hroot : rootId ∉ pages.map Page.id) {id : Text} {k : ℕ}
    (h : above pages (k + 1) id = some id) : ¬ ReachesRoot pages id := by
  rintro ⟨n, hn⟩
  have hagain : above pages (k + 1 + n) id = some rootId := by
    rw [above_add, h, Option.bind_some, hn]
  have := above_root_unique hroot hn hagain
  omega

section Appending

variable {more : List Page} {id : Text}

/-- More pages below do not change what is above a page. -/
lemma parent?_append {parent : Text} (h : parent? pages id = some parent) :
    parent? (pages ++ more) id = some parent := by
  obtain ⟨p, hp, rfl⟩ := Option.map_eq_some_iff.mp h
  rw [parent?, List.find?_append, hp]
  rfl

lemma above_append {n : ℕ} {top : Text} (h : above pages n id = some top) :
    above (pages ++ more) n id = some top := by
  induction n generalizing id with
  | zero => exact h
  | succ n ih =>
    obtain ⟨parent, hparent, hrest⟩ := Option.bind_eq_some_iff.mp h
    exact Option.bind_eq_some_iff.mpr ⟨parent, parent?_append hparent, ih hrest⟩

lemma ReachesRoot.append (h : ReachesRoot pages id) : ReachesRoot (pages ++ more) id := by
  obtain ⟨n, hn⟩ := h
  exact ⟨n, above_append hn⟩

end Appending

end Above

section Ids

lemma checkId_error {id : Text} {fault : PageFault} (h : Page.checkId id = .error fault) :
    IsIdFault fault := by
  unfold Page.checkId at h
  split at h
  · cases h; exact .badId id
  · split at h
    · cases h; exact .reservedId id
    · cases h

lemma checkId_root : Page.checkId rootId ≠ .ok () := by
  unfold Page.checkId
  split <;> simp

lemma checkIds_cons (before : List Text) (p : Page) (ps : List Page) :
    checkIds before (p :: ps) = match Page.checkId p.id with
      | .error fault => .error fault
      | .ok () => if p.id ∈ before then .error (.duplicate p.id none)
          else checkIds (p.id :: before) ps := by
  rw [checkIds]
  cases Page.checkId p.id with
  | error fault => rfl
  | ok u =>
    by_cases h : p.id ∈ before
    · simp [bind, Except.bind, h, throw, throwThe, MonadExceptOf.throw]
    · simp [bind, Except.bind, h]

lemma checkIds_error {before : List Text} {ps : List Page} {fault : PageFault}
    (h : checkIds before ps = .error fault) : IsIdFault fault := by
  induction ps generalizing before with
  | nil => cases h
  | cons p ps ih =>
    rw [checkIds_cons] at h
    split at h
    · rename_i fault' hid
      cases h
      exact checkId_error hid
    · split at h
      · cases h; exact .duplicate p.id none
      · exact ih h

lemma checkIds_eq_ok {before : List Text} {ps : List Page} :
    checkIds before ps = .ok () ↔ IdsValid ps ∧ ∀ p ∈ ps, p.id ∉ before := by
  induction ps generalizing before with
  | nil => simp [checkIds, IdsValid]
  | cons p ps ih =>
    rw [checkIds_cons]
    cases hid : Page.checkId p.id with
    | error fault => simp [IdsValid, hid]
    | ok u =>
      by_cases hb : p.id ∈ before
      · simp [hb]
      · simp only [hb, if_false, ih, IdsValid, List.mem_cons, not_or, List.map_cons,
          List.nodup_cons, List.mem_map, forall_eq_or_imp, hid]
        constructor
        · rintro ⟨⟨hids, hnodup⟩, hnew⟩
          refine ⟨⟨⟨trivial, hids⟩, ?_, hnodup⟩, by simp, fun q hq => (hnew q hq).2⟩
          rintro ⟨q, hq, he⟩
          exact (hnew q hq).1 he
        · rintro ⟨⟨⟨-, hids⟩, hne, hnodup⟩, -, hnew⟩
          exact ⟨⟨hids, hnodup⟩, fun q hq => ⟨fun he => hne ⟨q, hq, he⟩, hnew q hq⟩⟩

/-- The root is no page. -/
lemma IdsValid.root_not_mem {pages : List Page} (h : IdsValid pages) :
    rootId ∉ pages.map Page.id := by
  intro hm
  obtain ⟨p, hp, he⟩ := List.mem_map.mp hm
  exact checkId_root (he ▸ h.1 p hp)

end Ids

section Cycles

variable {pages : List Page} {settled : List Text}

lemma ascend_arrived {start : Text} {chain : List Text}
    (hsettled : ∀ s ∈ settled, ReachesRoot pages s)
    (h : ascend pages settled (pages.length + 1) [] start = .arrived chain) :
    ReachesRoot pages start ∧ ∀ c ∈ chain, ReachesRoot pages c := by
  have hh := ascend_holds pages settled start (pages.length + 1) [] start .here List.nodup_nil
    (by simp)
  rw [h] at hh
  obtain ⟨top, hway, htop⟩ := hh
  have hreach : ReachesRoot pages top := by
    rcases htop with rfl | hm
    · exact ⟨0, rfl⟩
    · exact hsettled top hm
  have hchain := hway.reachesRoot hreach
  refine ⟨?_, hchain⟩
  rcases hway.start_mem with rfl | hm
  · exact hreach
  · exact hchain start hm

/-- Settled pages all reach the root, before a way up and after it. -/
lemma checkCycles_ok {ps : List Page} (hsettled : ∀ s ∈ settled, ReachesRoot pages s)
    (h : checkCycles pages settled ps = .ok ()) : ∀ p ∈ ps, ReachesRoot pages p.id := by
  induction ps generalizing settled with
  | nil => simp
  | cons p ps ih =>
    unfold checkCycles at h
    split at h
    · rename_i chain harrived
      obtain ⟨hstart, hchain⟩ := ascend_arrived hsettled harrived
      have hsettled' : ∀ s ∈ chain ++ settled, ReachesRoot pages s := by
        intro s hs
        exact (List.mem_append.mp hs).elim (hchain s) (hsettled s)
      exact List.forall_mem_cons.mpr ⟨hstart, ih hsettled' h⟩
    all_goals cases h

lemma checkCycles_way {ps : List Page} {loop : List Text}
    (h : checkCycles pages settled ps = .error (.invalid (.cycle loop))) :
    ∃ start chain id, Way pages start chain id ∧ chain.Nodup ∧ id ∈ chain ∧
      loop = chain.reverse.dropWhile (· ≠ id) ++ [id] := by
  induction ps generalizing settled with
  | nil => cases h
  | cons p ps ih =>
    unfold checkCycles at h
    split at h
    · exact ih h
    · rename_i loop' hcycle
      cases h
      have hholds := ascend_holds pages settled p.id (pages.length + 1) [] p.id .here List.nodup_nil
        (by simp)
      rw [hcycle] at hholds
      exact ⟨p.id, hholds⟩
    all_goals cases h

/-- A cycle ends with a page that is above itself. -/
lemma checkCycles_cycle {ps : List Page} {loop : List Text}
    (h : checkCycles pages settled ps = .error (.invalid (.cycle loop))) :
    ∃ p ∈ pages, loop.getLast? = some p.id ∧ ∃ k, above pages (k + 1) p.id = some p.id := by
  obtain ⟨start, chain, id, hway, -, hid, rfl⟩ := checkCycles_way h
  obtain ⟨p, hp, rfl⟩ := List.mem_map.mp (hway.subset hid)
  exact ⟨p, hp, List.getLast?_concat, hway.leads p.id hid⟩

end Cycles

/-- The outcomes of the check. -/
inductive Outcome (pages : List Page) : Except Failure Unit → Prop
  | tree (ids : IdsValid pages) (closed : Closed pages)
      (reach : ∀ p ∈ pages, ReachesRoot pages p.id) : Outcome pages (.ok ())
  | ids (fault : PageFault) (kind : IsIdFault fault) (ids : ¬ IdsValid pages) :
      Outcome pages (.error (.invalid fault))
  | orphan (id parent : Text) (ids : IdsValid pages) (closed : ¬ Closed pages) :
      Outcome pages (.error (.invalid (.orphan id parent)))
  | cycle (loop : List Text) (ids : IdsValid pages) (closed : Closed pages)
      (reach : ¬ ∀ p ∈ pages, ReachesRoot pages p.id) :
      Outcome pages (.error (.invalid (.cycle loop)))

theorem check_outcome (pages : List Page) : Outcome pages (check pages) := by
  unfold check
  cases hids : checkIds [] pages with
  | error fault =>
    refine .ids fault (checkIds_error hids) fun hvalid => ?_
    rw [checkIds_eq_ok.mpr ⟨hvalid, by simp⟩] at hids
    cases hids
  | ok u =>
    have hvalid : IdsValid pages := (checkIds_eq_ok.mp hids).1
    cases hparents : checkParents pages with
    | error fault =>
      have hopen : ¬ Closed pages := fun hclosed => by
        rw [checkParents_eq_ok.mpr hclosed] at hparents
        cases hparents
      unfold checkParents at hparents
      split at hparents
      · rename_i p _
        cases hparents
        exact .orphan p.id p.parent hvalid hopen
      · cases hparents
    | ok u =>
      have hclosed := checkParents_eq_ok.mp hparents
      cases hcycles : checkCycles pages [] pages with
      | error e =>
        obtain ⟨loop, rfl⟩ := checkCycles_invalid hclosed [] pages (by simp) hcycles
        obtain ⟨p, hp, -, k, hk⟩ := checkCycles_cycle hcycles
        exact .cycle loop hvalid hclosed fun hall =>
          not_reachesRoot_of_cycle hvalid.root_not_mem hk (hall p hp)
      | ok u => exact .tree hvalid hclosed (checkCycles_ok (by simp) hcycles)

end Sitewright.Lineage
