import Sitewright.Page

/-!
The pages above a page. Pages make a tree when their identifiers are distinct, every parent is a
page or the root, and following parents always comes to the root. The check of these three looks
up no identifier in vain, and every way up that it follows ends.
-/
namespace Sitewright.Lineage

/-- Checks the identifiers of pages, given those of the pages before them. -/
def checkIds (before : List Text) : List Page → Except PageFault Unit
  | [] => .ok ()
  | p :: ps => do
    Page.checkId p.id
    if before.contains p.id then throw (.duplicate p.id none)
    checkIds (p.id :: before) ps

/-- Is the parent the root or one of the pages? -/
def hasParent (pages : List Page) (p : Page) : Bool :=
  p.parent = rootId || pages.any fun q => q.id = p.parent

def checkParents (pages : List Page) : Except PageFault Unit :=
  match pages.find? fun p => !hasParent pages p with
  | some p => .error (.orphan p.id p.parent)
  | none => .ok ()

def parent? (pages : List Page) (id : Text) : Option Text :=
  (pages.find? fun p => p.id = id).map Page.parent

/-- How following parents ends. -/
inductive Ascent where
  /-- At the root or at a settled page; the pages on the way, the last one first. -/
  | arrived (chain : List Text)
  /-- At a page that comes again; the pages from its first visit to its second one. -/
  | cycle (loop : List Text)
  /-- At an identifier that no page has. -/
  | unknown (id : Text)
  /-- Not at all within the steps allowed. -/
  | endless

/-- Follows parents from an identifier, given the pages on the way so far, the last one first. -/
def ascend (pages : List Page) (settled : List Text) : Nat → List Text → Text → Ascent
  | 0, _, _ => .endless
  | steps + 1, chain, id =>
    if id = rootId || settled.contains id then .arrived chain
    else if chain.contains id then .cycle (chain.reverse.dropWhile (· ≠ id) ++ [id])
    else match parent? pages id with
      | none => .unknown id
      | some parent => ascend pages settled steps (id :: chain) parent

/-- Why pages fail the check. -/
inductive Failure where
  | invalid (fault : PageFault)
  /-- An identifier was looked up that no page has. -/
  | unknown (id : Text)
  /-- A way up did not end. -/
  | endless

/-- Checks that no parents form a cycle, from each page in turn. A way up passes every page at most
once and then comes to the root, so one step more than there are pages is enough for it. -/
def checkCycles (pages : List Page) (settled : List Text) : List Page → Except Failure Unit
  | [] => .ok ()
  | p :: ps =>
    match ascend pages settled (pages.length + 1) [] p.id with
    | .arrived chain => checkCycles pages (chain ++ settled) ps
    | .cycle loop => .error (.invalid (.cycle loop))
    | .unknown id => .error (.unknown id)
    | .endless => .error .endless

/-- Checks that the pages form a tree. -/
def check (pages : List Page) : Except Failure Unit :=
  match checkIds [] pages with
  | .error fault => .error (.invalid fault)
  | .ok () =>
    match checkParents pages with
    | .error fault => .error (.invalid fault)
    | .ok () => checkCycles pages [] pages

/-- Every parent is the root or a page. -/
def Closed (pages : List Page) : Prop :=
  ∀ p ∈ pages, p.parent = rootId ∨ p.parent ∈ pages.map Page.id

theorem hasParent_iff {pages : List Page} {p : Page} :
    hasParent pages p = true ↔ p.parent = rootId ∨ p.parent ∈ pages.map Page.id := by
  simp [hasParent]

theorem checkParents_eq_ok {pages : List Page} : checkParents pages = .ok () ↔ Closed pages := by
  unfold checkParents Closed
  simp only [← hasParent_iff]
  split
  · rename_i p hp
    have hm := List.mem_of_find?_eq_some hp
    have hn := List.find?_some hp
    constructor
    · intro h; cases h
    · intro h; simp [h p hm] at hn
  · rename_i hnone
    simpa using List.find?_eq_none.mp hnone

theorem parent?_eq_some {pages : List Page} {id parent : Text} (h : parent? pages id = some parent) :
    ∃ p ∈ pages, p.id = id ∧ p.parent = parent := by
  obtain ⟨p, hp, rfl⟩ := Option.map_eq_some_iff.mp h
  exact ⟨p, List.mem_of_find?_eq_some hp, by simpa using List.find?_some hp, rfl⟩

theorem parent?_eq_none {pages : List Page} {id : Text} :
    parent? pages id = none ↔ id ∉ pages.map Page.id := by
  simp [parent?]

/-- The chain of pages on a way up from a start that has come to an identifier: each is a page, and
its parent comes next. -/
inductive Way (pages : List Page) (start : Text) : List Text → Text → Prop
  | here : Way pages start [] start
  | up {chain : List Text} {id parent : Text} (below : Way pages start chain id)
      (step : parent? pages id = some parent) : Way pages start (id :: chain) parent

theorem Way.subset {pages : List Page} {start id : Text} {chain : List Text}
    (h : Way pages start chain id) : chain ⊆ pages.map Page.id := by
  induction h with
  | here => simp
  | up below step ih =>
    obtain ⟨p, hp, rfl, -⟩ := parent?_eq_some step
    exact List.cons_subset.mpr ⟨List.mem_map_of_mem hp, ih⟩

/-- What the ending of a way up from a start says about the pages. -/
def Ascent.Holds (pages : List Page) (settled : List Text) (start : Text) : Ascent → Prop
  | .arrived chain => ∃ top, Way pages start chain top ∧ (top = rootId ∨ top ∈ settled)
  | .cycle loop => ∃ chain id, Way pages start chain id ∧ chain.Nodup ∧ id ∈ chain ∧
      loop = chain.reverse.dropWhile (· ≠ id) ++ [id]
  | .unknown id => id ∉ pages.map Page.id
  | .endless => ∃ chain top, Way pages start chain top ∧ chain.Nodup ∧
      pages.length < chain.length

/-- The loop keeps the chain a way up without repetition, whatever its ending. -/
theorem ascend_holds (pages : List Page) (settled : List Text) (start : Text) (steps : Nat)
    (chain : List Text) (id : Text) (hway : Way pages start chain id) (hnodup : chain.Nodup)
    (hsteps : pages.length < steps + chain.length) :
    (ascend pages settled steps chain id).Holds pages settled start := by
  induction steps generalizing chain id with
  | zero => exact ⟨chain, id, hway, hnodup, by omega⟩
  | succ steps ih =>
    unfold ascend
    split
    · rename_i hend
      exact ⟨id, hway, by simpa using hend⟩
    · rename_i hend
      split
      · rename_i hagain
        exact ⟨chain, id, hway, hnodup, by simpa using hagain, rfl⟩
      · rename_i hnew
        split
        · rename_i hnone
          exact parent?_eq_none.mp hnone
        · rename_i parent hstep
          apply ih _ _ (.up hway hstep)
          · exact List.nodup_cons.mpr ⟨by simpa using hnew, hnodup⟩
          · simp only [List.length_cons]; omega

/-- A chain without repetition is no longer than the list of pages. -/
theorem ascend_ne_endless (pages : List Page) (settled : List Text) (id : Text) :
    ascend pages settled (pages.length + 1) [] id ≠ .endless := by
  intro h
  have hh := ascend_holds pages settled id (pages.length + 1) [] id .here List.nodup_nil (by simp)
  rw [h] at hh
  obtain ⟨chain, top, hway, hnodup, hlength⟩ := hh
  have hle := hnodup.length_le_of_subset hway.subset
  rw [List.length_map] at hle
  omega

/-- Every parent that is looked up is known. -/
theorem ascend_ne_unknown {pages : List Page} (hclosed : Closed pages) (settled : List Text)
    (steps : Nat) (chain : List Text) (id lost : Text)
    (hid : id = rootId ∨ id ∈ pages.map Page.id) :
    ascend pages settled steps chain id ≠ .unknown lost := by
  induction steps generalizing chain id with
  | zero => simp [ascend]
  | succ steps ih =>
    unfold ascend
    split
    · simp
    · rename_i hend
      split
      · simp
      · split
        · rename_i hnone
          have hroot : id ≠ rootId := by simp_all
          exact absurd (hid.resolve_left hroot) (parent?_eq_none.mp hnone)
        · rename_i parent hstep
          obtain ⟨p, hp, -, rfl⟩ := parent?_eq_some hstep
          exact ih _ _ (hclosed p hp)

theorem checkCycles_invalid {pages : List Page} (hclosed : Closed pages) (settled : List Text)
    (ps : List Page) (hps : ps ⊆ pages) {e : Failure} (h : checkCycles pages settled ps = .error e) :
    ∃ loop, e = .invalid (.cycle loop) := by
  induction ps generalizing settled with
  | nil => cases h
  | cons p ps ih =>
    obtain ⟨hp, hps⟩ := List.cons_subset.mp hps
    unfold checkCycles at h
    split at h
    · exact ih _ hps h
    · rename_i loop _
      exact ⟨loop, by cases h; rfl⟩
    · rename_i lost hlost
      exact absurd hlost (ascend_ne_unknown hclosed _ _ _ _ _ (.inr (List.mem_map_of_mem hp)))
    · rename_i hendless
      exact absurd hendless (ascend_ne_endless pages settled p.id)

/-- The check looks up no identifier in vain and always ends: it only fails for a fault of the
pages. -/
theorem check_invalid {pages : List Page} {e : Failure} (h : check pages = .error e) :
    ∃ fault, e = .invalid fault := by
  unfold check at h
  split at h
  · rename_i fault _
    exact ⟨fault, by cases h; rfl⟩
  · split at h
    · rename_i fault _
      exact ⟨fault, by cases h; rfl⟩
    · rename_i hparents
      obtain ⟨loop, rfl⟩ := checkCycles_invalid (checkParents_eq_ok.mp hparents) _ _ (by simp) h
      exact ⟨_, rfl⟩

/-- The fault of pages that fail the check for a fault of theirs. -/
def Failure.fault : (e : Failure) → (∃ fault, e = .invalid fault) → PageFault
  | .invalid fault, _ => fault
  | .unknown _, h => absurd h (by simp)
  | .endless, h => absurd h (by simp)

end Sitewright.Lineage
