import Mathlib.Data.List.Basic
import Sitewright.Yaml.Node

/-!
What reading the nodes of a YAML text refuses. A text is malformed, or names a version of the language
that does not exist; there is no other error.
-/
namespace Sitewright.Yaml

/-- A directive names a version that does not exist. -/
def IsUnknown (version : Option (Nat × Nat)) : Prop :=
  ∃ v, version = some v ∧ v ≠ (1, 1) ∧ v ≠ (1, 2)

namespace Node

/-- A reader refuses a text only as malformed or for an unknown version, and never changes the
version. -/
def Refuses {α : Type} (m : Reader α) : Prop :=
  ∀ r, match m r with
    | .error e => e = .malformed ∨ e = .unknownVersion ∧ IsUnknown r.version
    | .ok (_, r') => r'.version = r.version

section Refuses

variable {α β : Type}

lemma Refuses.pure (a : α) : Refuses (Pure.pure a : Reader α) := fun _ => rfl

lemma Refuses.fail : Refuses (fail : Reader α) := fun _ => .inl rfl

lemma Refuses.get : Refuses (MonadState.get : Reader Reading) := fun _ => rfl

lemma Refuses.modify {f : Reading → Reading} (h : ∀ r, (f r).version = r.version) :
    Refuses (modify f : Reader Unit) := h

lemma Refuses.bind {m : Reader α} {f : α → Reader β} (hm : Refuses m) (hf : ∀ a, Refuses (f a)) :
    Refuses (m >>= f) := by
  intro r
  have hm := hm r
  rw [show (m >>= f) r = (m r >>= fun p => f p.1 p.2) from rfl]
  cases hrun : m r with
  | error e =>
    rw [hrun] at hm
    exact hm
  | ok p =>
    rw [hrun] at hm
    have hf := hf p.1 p.2
    replace hm : p.2.version = r.version := hm
    rw [hm] at hf
    exact hf

lemma Refuses.map {m : Reader α} {f : α → β} (hm : Refuses m) : Refuses (f <$> m) := by
  rw [map_eq_pure_bind]
  exact hm.bind fun a => .pure (f a)

end Refuses

section Leaves

lemma refuses_peek : Refuses peek := Refuses.get.bind fun _ => .pure _

lemma refuses_drop : Refuses drop := .modify fun _ => rfl

lemma refuses_older : Refuses older := Refuses.get.bind fun _ => .pure _

lemma refuses_checkVersion : Refuses checkVersion := by
  intro r
  obtain ⟨tokens, anchors, handles, version, endless⟩ := r
  cases version with
  | none => rfl
  | some v =>
    by_cases hv : v = (1, 1) ∨ v = (1, 2)
    · rcases hv with rfl | rfl <;> rfl
    · rw [not_or] at hv
      have hrun : checkVersion ⟨tokens, anchors, handles, some v, endless⟩ =
          (if v = (1, 1) || v = (1, 2) then Pure.pure () else throw .unknownVersion : Reader Unit)
            ⟨tokens, anchors, handles, some v, endless⟩ := rfl
      rw [hrun, if_neg (by simpa using hv)]
      exact .inr ⟨rfl, v, rfl, hv⟩

lemma refuses_implicitScalar (t : Text) : Refuses (implicitScalar t) :=
  refuses_checkVersion.bind fun _ => refuses_older.bind fun _ => .pure _

lemma refuses_tagName (name : TagName) : Refuses (tagName name) := by
  unfold tagName
  split
  · exact .pure _
  · refine Refuses.get.bind fun r => ?_
    split
    · exact .pure _
    · exact .fail

lemma refuses_properties : Refuses properties := by
  unfold properties
  refine refuses_peek.bind fun t => ?_
  split
  · refine refuses_drop.bind fun _ => refuses_peek.bind fun t => ?_
    split
    · exact refuses_drop.bind fun _ => (refuses_tagName _).bind fun _ => .pure _
    · exact .pure _
  · refine refuses_drop.bind fun _ => refuses_peek.bind fun t => ?_
    split
    · exact refuses_drop.bind fun _ => (refuses_tagName _).bind fun _ => .pure _
    · exact (refuses_tagName _).bind fun _ => .pure _
  · exact .pure _

lemma refuses_bind? (anchor : Option Text) (n : Option Node) : Refuses (bind? anchor n) := by
  cases anchor with
  | none => exact .pure _
  | some a => exact .modify fun _ => rfl

lemma refuses_handles (handles : List (Text × Text)) :
    Refuses (modify fun r => { r with handles } : Reader Unit) := .modify fun _ => rfl

end Leaves

/-- The readers of nodes and of what they hold, at some fuel. -/
structure AllRefuse (fuel : ℕ) : Prop where
  read : ∀ block bare, Refuses (Node.read block bare fuel)
  blockItems : Refuses (Node.blockItems fuel)
  bareItems : Refuses (Node.bareItems fuel)
  blockItem : Refuses (Node.blockItem fuel)
  blockEntries : Refuses (Node.blockEntries fuel)
  flowItems : ∀ first, Refuses (Node.flowItems first fuel)
  flowEntries : ∀ first, Refuses (Node.flowEntries first fuel)
  flowValue : Refuses (Node.flowValue fuel)

/-- Each reader is made of the ones above, bound to each other and chosen between. -/
lemma AllRefuse.succ {fuel : ℕ} (h : AllRefuse fuel) : AllRefuse (fuel + 1) := by
  constructor
  all_goals
    intros
    simp only [Node.read, Node.blockItems, Node.bareItems, Node.blockItem, Node.blockEntries,
      Node.flowItems, Node.flowEntries, Node.flowValue]
    repeat' with_reducible first
      | refine Refuses.bind ?_ fun _ => ?_
      | split
      | exact .pure _
      | exact .fail
      | exact refuses_peek
      | exact refuses_drop
      | exact refuses_older
      | exact .get
      | exact .modify fun _ => rfl
      | exact refuses_properties
      | exact refuses_implicitScalar _
      | exact refuses_bind? _ _
      | exact h.read _ _
      | exact h.blockItems
      | exact h.bareItems
      | exact h.blockItem
      | exact h.blockEntries
      | exact h.flowItems _
      | exact h.flowEntries _
      | exact h.flowValue

lemma allRefuse (fuel : ℕ) : AllRefuse fuel := by
  induction fuel with
  | zero => exact ⟨fun _ _ => .fail, .fail, .fail, .fail, .fail, fun _ => .fail, fun _ => .fail, .fail⟩
  | succ fuel ih => exact ih.succ

lemma refuses_directives (fuel : ℕ) (versioned : Bool) (handles : List (Text × Text)) :
    Refuses (directives fuel versioned handles) := by
  induction fuel generalizing versioned handles with
  | zero => exact .fail
  | succ fuel ih =>
    rw [directives]
    refine refuses_peek.bind fun t => ?_
    split
    · refine refuses_drop.bind fun _ => ?_
      split
      · exact .fail
      · exact ih _ _
    · refine refuses_drop.bind fun _ => ?_
      split
      · exact .fail
      · exact ih _ _
    · exact refuses_drop.bind fun _ => ih _ _
    · exact .pure _

lemma refuses_document (fuel : ℕ) : Refuses (document fuel) := by
  have hread : Refuses (read true false fuel) := (allRefuse fuel).read _ _
  rw [document]
  refine refuses_peek.bind fun t => ?_
  extract_lets behind
  have hbehind : ∀ node, Refuses (behind node) := by
    intro node
    refine refuses_peek.bind fun t => ?_
    split
    · refine refuses_drop.bind fun _ => refuses_peek.bind fun t => ?_
      split
      · exact .pure _
      · exact .fail
    · refine refuses_peek.bind fun t => ?_
      split
      · exact .pure _
      · exact .fail
  clear_value behind
  split
  · exact (refuses_handles _).bind fun _ => hread.map.bind hbehind
  · split
    · exact (Refuses.pure _).bind hbehind
    · refine (refuses_directives _ _ _).bind fun handles => ?_
      refine (refuses_handles _).bind fun _ => refuses_peek.bind fun t => ?_
      split
      · refine refuses_drop.bind fun _ => refuses_peek.bind fun t => ?_
        have hnode : ∀ ends : Bool, Refuses (if ends then implicitScalar [] else read true false fuel) := by
          intro ends
          split
          · exact refuses_implicitScalar _
          · exact hread
        exact (hnode _).map.bind hbehind
      · exact Refuses.fail.bind hbehind

end Node

/-- Why a text has no nodes: it is malformed, an escape in it names no character, or it names a
version that does not exist. -/
theorem Parsed.ofText_error {t : Text} {e : Error} (h : Parsed.ofText t = .error e) :
    e = .malformed ∨ e = .noSuchValue ∧ tokens t = .error .noCharacter ∨
      e = .unknownVersion ∧ ∃ ts version, tokens t = .ok (ts, version) ∧ IsUnknown version := by
  unfold Parsed.ofText at h
  split at h
  · exact .inl (Except.error.inj h).symm
  · rename_i htokens
    exact .inr (.inl ⟨(Except.error.inj h).symm, htokens⟩)
  · rename_i ts version htokens
    have hrefuses := Node.refuses_document (2 * ts.length + 8) { tokens := ts, version }
    cases hrun : Node.document (2 * ts.length + 8) { tokens := ts, version } with
    | error e' =>
      rw [hrun] at h hrefuses
      obtain rfl : e' = e := Except.error.inj h
      exact hrefuses.imp_right fun hunknown => .inr ⟨hunknown.1, ts, version, htokens, hunknown.2⟩
    | ok p =>
      rw [hrun] at h
      cases h

end Sitewright.Yaml
