import Sitewright.Header
import Sitewright.Proofs.Yaml.Load
import Sitewright.Proofs.Yaml.Reading

/-!
Which documents cannot be split. A header with a fault of its own is malformed, and only its document
is left out; a header that is well-formed but has a value that does not exist is no document's fault.
-/
namespace Sitewright

namespace Yaml

/-- Why a text has no value though it is well-formed. -/
inductive Stray (t : Text) : Error → Prop
  | escape (h : tokens t = .error .noCharacter) : Stray t .noSuchValue
  | version {ts version} (h : tokens t = .ok (ts, version)) (hunknown : IsUnknown version)
      (hdoc : Parsed.ofText t = .error .unknownVersion) : Stray t .unknownVersion
  | node {doc n e} (hdoc : Parsed.ofText t = .ok doc) (hroot : doc.root = some n)
      (h : Node.Stray doc.older false n e) : Stray t e
  | endless {doc n} (hdoc : Parsed.ofText t = .ok doc) (hroot : doc.root = some n)
      (h : doc.endless = true) : Stray t .endless

lemma Node.Stray.ne_malformed {older inKey : Bool} {n : Node} {e : Error}
    (h : Node.Stray older inKey n e) : e ≠ .malformed := by
  induction h with
  | scalar _ hne => exact hne
  | textOf _ _ _ hne => exact hne
  | item _ _ ih => exact ih
  | pairKey _ _ _ ih => exact ih
  | pairValue _ _ _ ih => exact ih
  | key _ _ _ _ ih => exact ih
  | value _ _ _ ih => exact ih
  | collectionKey _ _ => exact Error.noConfusion
  | repeatedKey _ _ _ _ => exact Error.noConfusion
  | listKey _ _ _ _ _ => exact Error.noConfusion

lemma Stray.ne_malformed {t : Text} {e : Error} (h : Stray t e) : e ≠ .malformed := by
  cases h with
  | escape _ => exact Error.noConfusion
  | version _ _ _ => exact Error.noConfusion
  | node _ _ h => exact h.ne_malformed
  | endless _ _ _ => exact Error.noConfusion

/-- What the text of a node has for a value once the node is known. -/
lemma load_of_root {t : Text} {doc : Parsed} {n : Node} (hdoc : Parsed.ofText t = .ok doc)
    (hroot : doc.root = some n) : load t = match n.load doc.older false with
      | .error f => .error f.error
      | .ok v => if doc.endless then .error .endless else .ok (some v) := by
  rw [load, hdoc]
  simp only [bind, Except.bind, hroot]
  rfl

lemma load_error {t : Text} {e : Error} (h : load t = .error e) : e = .malformed ∨ Stray t e := by
  cases hdoc : Parsed.ofText t with
  | error e' =>
    obtain rfl : e' = e := by
      rw [load, hdoc] at h
      exact Except.error.inj h
    rcases Parsed.ofText_error hdoc with rfl | ⟨rfl, htokens⟩ | ⟨rfl, ts, version, htokens, hunknown⟩
    · exact .inl rfl
    · exact .inr (.escape htokens)
    · exact .inr (.version htokens hunknown hdoc)
  | ok doc =>
    cases hroot : doc.root with
    | none =>
      rw [load, hdoc] at h
      simp [bind, Except.bind, hroot, pure, Except.pure] at h
    | some n =>
      rw [load_of_root hdoc hroot] at h
      split at h
      · rename_i f hf
        obtain rfl := Except.error.inj h
        exact (Node.load_blames doc.older false n f hf).imp_right (.node hdoc hroot)
      · split at h
        · rename_i hendless
          obtain rfl := Except.error.inj h
          exact .inr (.endless hdoc hroot hendless)
        · cases h

lemma Stray.not_ok {t : Text} {e : Error} (h : Stray t e) (v : Option Value) : load t ≠ .ok v := by
  intro hv
  cases h with
  | escape h =>
    have hdoc : Parsed.ofText t = .error .noSuchValue := by rw [Parsed.ofText, h]
    rw [load, hdoc] at hv
    cases hv
  | version _ _ hdoc =>
    rw [load, hdoc] at hv
    cases hv
  | node hdoc hroot h =>
    rw [load_of_root hdoc hroot] at hv
    split at hv
    · cases hv
    · rename_i v' hv'
      exact h.not_ok v' hv'
  | endless hdoc hroot h =>
    rw [load_of_root hdoc hroot, h] at hv
    split at hv <;> cases hv

end Yaml

namespace Header

lemma fields_error {t : Text} {e : HeaderError} (h : fields t = .error e) :
    e.isMalformed = true ∨ ∃ err, e = .yaml err ∧ Yaml.Stray t err := by
  unfold fields at h
  split at h
  · cases h
  · split at h
    · rename_i err herr
      obtain rfl := Except.error.inj h
      rcases Yaml.load_error herr with rfl | hstray
      · exact .inl rfl
      · exact .inr ⟨err, rfl, hstray⟩
    · cases h
    · cases h
    · cases h
    · obtain rfl := Except.error.inj h
      exact .inl rfl

lemma fields_of_stray {t : Text} {err : Yaml.Error} (hblank : Text.isBlankText t = false)
    (h : Yaml.Stray t err) : ∃ e, fields t = .error e := by
  cases hload : Yaml.load t with
  | error e => exact ⟨.yaml e, by simp [fields, hblank, hload]⟩
  | ok v => exact absurd hload (h.not_ok v)

lemma isMalformed_yaml {err : Yaml.Error} (h : err ≠ .malformed) :
    (HeaderError.yaml err).isMalformed = false := by
  cases err <;> first | rfl | exact absurd rfl h

/-- A document with a date that is in no month. -/
def noSuchDate : Text := "---\na: 2026-02-30\n---\nBody".toList

end Header

end Sitewright
