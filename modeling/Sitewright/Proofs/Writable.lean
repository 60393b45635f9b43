import Mathlib.Data.List.Basic
import Sitewright.Value
import Sitewright.Proofs.Rewriting

/-!
Which values can be written as text: those that hold no integer, at any depth, with more digits than
an integer is written with.
-/
namespace Sitewright.Value

/-- The values right below a value; both the key and the value of an entry are. -/
def parts : Value → List Value
  | list items => items
  | tuple items => items
  | set items => items
  | map entries => entries.flatMap fun e => [e.1, e.2]
  | _ => []

/-- The value is the integer or holds it at some depth. -/
inductive Holds (i : Int) : Value → Prop
  | int : Holds i (.int i)
  | part {v w : Value} (mem : w ∈ v.parts) (h : Holds i w) : Holds i v

/-- The value holds an integer that is too long to be written. -/
def IsTooLong (v : Value) : Prop := ∃ i, Holds i v ∧ Nat.pow 10 Text.maxIntDigits ≤ i.natAbs

lemma isTooLong_int {i : Int} : (int i).IsTooLong ↔ Nat.pow 10 Text.maxIntDigits ≤ i.natAbs := by
  constructor
  · rintro ⟨j, h, hlong⟩
    cases h with
    | int => exact hlong
    | part mem _ => cases mem
  · exact fun hlong => ⟨i, .int, hlong⟩

lemma isTooLong_iff {v : Value} (hv : ∀ i, v ≠ int i) : v.IsTooLong ↔ ∃ w ∈ v.parts, w.IsTooLong := by
  constructor
  · rintro ⟨i, h, hlong⟩
    cases h with
    | int => exact absurd rfl (hv i)
    | part mem h => exact ⟨_, mem, i, h, hlong⟩
  · rintro ⟨w, mem, i, h, hlong⟩
    exact ⟨i, .part mem h, hlong⟩

/-- A value without parts that is no integer can be written. -/
lemma isWritable_of_parts {v : Value} (hv : ∀ i, v ≠ int i) (hparts : v.parts = [])
    (h : v.isWritable = true) : v.isWritable = false ↔ v.IsTooLong := by
  rw [h, isTooLong_iff hv, hparts]
  simp

lemma exists_isTooLong_entry {entries : List (Value × Value)} :
    (∃ e ∈ entries, e.1.IsTooLong ∨ e.2.IsTooLong) ↔ ∃ w ∈ (map entries).parts, w.IsTooLong := by
  rw [parts]
  constructor
  · rintro ⟨e, he, h | h⟩
    · exact ⟨e.1, List.mem_flatMap.mpr ⟨e, he, by simp⟩, h⟩
    · exact ⟨e.2, List.mem_flatMap.mpr ⟨e, he, by simp⟩, h⟩
  · rintro ⟨w, hw, h⟩
    obtain ⟨e, he, hw⟩ := List.mem_flatMap.mp hw
    rcases List.mem_pair.mp hw with rfl | rfl
    · exact ⟨e, he, .inl h⟩
    · exact ⟨e, he, .inr h⟩

mutual

lemma isWritable_eq_false : ∀ v : Value, v.isWritable = false ↔ v.IsTooLong
  | .int i => by rw [isWritable, decide_eq_false_iff_not, Nat.not_lt, isTooLong_int]
  | .list items => by
    rw [isWritable, areWritable_eq_false, isTooLong_iff fun _ => Value.noConfusion]
    rfl
  | .tuple items => by
    rw [isWritable, areWritable_eq_false, isTooLong_iff fun _ => Value.noConfusion]
    rfl
  | .set items => by
    rw [isWritable, areWritable_eq_false, isTooLong_iff fun _ => Value.noConfusion]
    rfl
  | .map entries => by
    rw [isWritable, areEntriesWritable_eq_false, isTooLong_iff fun _ => Value.noConfusion,
      exists_isTooLong_entry]
  | .null => isWritable_of_parts (fun _ => Value.noConfusion) rfl rfl
  | .bool b => isWritable_of_parts (fun _ => Value.noConfusion) rfl rfl
  | .float x => isWritable_of_parts (fun _ => Value.noConfusion) rfl rfl
  | .text t => isWritable_of_parts (fun _ => Value.noConfusion) rfl rfl
  | .bytes bs => isWritable_of_parts (fun _ => Value.noConfusion) rfl rfl
  | .date d => isWritable_of_parts (fun _ => Value.noConfusion) rfl rfl
  | .moment m => isWritable_of_parts (fun _ => Value.noConfusion) rfl rfl

lemma areWritable_eq_false : ∀ vs : List Value, areWritable vs = false ↔ ∃ v ∈ vs, v.IsTooLong
  | [] => by simp [areWritable]
  | v :: vs => by
    rw [areWritable, Bool.and_eq_false_iff, isWritable_eq_false v, areWritable_eq_false vs]
    simp

lemma areEntriesWritable_eq_false : ∀ es : List (Value × Value),
    areEntriesWritable es = false ↔ ∃ e ∈ es, e.1.IsTooLong ∨ e.2.IsTooLong
  | [] => by simp [areEntriesWritable]
  | e :: es => by
    rw [areEntriesWritable, Bool.and_eq_false_iff, isEntryWritable_eq_false e,
      areEntriesWritable_eq_false es]
    simp

lemma isEntryWritable_eq_false : ∀ e : Value × Value,
    isEntryWritable e = false ↔ e.1.IsTooLong ∨ e.2.IsTooLong
  | (k, v) => by
    rw [isEntryWritable, Bool.and_eq_false_iff, isWritable_eq_false k, isWritable_eq_false v]

end

lemma not_isTooLong_null : ¬ null.IsTooLong := by
  rw [← isWritable_eq_false]
  exact Bool.noConfusion

lemma stripped?_eq_none {v : Value} : v.stripped? = none ↔ v.IsTooLong := by
  rw [← isWritable_eq_false, stripped?]
  split <;> simp_all

/-- The text of a value, if it has one, has no white space at its ends. -/
lemma trimmed_of_stripped? {v : Value} {t : Text} (h : v.stripped? = some t) : Text.Trimmed t := by
  obtain ⟨-, hstrip⟩ := Option.ite_none_right_eq_some.mp h
  obtain ⟨-, -, -, htrimmed, -, -⟩ := Text.exists_strip v.shown
  exact Option.some.inj hstrip ▸ htrimmed

end Sitewright.Value
