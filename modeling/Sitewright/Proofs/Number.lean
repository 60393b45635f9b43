import Mathlib.Algebra.Order.Group.Nat
import Sitewright.Text.Number

/-!
Numbers written in decimal. They are read back as they were written, with leading zeros or without.
-/
namespace Sitewright.Text

lemma digitValue?_of_isDigit {c : Char} (h : c.isDigit = true) :
    digitValue? c = some (c.toNat - 48) := by
  simp only [Char.isDigit, Bool.and_eq_true, decide_eq_true_eq, UInt32.le_iff_toNat_le] at h
  have h48 : 48 ≤ c.toNat := h.1
  have h57 : c.toNat ≤ 57 := h.2
  have h128 : c.toNat < 128 := by omega
  simp [digitValue?, h48, h57, h128]

lemma all_isDigit_ofNat (n : ℕ) : ∀ c ∈ ofNat n, c.isDigit = true := fun _ hc =>
  Nat.isDigit_of_mem_toDigits (by decide) (by decide) hc

lemma isDigit_of_mem_ofNat {n : ℕ} {c : Char} (h : c ∈ ofNat n) : isDigit c = true := by
  rw [isDigit, digitValue?_of_isDigit (all_isDigit_ofNat n c h)]
  rfl

lemma ofNat_injective {m n : ℕ} (h : ofNat m = ofNat n) : m = n := by
  have := congrArg (Nat.ofDigitChars 10 · 0) h
  simpa [ofNat, Nat.ofDigitChars_ten_toDigits] using this

lemma natOfDigits_digits {t : Text} (h : ∀ c ∈ t, c.isDigit = true) :
    natOfDigits 10 (t.filterMap digitValue?) = Nat.ofDigitChars 10 t 0 := by
  have hvalues : t.filterMap digitValue? = t.map fun c => c.toNat - 48 := by
    induction t with
    | nil => rfl
    | cons c cs ih =>
      rw [List.filterMap_cons_some (digitValue?_of_isDigit (h c List.mem_cons_self)),
        ih fun d hd => h d (List.mem_cons_of_mem c hd)]
      rfl
  rw [hvalues, natOfDigits, List.foldl_map, Nat.ofDigitChars_eq_foldl]
  have hstep : (fun (n : ℕ) (c : Char) => n * 10 + (c.toNat - 48)) =
      fun n c => 10 * n + (c.toNat - '0'.toNat) := by
    funext n c
    rw [Nat.mul_comm]
    rfl
  rw [hstep]

/-- A number is read as it was written. -/
lemma natOfDigits_ofNat (n : ℕ) : natOfDigits 10 ((ofNat n).filterMap digitValue?) = n := by
  rw [natOfDigits_digits (all_isDigit_ofNat n)]
  exact Nat.ofDigitChars_ten_toDigits

section Padded

variable {width n : ℕ}

lemma length_padLeft {c : Char} {t : Text} (h : t.length ≤ width) :
    (padLeft width c t).length = width := by
  rw [padLeft, fill, List.length_append, List.length_replicate]
  omega

lemma all_isDigit_padLeft (width n : ℕ) : ∀ c ∈ padLeft width '0' (ofNat n), c.isDigit = true := by
  intro c hc
  rcases List.mem_append.mp hc with hc | hc
  · obtain rfl := List.eq_of_mem_replicate hc
    rfl
  · exact all_isDigit_ofNat n c hc

/-- Zeros in front do not change the number. -/
lemma natOfDigits_padLeft (width n : ℕ) :
    natOfDigits 10 ((padLeft width '0' (ofNat n)).filterMap digitValue?) = n := by
  rw [padLeft, List.filterMap_append, natOfDigits, List.foldl_append]
  have hzeros : ∀ k, ((fill k '0').filterMap digitValue?).foldl (fun n d => n * 10 + d) 0 = 0 := by
    intro k
    induction k with
    | zero => rfl
    | succ k ih => exact ih
  rw [hzeros]
  exact natOfDigits_ofNat n

lemma length_ofNat_le (hwidth : 0 < width) (h : n < 10 ^ width) : (ofNat n).length ≤ width :=
  (Nat.length_toDigits_le_iff (by decide) hwidth).mpr h

end Padded

end Sitewright.Text
