import Sitewright.Text.Basic

/-!
Binary floating point numbers of 64 bits. A finite one is a natural number times a power of two;
reading a fraction rounds to the nearest of them, a tie to the even one.
-/
namespace Sitewright

/-- A number of the binary64 format. -/
inductive Binary64 where
  /-- `mantissa · 2 ^ exponent`, with the sign kept also for zero. -/
  | finite (negative : Bool) (mantissa : Nat) (exponent : Int)
  | infinite (negative : Bool)
  | nan
  deriving DecidableEq

namespace Binary64

def minExponent : Int := -1074

/-- The greatest exponent of a mantissa of full size. -/
def maxExponent : Int := 971

/-- One more than the greatest mantissa. -/
def mantissaBound : Nat := Nat.pow 2 53

/-- The quotient rounded to the nearest natural number, a tie to the even one. -/
def roundDiv (num den : Nat) : Nat :=
  let q := num / den
  let r := num % den
  if den < 2 * r || (2 * r = den && q % 2 = 1) then q + 1 else q

/-- The fraction `num / den` divided by `2 ^ e`, rounded. -/
def scaled (num den : Nat) (e : Int) : Nat :=
  if 0 ≤ e then roundDiv num (den * Nat.pow 2 e.toNat) else roundDiv (num * Nat.pow 2 (-e).toNat) den

/-- Is `num / den` at least `2 ^ e`? -/
def reaches (num den : Nat) (e : Int) : Bool :=
  if 0 ≤ e then den * Nat.pow 2 e.toNat ≤ num else den ≤ num * Nat.pow 2 (-e).toNat

/-- The number nearest to the fraction `num / den`, with the given sign. -/
def ofFraction (negative : Bool) (num den : Nat) : Binary64 :=
  if num = 0 then finite negative 0 minExponent
  else
    -- the fraction lies between two to the power `e + 52` and two to the power `e + 54`
    let e : Int := (num.log2 : Int) - den.log2 - 53
    let e := max minExponent (if reaches num den (e + 53) then e + 1 else e)
    let m := scaled num den e
    let (m, e) := if m = mantissaBound then (m / 2, e + 1) else (m, e)
    if maxExponent < e then infinite negative else finite negative m e

/-- The number nearest to `digits · 10 ^ exponent`. -/
def ofDecimal (negative : Bool) (digits : Nat) (exponent : Int) : Binary64 :=
  let size : Int := (Text.ofNat digits).length
  if digits = 0 || size + exponent < -400 then finite negative 0 minExponent
  else if 400 < size + exponent then infinite negative
  else if 0 ≤ exponent then ofFraction negative (digits * Nat.pow 10 exponent.toNat) 1
  else ofFraction negative digits (Nat.pow 10 (-exponent).toNat)

/-- The sign changed. -/
def neg : Binary64 → Binary64
  | finite s m e => finite (!s) m e
  | infinite s => infinite (!s)
  | nan => nan

def isZero : Binary64 → Bool
  | finite _ m _ => m = 0
  | _ => false

/-- The integer that the number is, if it is one. -/
def toInt? : Binary64 → Option Int
  | finite s m e =>
    let n? : Option Nat :=
      if 0 ≤ e then some (m * Nat.pow 2 e.toNat)
      else if m % Nat.pow 2 (-e).toNat = 0 then some (m / Nat.pow 2 (-e).toNat) else none
    n?.map fun n => if s then -(n : Int) else n
  | _ => none

/-- Do the two numbers compare equal? Zeros do, and nothing equals what is no number. -/
def equal : Binary64 → Binary64 → Bool
  | finite s m e, finite s' m' e' =>
    let low := min e e'
    let n := m * Nat.pow 2 (e - low).toNat
    let n' := m' * Nat.pow 2 (e' - low).toNat
    n = n' && (s = s' || n = 0)
  | infinite s, infinite s' => s = s'
  | _, _ => false

end Binary64
end Sitewright
