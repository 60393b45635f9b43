import Sitewright.Binary64.Basic

/-!
Sums and products, correctly rounded.
-/
namespace Sitewright.Binary64

/-- A finite number as an integer over a power of two. -/
def fraction? : Binary64 → Option (Int × Nat)
  | finite s m e =>
    let n : Nat := m * Nat.pow 2 e.toNat
    some (if s then -(n : Int) else n, Nat.pow 2 (-e).toNat)
  | _ => none

/-- The number nearest to a quotient of integers. -/
def ofQuotient (num : Int) (den : Nat) : Binary64 := ofFraction (num < 0) num.natAbs den

/-- The sum of two finite numbers. -/
def add (x y : Binary64) : Binary64 :=
  match x.fraction?, y.fraction? with
  | some (a, b), some (c, d) => ofQuotient (a * d + c * b) (b * d)
  | _, _ => nan

/-- The product of two finite numbers. -/
def mul (x y : Binary64) : Binary64 :=
  match x.fraction?, y.fraction? with
  | some (a, b), some (c, d) => ofQuotient (a * c) (b * d)
  | _, _ => nan

end Sitewright.Binary64
