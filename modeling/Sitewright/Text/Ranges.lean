import Sitewright.Text.Basic

/-!
Sets of code points written as the sorted list of the points where membership changes.
-/
namespace Sitewright.Text

/-- Membership of `n` in the set that starts with `inside` and flips at each listed point. -/
def flips (inside : Bool) (n : Nat) : List Nat → Bool
  | [] => inside
  | b :: bs => if n < b then inside else flips (!inside) n bs

/-- Membership in the union of the half-open ranges between odd and even listed points. -/
def inRanges (bounds : List Nat) (n : Nat) : Bool := flips false n bounds

end Sitewright.Text
