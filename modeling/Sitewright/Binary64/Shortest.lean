import Sitewright.Binary64.Basic

/-!
The shortest decimal text of a binary number: the fewest digits that read back as the number, and
of those the nearest to it.
-/
namespace Sitewright.Binary64

/-- A positive number `num / den` with the bounds between which decimals read back as it: the
numbers `low / den` and `high / den`, which belong to the range only if `closed` is set. -/
structure Range where
  num : Nat
  low : Nat
  high : Nat
  den : Nat
  closed : Bool

/-- The range of `mantissa · 2 ^ exponent`, in quarters of the last place. -/
def Range.of (mantissa : Nat) (exponent : Int) : Range :=
  -- below a power of two the numbers lie twice as dense
  let below := if mantissa = mantissaBound / 2 && minExponent < exponent then 1 else 2
  let unit : Nat := if 0 ≤ exponent then Nat.pow 2 exponent.toNat else 1
  let den : Nat := if 0 ≤ exponent then 4 else 4 * Nat.pow 2 (-exponent).toNat
  { num := 4 * mantissa * unit
    low := (4 * mantissa - below) * unit
    high := (4 * mantissa + 2) * unit
    den
    closed := mantissa % 2 = 0 }

/-- Does `n / scale` lie in the range? -/
def Range.holds (r : Range) (n scale : Nat) : Bool :=
  let x := n * r.den
  if r.closed then r.low * scale ≤ x && x ≤ r.high * scale
  else r.low * scale < x && x < r.high * scale

/-- The digits of a decimal with the place of its point: `0.d₁d₂… · 10 ^ point`. -/
structure Decimal where
  digits : Nat
  point : Int

/-- The decimal with `count` digits, the point standing as given, that lies in the range: of the
neighbours of the number the nearer one, a tie to the even one. -/
def Range.decimal? (r : Range) (point : Int) (count : Nat) : Option Nat :=
  -- in units of the last digit the number is `num * up / (den * down)`
  let shift : Int := count - point
  let up : Nat := if 0 ≤ shift then Nat.pow 10 shift.toNat else 1
  let down : Nat := if 0 ≤ shift then 1 else Nat.pow 10 (-shift).toNat
  let total := r.num * up
  let unit := r.den * down
  let floor := total / unit
  let scaledHolds (n : Nat) : Bool := r.holds (n * down) up
  match scaledHolds floor, scaledHolds (floor + 1) with
  | true, true => some (roundDiv total unit)
  | true, false => some floor
  | false, true => some (floor + 1)
  | false, false => none

/-- The least number of digits, from `count` on, with which a decimal reads back. -/
def Range.shortest (r : Range) (point : Int) : Nat → Nat → Nat × Nat
  | 0, count => ((r.decimal? point count).getD 0, count)
  | fuel + 1, count =>
    match r.decimal? point count with
    | some n => (n, count)
    | none => shortest r point fuel (count + 1)

/-- The place of the point of `num / den`: the least power of ten above it. -/
def pointOf (num den : Nat) : Int :=
  if den ≤ num then ((Text.ofNat (num / den)).length : Int)
  else go 0 num 400
where
  go (point : Int) (num : Nat) : Nat → Int
    | 0 => point
    | fuel + 1 => if den ≤ num * 10 then point else go (point - 1) (num * 10) fuel

/-- The digits of a positive number and the place of its point. -/
def digits (mantissa : Nat) (exponent : Int) : Text × Int :=
  let r := Range.of mantissa exponent
  let point := pointOf r.num r.den
  let (n, count) := r.shortest point 16 1
  let text := Text.ofNat n
  -- rounding up may have carried into a further digit
  (Text.dropEndWhile (· = '0') text, point + ((text.length : Int) - count))

/-- How numbers are written: points stand up to sixteen digits and after up to four zeros, other
numbers carry an exponent with a sign and at least two digits. -/
def written (digits : Text) (point : Int) : Text :=
  if -4 < point && point ≤ 16 then
    if point ≤ 0 then "0.".toList ++ Text.fill (-point).toNat '0' ++ digits
    else
      let n := point.toNat
      if digits.length ≤ n then digits ++ Text.fill (n - digits.length) '0' ++ ".0".toList
      else digits.take n ++ '.' :: digits.drop n
  else
    let e := point - 1
    digits.take 1 ++ (if digits.length = 1 then [] else '.' :: digits.drop 1) ++
      'e' :: (if e < 0 then '-' else '+') :: Text.padLeft 2 '0' (Text.ofNat e.natAbs)

def text : Binary64 → Text
  | finite s m e =>
    let body := if m = 0 then "0.0".toList else
      let (digits, point) := digits m e
      written digits point
    if s then '-' :: body else body
  | infinite s => (if s then "-inf" else "inf").toList
  | nan => "nan".toList

end Sitewright.Binary64
