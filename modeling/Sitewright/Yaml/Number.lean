import Sitewright.Binary64.Arithmetic
import Sitewright.Binary64.Read
import Sitewright.Text.Casing
import Sitewright.Yaml.Node

/-!
The numbers that YAML scalars write. Underscores never count. The older version of the language
also has numbers in base sixty, their parts between colons, and octal ones behind a zero.
-/
namespace Sitewright.Yaml

/-- A number without its underscores, and whether it has a minus sign. A number of no
characters is a fault of its own. -/
def signedDigits (t : Text) : Except Error (Bool × Text) :=
  match t.filter (· ≠ '_') with
  | [] => .error .noNumber
  | '-' :: cs => .ok (true, cs)
  | '+' :: cs => .ok (false, cs)
  | cs => .ok (false, cs)

/-- The value of a digit of any base up to sixteen. -/
def digitOf? (c : Char) : Option Nat :=
  match Text.digitValue? c with
  | some d => some d
  | none => Text.hexValue? c

/-- The integer that a text writes in a base; white space around it and a sign are allowed. -/
def readBase? (base : Nat) (t : Text) : Option Int :=
  let (negative, cs) := Text.splitSign (Text.strip t)
  let ds := cs.filterMap fun c => (digitOf? c).filter (· < base)
  if cs.isEmpty || ds.length ≠ cs.length then none
  else some (if negative then -(Text.natOfDigits base ds : Int) else Text.natOfDigits base ds)

/-- Numbers of base sixty, most significant first, as one. -/
def ofSixties {α : Type} (zero : α) (shift : α → α) (add : α → α → α) (parts : List α) : α :=
  parts.foldl (fun n d => add (shift n) d) zero

/-- The integer that a scalar writes. -/
def readInt (older : Bool) (t : Text) : Except Error Int := do
  let (negative, digits) ← signedDigits t
  if older && digits.isEmpty then throw .noNumber
  let magnitude? : Option Int :=
    match digits with
    | ['0'] => some 0
    | '0' :: 'b' :: ds => readBase? 2 ds
    | '0' :: 'x' :: ds => readBase? 16 ds
    | '0' :: 'o' :: ds => readBase? 8 ds
    | _ =>
      if older && digits.head? = some '0' then readBase? 8 digits
      else if older && digits.contains ':' then
        ((Text.splitOn ':' digits).mapM Text.readInt?).map (ofSixties 0 (· * 60) (· + ·))
      else Text.readInt? digits
  match magnitude? with
  | some i => return if negative then -i else i
  | none => throw .noSuchValue

/-- The sum of parts, least significant first, each sixty times the weight of the one before. -/
def sumSixties (sum : Binary64) (weight : Nat) : List Binary64 → Binary64
  | [] => sum
  | x :: xs => sumSixties (sum.add (x.mul (Binary64.ofFraction false weight 1))) (weight * 60) xs

/-- The fractional number that a scalar writes. -/
def readFloat (older : Bool) (t : Text) : Except Error Binary64 := do
  let (negative, digits) ← signedDigits (Text.lower t)
  if digits = ".nan".toList then return .nan
  let magnitude? : Option Binary64 :=
    if digits = ".inf".toList then some (.infinite false)
    else if older && digits.contains ':' then
      ((Text.splitOn ':' digits).mapM Binary64.read?).map fun parts =>
        sumSixties (.finite false 0 Binary64.minExponent) 1 parts.reverse
    else if older && 1 < digits.count 'e' then none
    else Binary64.read? digits
  match magnitude? with
  | some x => return if negative then x.neg else x
  | none => throw .noSuchValue

end Sitewright.Yaml
