import Sitewright.Binary64.Basic
import Sitewright.Text.Blank
import Sitewright.Text.Number

/-!
Reading a number written in decimal, with a fraction, an exponent and a sign, all optional, or one
of the words for infinity and for no number.
-/
namespace Sitewright.Binary64

/-- Digits with single underscores between them at the start of a text, and what follows them. -/
def spanDigits (t : Text) : List Nat × Text :=
  match t with
  | [] => ([], [])
  | c :: cs =>
    match Text.digitValue? c with
    | none => ([], t)
    | some d => let (ds, rest) := more cs; (d :: ds, rest)
where
  more : Text → List Nat × Text
    | [] => ([], [])
    | '_' :: c :: cs =>
      match Text.digitValue? c with
      | some d => let (ds, rest) := more cs; (d :: ds, rest)
      | none => ([], '_' :: c :: cs)
    | c :: cs =>
      match Text.digitValue? c with
      | some d => let (ds, rest) := more cs; (d :: ds, rest)
      | none => ([], c :: cs)

/-- The exponent at the end of a number, zero when there is none. -/
def exponent? (t : Text) : Option Int :=
  match t with
  | [] => some 0
  | c :: cs =>
    if c = 'e' || c = 'E' then
      let (negative, rest) := Text.splitSign cs
      match spanDigits rest with
      | (d :: ds, []) =>
        let n := Text.natOfDigits 10 (d :: ds)
        some (if negative then -(n : Int) else n)
      | _ => none
    else none

/-- Reads a number without a sign. -/
def unsigned? (negative : Bool) (t : Text) : Option Binary64 :=
  let word := t.map Char.toLower
  if word = "inf".toList || word = "infinity".toList then some (infinite negative)
  else if word = "nan".toList then some nan
  else
    let (whole, rest) := spanDigits t
    let (part, rest) := match rest with
      | '.' :: cs => spanDigits cs
      | cs => ([], cs)
    if whole.isEmpty && part.isEmpty then none
    else (exponent? rest).map fun e =>
      ofDecimal negative (Text.natOfDigits 10 (whole ++ part)) (e - part.length)

/-- Reads a number; white space around it does not count. -/
def read? (t : Text) : Option Binary64 :=
  let (negative, rest) := Text.splitSign (Text.strip t)
  unsigned? negative rest

end Sitewright.Binary64
