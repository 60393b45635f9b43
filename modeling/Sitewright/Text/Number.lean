import Sitewright.Text.Blank
import Sitewright.Text.Digit

/-!
Reading integers written in decimal: white space around them, a sign, and single underscores
between digits are allowed, and the digits of every script count.
-/
namespace Sitewright.Text

/-- The values of digits with single underscores between them; `afterDigit` says that the
character before was a digit. -/
def groupedDigits? (afterDigit : Bool) : Text → Option (List Nat)
  | [] => if afterDigit then some [] else none
  | c :: cs =>
    if c = '_' then
      if afterDigit then groupedDigits? false cs else none
    else (digitValue? c).bind fun d => (groupedDigits? true cs).map (d :: ·)

/-- A minus sign or none, and what follows an optional sign. -/
def splitSign (t : Text) : Bool × Text :=
  match t with
  | '-' :: cs => (true, cs)
  | '+' :: cs => (false, cs)
  | cs => (false, cs)

/-- The most digits an integer may be written with. -/
def maxIntDigits : Nat := 4300

/-- The integer a text writes, none when it writes none or is too long. -/
def readInt? (t : Text) : Option Int :=
  let (negative, digits) := splitSign (strip t)
  (groupedDigits? false digits).bind fun ds =>
    if ds.length ≤ maxIntDigits then
      let n := natOfDigits 10 ds
      some (if negative then -(n : Int) else n)
    else none

end Sitewright.Text
