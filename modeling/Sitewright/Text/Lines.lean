import Sitewright.Text.Basic

/-!
Lines of a text. Many characters end a line here, a carriage return with its line feed counting
as one end.
-/
namespace Sitewright.Text

def isLineEnd (c : Char) : Bool :=
  let n := c.toNat
  (10 ≤ n && n ≤ 13) || (28 ≤ n && n ≤ 30) || n == 0x85 || n == 0x2028 || n == 0x2029

/-- The lines of a text without their ends; a final line end opens no further line. -/
def lines (t : Text) : List Text := go [] false t
where
  go (line : Text) (afterReturn : Bool) : Text → List Text
    | [] => if line.isEmpty then [] else [line.reverse]
    | c :: cs =>
      if afterReturn && c = '\n' then go [] false cs
      else if isLineEnd c then line.reverse :: go [] (c = '\r') cs
      else go (c :: line) false cs

/-- Every line end written as one line feed, where a line feed or a return counts as a line end. -/
def unifyReturns : Text → Text
  | [] => []
  | '\r' :: '\n' :: cs => '\n' :: unifyReturns cs
  | c :: cs => (if c = '\r' then '\n' else c) :: unifyReturns cs

end Sitewright.Text
