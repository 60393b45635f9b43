import Sitewright.Markdown.Mark
import Sitewright.Text.Lines

/-!
The source text as the compiler reads it: no mark characters, one kind of line end, tabs expanded
to columns of four, blank lines empty, and two line feeds at the end.
-/
namespace Sitewright.Markdown.Source

/-- Expands tabs; `column` is the column of the next character. -/
def expandTabs (column : Nat) : Text → Text
  | [] => []
  | '\t' :: cs => Text.fill (4 - column % 4) ' ' ++ expandTabs 0 cs
  | '\n' :: cs => '\n' :: expandTabs 0 cs
  | c :: cs => c :: expandTabs (column + 1) cs

/-- A line of spaces becomes empty. -/
def clearBlank (line : Text) : Text := if line.all (· = ' ') then [] else line

/-- Empties the lines of spaces, the first and the last excepted. -/
def clearBlankLines : List Text → List Text
  | [] => []
  | first :: rest => first :: (rest.dropLast.map clearBlank ++ rest.getLast?.toList)

/-- The normalized source. -/
def normalize (t : Text) : Text :=
  let marked := t.filter fun c => c ≠ Mark.opening && c ≠ Mark.closing
  let expanded := expandTabs 0 (Text.unifyReturns marked ++ "\n\n".toList)
  Text.join ['\n'] (clearBlankLines (Text.splitOn '\n' expanded))

end Sitewright.Markdown.Source
