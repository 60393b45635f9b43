import Sitewright.Markdown.Element

/-!
Tables: rows of cells between pipes, the second row giving the alignment of the columns. A pipe
inside a code span or after a backslash separates nothing.
-/
namespace Sitewright.Markdown.Table

open Text (spanWhile)

/-- Something in a row that matters for cutting it, with the position where it starts. -/
inductive Token where
  /-- A pipe. -/
  | pipe (position : Nat)
  /-- A run of ticks; an escaped run counts one tick less when it opens a span. -/
  | ticks (position size : Nat) (escaped : Bool)

/-- The pipes and ticks of a row. An escaped backslash and an escaped pipe are passed over. -/
def tokens : Nat → Nat → Text → List Token
  | 0, _, _ => []
  | _, _, [] => []
  | fuel + 1, place, c :: cs =>
    if c = '\\' then
      match cs with
      | '\\' :: rest => tokens fuel (place + 2) rest
      | '`' :: _ =>
        let n := (cs.takeWhile (· = '`')).length
        .ticks place n true :: tokens fuel (place + n + 1) (cs.drop n)
      | '|' :: rest => tokens fuel (place + 2) rest
      | _ => tokens fuel (place + 1) cs
    else if c = '`' then
      let n := 1 + (cs.takeWhile (· = '`')).length
      .ticks place n false :: tokens fuel (place + n) (cs.drop (n - 1))
    else if c = '|' then .pipe place :: tokens fuel (place + 1) cs
    else tokens fuel (place + 1) cs

/-- A run of ticks: where it starts, its size, and whether it is escaped. -/
abbrev Ticks := Nat × Nat × Bool

/-- The stretches of a row that are code spans, by first and last position. A run of ticks opens a
span when a later run has its size. -/
def codeSpans : Nat → List Ticks → List (Nat × Nat)
  | 0, _ => []
  | _, [] => []
  | fuel + 1, (start, size, escaped) :: rest =>
    let size := if escaped then size - 1 else size
    match if size = 0 then none else rest.findIdx? (fun (_, n, _) => n = size) with
    | none => codeSpans fuel rest
    | some k =>
      let finish := match rest[k]? with
        | some (p, n, e) => p + n + (if e then 1 else 0) - 1
        | none => start
      (start, finish) :: codeSpans fuel (rest.drop (k + 1))

/-- Is the position inside one of the spans, which are in order? -/
def inSpan (position : Nat) : List (Nat × Nat) → Bool
  | [] => false
  | (first, last) :: rest =>
    if position < first then false else position ≤ last || inSpan position rest

/-- The parts of a text between the given positions, which are in order; `origin` is the position
at which the text starts. -/
def cutAt (origin : Nat) (t : Text) : List Nat → List Text
  | [] => [t]
  | p :: ps => t.take (p - origin) :: cutAt (p + 1) (t.drop (p + 1 - origin)) ps

/-- The parts of a row between its separating pipes. -/
def split (row : Text) : List Text :=
  let found := tokens row.length 0 row
  let runs := found.filterMap fun | .ticks p n e => some (p, n, e) | .pipe _ => none
  let spans := codeSpans runs.length runs
  let pipes := found.filterMap fun
    | .pipe p => if inSpan p spans then none else some p
    | .ticks _ _ _ => none
  cutAt 0 row pipes

/-- Does the row end with a pipe that no backslash escapes? -/
def endsWithPipe (row : Text) : Bool :=
  match row.reverse with
  | '|' :: before => (before.takeWhile (· = '\\')).length % 2 = 0
  | _ => false

/-- The row without its last pipe and the escaped backslashes before it. -/
def dropEndPipe (row : Text) : Text :=
  if endsWithPipe row then Text.dropEndWhile (· = '\\') row.dropLast else row

/-- The cells of a row; `bordered` says that the table has a pipe at one of its sides. -/
def cells (bordered : Bool) (row : Text) : List Text :=
  if bordered then split (dropEndPipe (Text.dropLead ['|'] row)) else split row

/-- The shape of a table, read off its first two rows. -/
structure Shape where
  bordered : Bool
  separators : List Text

/-- Reads the shape of the table in a block, none when the block is no table. -/
def Shape.ofBlock? (block : Text) : Option Shape :=
  match (Text.splitOn '\n' block).map (Text.trim (· = ' ')) with
  | header :: separator :: rows =>
    let bordered := ['|'].isPrefixOf header || endsWithPipe header
    let width := (cells bordered header).length
    let wide := 1 < width || (bordered &&
      (separator :: rows).all fun row => ['|'].isPrefixOf row || endsWithPipe row)
    let separators := cells bordered separator
    if wide && separators.length = width &&
        separators.all (·.all fun c => c = '|' || c = ':' || c = '-' || c = ' ') then
      some ⟨bordered, separators⟩
    else none
  | _ => none

/-- The alignment that a separator cell asks for. -/
def alignment? (separator : Text) : Option String :=
  let s := Text.trim (· = ' ') separator
  match s.head? == some ':', s.getLast? == some ':' with
  | true, true => some "center"
  | true, false => some "left"
  | false, true => some "right"
  | false, false => none

def cell (tag : String) (align : Option String) (text : Text) : Element :=
  { Element.named tag with
    attributes := match align with
      | some a => [("style".toList, "text-align: ".toList ++ a.toList ++ [';'])]
      | none => []
    text := Text.trim (· = ' ') text }

/-- A row with exactly one cell for each column. -/
def row (shape : Shape) (tag : String) (cells : List Text) : Element :=
  { Element.named "tr" with
    children := shape.separators.zipIdx.map fun (s, i) => cell tag (alignment? s) (cells.getD i []) }

/-- A row without text, its cells not aligned. -/
def emptyRow (shape : Shape) : Element :=
  { Element.named "tr" with children := shape.separators.map fun _ => Element.named "td" }

/-- The table written in a block. -/
def build (shape : Shape) (block : Text) : Element :=
  let lines := (Text.splitOn '\n' block).map (Text.trim (· = ' '))
  let bodyRows := lines.drop 2
  let head := { Element.named "thead" with
    children := [row shape "th" (cells shape.bordered (lines.headD []))] }
  let body := { Element.named "tbody" with
    children := if bodyRows.isEmpty then [emptyRow shape]
      else bodyRows.map fun r => row shape "td" (cells shape.bordered r) }
  { Element.named "table" with children := [head, body] }

end Sitewright.Markdown.Table
