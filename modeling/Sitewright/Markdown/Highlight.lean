import Sitewright.Text.Casing
import Sitewright.Text.Escape
import Sitewright.Text.Number
import Sitewright.Text.Word

/-!
Blocks of code as HTML. All code is shown as plain text; lines may be marked, and an indented
block may open with a header line that names a language.
-/
namespace Sitewright.Markdown.Highlight

/-- The numbers of the lines to mark, written as integers between blanks; no line is marked when
one of them is no integer. -/
def lineNumbers (t : Text) : List Int := ((Text.words t).mapM Text.readInt?).getD []

/-- The lines with their line feeds, those with a listed number marked. -/
def writeLines (marked : List Int) (number : Nat) : List Text → Text
  | [] => []
  | line :: lines =>
    let row := Text.escapeText line ++ ['\n']
    (if marked.contains (number : Int) then
      "<span class=\"hll\">".toList ++ row ++ "</span>".toList else row) ++
      writeLines marked (number + 1) lines

/-- How a block of code is shown. -/
structure Look where
  cssClass : Text := "codehilite".toList
  marked : List Int := []
  /-- Do numbers stand beside the lines? -/
  numbered : Bool := false

/-- The lines of a block of code. Line feeds around the code do not count, nor does a byte order
mark before it. -/
def codeLines (code : Text) : List Text :=
  Text.splitOn '\n' (Text.trim (· = '\n') (Text.dropLead ['\ufeff'] (Text.trim (· = '\n') code)))

/-- The numbers of so many lines, one a line and as wide as the last of them. -/
def lineNumberColumn (count : Nat) : Text :=
  let width := (Text.ofNat count).length
  Text.join ['\n'] ((List.range count).map fun n =>
    "<span class=\"normal\">".toList ++ Text.padLeft width ' ' (Text.ofNat (n + 1)) ++
      "</span>".toList)

/-- A block of code with the numbers of its lines beside it. -/
def besideNumbers (cssClass : Text) (count : Nat) (block : Text) : Text :=
  "<table class=\"".toList ++ cssClass ++
    "table\"><tr><td class=\"linenos\"><div class=\"linenodiv\"><pre>".toList ++
    lineNumberColumn count ++ "</pre></div></td><td class=\"code\"><div>".toList ++ block ++
    "</div></td></tr></table>".toList

def block (look : Look) (code : Text) : Text :=
  let lines := codeLines code
  let written := "<pre><span></span><code>".toList ++ writeLines look.marked 1 lines ++
    "</code></pre>".toList
  "<div class=\"".toList ++ look.cssClass ++ "\">".toList ++
    (if look.numbered then besideNumbers look.cssClass lines.length written else written) ++
    "</div>\n".toList

/-- What a header line says: the lines to mark, and whether the line is part of the code. -/
structure Header where
  marked : List Int
  shown : Bool

/-- A path of slashes and words that ends in a slash or a space, and the rest of the line. -/
def splitPath (line : Text) : Text × Text :=
  let body := line.takeWhile fun c => c = '/' || Text.isWord c
  match line.drop body.length with
  | ' ' :: rest =>
    if wordsBetweenSlashes body then (body ++ [' '], rest) else upToSlash body line
  | _ => upToSlash body line
where
  /-- Is the text a run of words, each after one slash? -/
  wordsBetweenSlashes (t : Text) : Bool :=
    match Text.splitOn '/' t with
    | [] :: ws => ws.all (!·.isEmpty)
    | _ => false
  /-- The longest beginning of words after slashes that ends in a slash. -/
  upToSlash (body line : Text) : Text × Text :=
    match Text.splitOn '/' body with
    | [] :: ws =>
      let heads := ws.takeWhile (!·.isEmpty)
      let kept := if heads.length = ws.length then heads.dropLast else heads
      if ws.isEmpty then ([], line)
      else
        let path := kept.flatMap ('/' :: ·) ++ ['/']
        (path, line.drop path.length)
    | _ => ([], line)

/-- Marked lines named by `hl_lines=` and a quoted list at the start of a text. -/
def markedLines (t : Text) : List Int :=
  match "hl_lines=".toList.isPrefixOf? t with
  | some (q :: rest) =>
    if q = '"' || q = '\'' then
      match Text.spanWhile (· ≠ q) rest with
      | (list, _ :: _) => lineNumbers list
      | _ => []
    else []
  | _ => []

/-- The header on the first line of a block, opened by two or more colons or by `#!`. A header
with a path stays part of the code. -/
def header? (line : Text) : Option Header :=
  let rest := match line with
    | ':' :: ':' :: cs => some (cs.dropWhile (· = ':'))
    | '#' :: '!' :: cs => some cs
    | _ => none
  rest.map fun rest =>
    let (path, rest) := splitPath rest
    let rest := rest.dropWhile fun c =>
      Text.isWord c || c = '#' || c = '.' || c = '+' || c = '-'
    ⟨markedLines (rest.dropWhile Text.isBlank), !path.isEmpty⟩

/-- The HTML of an indented block of code, with its header taken into account. -/
def indented (code : Text) : Text :=
  match Text.splitOn '\n' (Text.trim (· = '\n') code) with
  | [] => block {} []
  | first :: rest =>
    match header? first with
    | none => block {} (Text.join ['\n'] (first :: rest))
    | some h =>
      block { marked := h.marked } (Text.join ['\n'] (if h.shown then first :: rest else rest))

end Sitewright.Markdown.Highlight
