import Sitewright.Text.Scan

/-!
The parts of a document body that Markdown does not read as prose: raw HTML fences and code.
A body is cut into plain stretches and such regions; a raw fence wins over code that starts at
the same place, so indented HTML inside a fence is not taken for code.
-/
namespace Sitewright

open Text (atLineStart atLineEnd breakAtLine spanWhile)

/-- A region that edits leave alone. -/
inductive Region where
  /-- A raw HTML fence: its source and the HTML between its lines. -/
  | raw (source html : Text)
  /-- A code block or a code span. -/
  | code (source : Text)

namespace Region

/-- The text of the region as written. -/
def source : Region → Text
  | raw s _ => s
  | code s => s

/-- The rest of a line that closes a raw fence: three colons, then blanks. -/
def rawClose? (t : Text) : Option Text :=
  match t with
  | ':' :: ':' :: ':' :: rest =>
    let (blanks, after) := spanWhile (fun c => c = ' ' || c = '\t') rest
    if atLineEnd after then some (":::".toList ++ blanks) else none
  | _ => none

/-- The line that opens a raw fence, with its line feed, and the text after it. -/
def rawOpen? (t : Text) : Option (Text × Text) :=
  (":::html".toList.isPrefixOf? t).bind fun rest =>
    match spanWhile (fun c => c = ' ' || c = '\t') rest with
    | (blanks, '\n' :: after) => some (":::html".toList ++ blanks ++ ['\n'], after)
    | _ => none

/-- Drops the line feed that ends the last line. -/
def dropLastFeed (t : Text) : Text :=
  match t.reverse with
  | '\n' :: r => r.reverse
  | _ => t

/-- A raw fence that starts here: an opening line, verbatim HTML, and a closing line. -/
def rawAt? (before after : Text) : Option Region :=
  if atLineStart before then
    (rawOpen? after).bind fun (opening, rest) =>
      (breakAtLine rawClose? true rest).map fun (body, closing) =>
        raw (opening ++ body ++ closing) (dropLastFeed body)
  else none

def upToThreeSpaces (t : Text) : Text × Text :=
  let n := min 3 (t.takeWhile (· = ' ')).length
  (t.take n, t.drop n)

/-- The rest of a line that closes a code block opened by `fence`: the fence, which may go on
with further fence characters, then blanks. -/
def codeClose? (fence t : Text) : Option Text :=
  let (indent, rest) := upToThreeSpaces t
  (fence.isPrefixOf? rest).bind fun rest =>
    let (more, rest) := spanWhile (fun c => c = '`' || c = '~') rest
    let (blanks, rest) := spanWhile (fun c => c = ' ' || c = '\t') rest
    if atLineEnd rest then some (indent ++ fence ++ more ++ blanks) else none

/-- A fenced code block that starts here; without a closing line it runs to the end. -/
def fencedAt? (before after : Text) : Option Region :=
  if atLineStart before then
    let (indent, rest) := upToThreeSpaces after
    match rest with
    | [] => none
    | c :: _ =>
      let (fence, info) := spanWhile (· = c) rest
      if (c = '`' || c = '~') && 3 ≤ fence.length then
        match Text.cutLine info with
        | (_, none) => none
        | (line, some rest) =>
          let opening := indent ++ fence ++ line ++ ['\n']
          match breakAtLine (codeClose? fence) true rest with
          | some (body, closing) => some (code (opening ++ body ++ closing))
          | none => some (code after)
      else none
  else none

def startsIndented : Text → Bool
  | '\t' :: _ => true
  | ' ' :: ' ' :: ' ' :: ' ' :: _ => true
  | _ => false

/-- The longest run of indented lines at the start of a text; `fresh` says that a line starts
here. -/
def indentedLines (fresh : Bool) : Text → Text
  | [] => []
  | c :: cs =>
    if fresh && !startsIndented (c :: cs) then []
    else c :: indentedLines (c = '\n') cs

/-- An indented code block that starts here, at the start of the body or after a blank line. -/
def indentedAt? (before after : Text) : Option Region :=
  let afterBlankLine := match before with
    | [] => true
    | '\n' :: '\n' :: _ => true
    | _ => false
  if afterBlankLine && startsIndented after then some (code (indentedLines true after)) else none

def startsBlankLine : Text → Bool
  | '\n' :: cs => (cs.dropWhile fun c => c = ' ' || c = '\t').head? == some '\n'
  | _ => false

/-- The rest of a code span opened by a run of ticks: the text up to and with the first run of
exactly as many ticks, if no blank line comes before it. `run` counts the ticks just passed. -/
def spanRest? (ticks run : Nat) : Text → Option Text
  | [] => if run = ticks then some [] else none
  | c :: cs =>
    if c = '`' then (spanRest? ticks (run + 1) cs).map (c :: ·)
    else if run = ticks then some []
    else if startsBlankLine (c :: cs) then none
    else (spanRest? ticks 0 cs).map (c :: ·)

/-- A code span that starts here. It is never empty and never crosses a blank line. -/
def spanAt? (after : Text) : Option Region :=
  match spanWhile (· = '`') after with
  | ([], _) => none
  | (_, []) => none
  | (ticks, c :: cs) =>
    if startsBlankLine (c :: cs) then none
    else (spanRest? ticks.length 0 cs).map fun rest => code (ticks ++ c :: rest)

/-- The region that starts at a place. -/
def at? (before after : Text) : Option Region :=
  rawAt? before after <|> fencedAt? before after <|> indentedAt? before after <|> spanAt? after

def find : Text.Finder Region := fun before after =>
  (at? before after).map fun r => ⟨r, r.source.length⟩

end Region

/-- Applies an edit to every plain stretch and copies the regions. -/
def editOutsideCode (edit : Text → Text) (t : Text) : Text :=
  (Text.pieces Region.find t).flatMap fun
    | .plain p => edit p
    | .found r => r.source

/-- Applies an edit that may fail to every plain stretch and copies the regions. -/
def editOutsideCodeM {ε : Type} (edit : Text → Except ε Text) (t : Text) : Except ε Text := do
  let parts ← (Text.pieces Region.find t).mapM fun
    | .plain p => edit p
    | .found r => .ok r.source
  return parts.flatten

/-- The plain stretches of a text in a row. -/
def outsideCode (t : Text) : Text :=
  (Text.pieces Region.find t).flatMap fun
    | .plain p => p
    | .found _ => []

end Sitewright
