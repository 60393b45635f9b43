import Sitewright.Text.Blank

/-!
The two parts of an inline link: the text between square brackets and the target between
parentheses. Brackets nest. A target may end with a quoted title, inside which parentheses do not
count; where the title turns out unclosed, the parenthesis that would have closed the target
before is used.
-/
namespace Sitewright.Markdown.Link

open Text (spanWhile)

/-- The text up to the closing bracket that matches `depth` open ones, and what follows it. -/
def bracketed? (depth : Nat) : Text → Option (Text × Text)
  | [] => none
  | c :: cs =>
    let depth := if c = ']' then depth - 1 else if c = '[' then depth + 1 else depth
    if depth = 0 then some ([], cs)
    else (bracketed? depth cs).map fun (text, rest) => (c :: text, rest)

structure Target where
  url : Text
  title : Option Text
  /-- How many characters the target covers, parentheses included. -/
  size : Nat

/-- A quote character seen in a target: the position behind its first occurrence, and the position
behind its latest one when it has occurred again. -/
structure Quote where
  char : Char
  start : Nat
  exit : Option Nat := none

/-- What has been seen of a target up to a position. -/
structure Progress where
  depth : Nat := 1
  /-- The depth that would hold without the title, and the position at which it came to zero. -/
  spare : Nat := 1
  fallback : Option Nat := none
  first : Option Quote := none
  second : Option Quote := none
  /-- The latest character that is no space. -/
  last : Option Char := none

namespace Progress

/-- The title if it has just been closed: a quote that occurred twice and was the last character. -/
def closedBy (quote : Option Quote) (last : Option Char) : Option (Nat × Nat) :=
  quote.bind fun q => q.exit.bind fun exit => if last = some q.char then some (q.start, exit) else none

/-- A title that has just been closed, by the positions behind its quotes. -/
def title? (p : Progress) : Option (Nat × Nat) := closedBy p.first p.last <|> closedBy p.second p.last

/-- Takes a quote character whose position is one less than `next`. -/
def onQuote (p : Progress) (c : Char) (next : Nat) : Progress :=
  match p.first with
  | none => { p with spare := p.depth, depth := 1, first := some ⟨c, next, none⟩ }
  | some q =>
    if c = q.char then { p with first := some { q with exit := some next } }
    else match p.second with
      | none => { p with second := some ⟨c, next, none⟩ }
      | some s => { p with second := some { s with exit := some next } }

/-- Takes the character before position `next`. -/
def step (p : Progress) (c : Char) (next : Nat) : Progress :=
  if c = '(' then
    if p.first.isNone then { p with depth := p.depth + 1 } else { p with spare := p.spare - 1 }
  else if c = ')' then
    if p.title?.isSome then { p with depth := 0 }
    else if p.first.isNone then { p with depth := p.depth - 1 }
    else if p.spare = 1 then { p with spare := 0, fallback := some next }
    else { p with spare := p.spare - 1 }
  else if c = '\'' || c = '"' then p.onQuote c next
  else p

end Progress

/-- The part of a text between two positions. -/
def slice (t : Text) (start stop : Nat) : Text := (t.take stop).drop start

/-- Reads a target from position `at` of `whole` on; `start` is where its address starts. -/
def targetFrom? (whole : Text) (start place : Nat) (p : Progress) : Text → Option Target
  | [] =>
    if p.spare = 0 then
      match p.fallback with
      | some stop => some ⟨slice whole start (stop - 1), none, stop⟩
      -- a parenthesis inside the title used the spare depth up: all but the last character is taken
      | none => some ⟨slice whole start (whole.length - 2), none, whole.length - 1⟩
    else none
  | c :: cs =>
    let q := p.step c (place + 1)
    if q.depth = 0 then
      some (match q.title? with
        | some (opened, exit) =>
          ⟨slice whole start (opened - 1), some (slice whole opened (exit - 1)), place + 1⟩
        | none => ⟨slice whole start place, none, place + 1⟩)
    else targetFrom? whole start (place + 1) { q with last := if c = ' ' then q.last else some c } cs

/-- A quoted title, its quotes taken off, and what follows it and its white space. -/
def quotedTitle? (t : Text) : Option (Text × Text) :=
  match t with
  | q :: rest =>
    if q = '\'' || q = '"' then
      match spanWhile (· ≠ q) rest with
      | (title, _ :: after) => some (title, after.dropWhile Text.isBlank)
      | _ => none
    else none
  | [] => none

/-- A target whose address stands in angle brackets; `t` starts at the address. -/
def angledTarget? (whole t : Text) : Option Target :=
  match t with
  | '<' :: rest =>
    match spanWhile (fun c => c ≠ '<' && c ≠ '>') rest with
    | (url, '>' :: rest) =>
      let rest := rest.dropWhile Text.isBlank
      let (title, rest) := match quotedTitle? rest with
        | some (title, rest) => (some title, rest)
        | none => (none, rest)
      match rest with
      | ')' :: after => some ⟨Text.strip url, title, whole.length - after.length⟩
      | _ => none
    | _ => none
  | _ => none

/-- The target that starts at an opening parenthesis. -/
def target? (t : Text) : Option Target :=
  match t with
  | '(' :: rest =>
    let rest := rest.dropWhile Text.isBlank
    let start := t.length - rest.length
    match angledTarget? t rest with
    | some target => some target
    | none => targetFrom? t start start {} rest
  | _ => none

/-- The text without a pair of equal quotes around it. -/
def dequote (t : Text) : Text :=
  match t.head?, t.getLast? with
  | some a, some b => if a = b && (a = '"' || a = '\'') then (t.drop 1).dropLast else t
  | _, _ => t

/-- A title as it goes into an attribute, after `plain` has put back what its marks stand for. -/
def cleanTitle (plain : Text → Text) (title : Text) : Text :=
  (dequote (plain (Text.strip title))).map fun c => if Text.isBlank c then ' ' else c

end Sitewright.Markdown.Link
