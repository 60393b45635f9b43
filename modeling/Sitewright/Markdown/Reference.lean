import Sitewright.Text.Blank
import Sitewright.Text.Casing
import Sitewright.Text.Scan

/-!
Definitions of link references: `[name]: address "title"` on a line of its own, where the address
and the title may each stand on the next line.
-/
namespace Sitewright.Markdown

open Text (spanWhile)

structure Reference where
  url : Text
  title : Text

/-- The defined references by name, the latest definition first. -/
abbrev References := List (Text × Reference)

namespace Reference

/-- A title in quotes or parentheses that takes the rest of its line up to blanks, and what
follows it, from the line end on. -/
def title? (t : Text) : Option (Text × Text) :=
  let (line, rest) := spanWhile (· ≠ '\n') t
  match line with
  | opener :: inner =>
    let close := if opener = '(' then ')' else opener
    if opener = '"' || opener = '\'' || opener = '(' then
      match (inner.reverse.dropWhile (· = ' ')) with
      | c :: title => if c = close then some (title.reverse, rest) else none
      | [] => none
    else none
  | [] => none

/-- The title after an address, if any, and what follows the definition. A title on the next line
is preferred to none. -/
def afterUrl? (t : Text) : Option (Text × Text) :=
  let rest := t.dropWhile (· = ' ')
  match rest with
  | [] => some ([], [])
  | '\n' :: below =>
    match title? (below.dropWhile (· = ' ')) with
    | some found => some found
    | none =>
      let next := below.dropWhile (· = ' ')
      if Text.atLineEnd next then some ([], next) else some ([], rest)
  | _ => title? rest

/-- Tries addresses of the given length and shorter, down to one character; a shorter one must
have its title right behind it. -/
def urlOfLength? (t : Text) : Nat → Option (Text × Text × Text)
  | 0 => none
  | n + 1 =>
    match title? (t.drop (n + 1)) with
    | some (title, rest) => some (t.take (n + 1), title, rest)
    | none => urlOfLength? t n

/-- The text behind spaces and at most one line end among them. -/
def skipSpaces (t : Text) : Text :=
  match t.dropWhile (· = ' ') with
  | '\n' :: below => below.dropWhile (· = ' ')
  | rest => rest

/-- A definition that starts at a line start: its name, what it defines, and what follows. -/
def at? (t : Text) : Option (Text × Reference × Text) :=
  let indent := min 3 (t.takeWhile (· = ' ')).length
  match t.drop indent with
  | '[' :: rest =>
    match spanWhile (fun c => c ≠ '[' && c ≠ ']') rest with
    | (name, ']' :: ':' :: rest) =>
      let rest := skipSpaces rest
      let (url, after) := spanWhile (fun c => !Text.isBlank c) rest
      if url.isEmpty then none
      else
        let found := match afterUrl? after with
          | some (title, after) => some (url, title, after)
          | none => urlOfLength? rest (url.length - 1)
        found.map fun (url, title, after) =>
          (Text.lower (Text.strip name),
            ⟨Text.dropEndWhile (· = '>') (url.dropWhile (· = '<')), title⟩, after)
    | _ => none
  | _ => none

/-- The first definition in a block: what stands before it, its name, what it defines, and what
follows it. -/
def find? (fresh : Bool) : Text → Option (Text × Text × Reference × Text)
  | [] => none
  | c :: cs =>
    match if fresh then at? (c :: cs) else none with
    | some (name, reference, after) => some ([], name, reference, after)
    | none => (find? (c = '\n') cs).map fun (before, found) => (c :: before, found)

end Reference
end Sitewright.Markdown
