import Sitewright.Markdown.Element
import Sitewright.Text.Blank
import Sitewright.Text.Scan
import Sitewright.Text.Word

/-!
Emphasis. Runs of a delimiter character open and close it: a run that closes is matched with the
nearest open run that fits, and what stands between them becomes an element. Runs still open in
between are plain text then.
-/
namespace Sitewright.Markdown.Emphasis

/-- The two delimiters. -/
inductive Kind where
  | asterisk
  | underscore
  deriving DecidableEq

def Kind.char : Kind → Char
  | .asterisk => '*'
  | .underscore => '_'

/-- A run of delimiters: how many, and what it may do. -/
structure Run where
  length : Nat
  opens : Bool
  closes : Bool

/-- A run between two characters, absent at the ends of the text. What opens or closes touches the
text inside; an underscore does not touch a word outside. -/
def Run.between (kind : Kind) (length : Nat) (before after : Option Char) : Run :=
  let outside (c : Option Char) : Bool := kind = .asterisk || !c.any Text.isWord
  { length
    opens := !after.all Text.isBlank && outside before
    closes := !before.all Text.isBlank && outside after }

/-- A text cut into plain characters and runs; `before` is the character before it. -/
def cut (kind : Kind) : Nat → Option Char → Text → List (Text.Piece Run)
  | 0, _, _ => []
  | _, _, [] => []
  | fuel + 1, before, c :: cs =>
    if c = kind.char then
      let more := (cs.takeWhile (· = c)).length
      let rest := cs.drop more
      .found (Run.between kind (more + 1) before rest.head?) :: cut kind fuel (some c) rest
    else .plain [c] :: cut kind fuel (some c) cs

/-- An element and how many characters of the text it covers. -/
structure Span where
  element : Element
  size : Nat

/-- Plain text and elements, the last first. -/
abbrev Content := List (Text.Piece Span)

/-- How many characters some content covers. -/
def sizeOf : Content → Nat
  | [] => 0
  | .plain t :: rest => t.length + sizeOf rest
  | .found s :: rest => s.size + sizeOf rest

/-- An open run: the run, how many of its delimiters are left, and what follows it so far. -/
structure Frame where
  run : Run
  left : Nat
  content : Content

/-- Open runs, the innermost first, over what stands before them all. -/
structure Progress where
  frames : List Frame := []
  base : Content := []

/-- The plain text before the first element of some pieces, and the elements, each with the plain
text after it as its tail. -/
def assemble : List (Text.Piece Element) → Text × List Element
  | [] => ([], [])
  | .plain p :: ps =>
    let (lead, elements) := assemble ps
    (p ++ lead, elements)
  | .found e :: ps =>
    let (lead, elements) := assemble ps
    ([], { e with tail := e.tail ++ lead } :: elements)

/-- The element around some content, made with one delimiter at each end or with two. -/
def wrap (delimiters : Nat) (content : Content) : Span :=
  let (text, children) := assemble (content.reverse.map fun
    | .plain t => Text.Piece.plain t
    | .found s => .found s.element)
  { element := { Element.named (if delimiters = 1 then "em" else "strong") with text, children }
    size := sizeOf content + 2 * delimiters }

namespace Progress

/-- Adds a piece behind the innermost open run. -/
def push (p : Progress) (piece : Text.Piece Span) : Progress :=
  match p.frames with
  | [] => { p with base := piece :: p.base }
  | f :: fs => { p with frames := { f with content := piece :: f.content } :: fs }

/-- Adds content behind the innermost open run. -/
def append (p : Progress) (content : Content) : Progress :=
  match p.frames with
  | [] => { p with base := content ++ p.base }
  | f :: fs => { p with frames := { f with content := content ++ f.content } :: fs }

/-- Turns the given number of open runs into plain text. -/
def flatten (kind : Kind) : Nat → Progress → Progress
  | 0, p => p
  | n + 1, p =>
    match p.frames with
    | [] => p
    | f :: fs =>
      flatten kind n
        (append { p with frames := fs } (f.content ++ [.plain (Text.fill f.left kind.char)]))

end Progress

/-- Does a closing run fit an open one? Where one of them could do both, their lengths must not add
up to a multiple of three, unless both are such. -/
def fits (opener closer : Run) : Bool :=
  !((opener.closes || closer.opens) && (opener.length + closer.length) % 3 = 0 &&
    !(opener.length % 3 = 0 && closer.length % 3 = 0))

/-- How many delimiters the innermost pair takes when both sides have at least so many left: an odd
number makes the inner element a plain emphasis. -/
def pairSize (available : Nat) : Nat := if available % 2 = 0 then 2 else 1

/-- Matches what is left of a closing run; what finds no partner opens, or is plain text. -/
def close (kind : Kind) (run : Run) : Nat → Nat → Progress → Progress
  | 0, _, p => p
  | fuel + 1, left, p =>
    if left = 0 then p
    else match p.frames.findIdx? fun f => fits f.run run with
      | none =>
        if run.opens then { p with frames := ⟨run, left, []⟩ :: p.frames }
        else p.push (.plain (Text.fill left kind.char))
      | some n =>
        let p := p.flatten kind n
        match p.frames with
        | [] => p
        | f :: fs =>
          let k := pairSize (min f.left left)
          let span := wrap k f.content
          let below := { p with frames := fs }
          let p := if f.left = k then below.push (.found span)
            else { p with frames := { f with left := f.left - k, content := [.found span] } :: fs }
          close kind run fuel (left - k) p

/-- Takes the next piece of the text. -/
def step (kind : Kind) (p : Progress) : Text.Piece Run → Progress
  | .plain t => p.push (.plain t)
  | .found run =>
    if run.closes then close kind run (run.length + 1) run.length p
    else if run.opens then { p with frames := ⟨run, run.length, []⟩ :: p.frames }
    else p.push (.plain (Text.fill run.length kind.char))

/-- Plain text and the outermost emphasis of a text, in order. -/
def read (kind : Kind) (t : Text) : Content :=
  let p := (cut kind (t.length + 1) none t).foldl (step kind) {}
  (p.flatten kind p.frames.length).base.reverse

/-- The element that starts at the given position. -/
def spanAt? (position : Nat) : Content → Option Span
  | [] => none
  | .plain t :: rest => if position < t.length then none else spanAt? (position - t.length) rest
  | .found s :: rest =>
    if position = 0 then some s
    else if position < s.size then none else spanAt? (position - s.size) rest

/-- Emphasis that starts at a place. -/
def at? (kind : Kind) (before after : Text) : Option Span :=
  if after.head? = some kind.char then
    spanAt? before.length (read kind (before.reverse ++ after))
  else none

end Sitewright.Markdown.Emphasis
