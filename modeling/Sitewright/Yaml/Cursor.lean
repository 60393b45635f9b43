import Sitewright.Text.Digit

/-!
A place in a YAML text: what follows it, and its position by index, line and column.
-/
namespace Sitewright.Yaml

/-- A place in a text. -/
structure Cursor where
  rest : Text
  index : Nat := 0
  line : Nat := 0
  column : Nat := 0

/-- The characters that a YAML text may hold. -/
def isAllowed (c : Char) : Bool :=
  let n := c.toNat
  n = 9 || n = 10 || n = 13 || (0x20 ≤ n && n ≤ 0x7E) || n = 0x85 || (0xA0 ≤ n && n ≤ 0xD7FF) ||
    (0xE000 ≤ n && n ≤ 0xFFFD) || 0x10000 ≤ n

/-- The separators of lines and paragraphs, which end a line but stay in a text. -/
def isSeparator (c : Char) : Bool := c = '\u2028' || c = '\u2029'

/-- A character that breaks a line and is written as a line feed. -/
def isFeed (c : Char) : Bool := c = '\n' || c = '\r' || c = '\u0085'

def isBreak (c : Char) : Bool := isFeed c || isSeparator c

namespace Cursor

/-- The character `n` places ahead, none at the end of the text. -/
def peek (c : Cursor) (n : Nat) : Option Char := c.rest[n]?

/-- The next character. -/
def head (c : Cursor) : Option Char := c.rest.head?

/-- Is the next character the given one? -/
def at? (c : Cursor) (d : Char) : Bool := c.head == some d

/-- Moves over one character. -/
def next (c : Cursor) : Cursor :=
  match c.rest with
  | [] => c
  | d :: rest =>
    let breaks := (isBreak d && d ≠ '\r') || (d = '\r' && rest.head? ≠ some '\n')
    { rest, index := c.index + 1,
      line := if breaks then c.line + 1 else c.line
      column := if breaks then 0 else if d = '\ufeff' then c.column else c.column + 1 }

/-- Moves over the given number of characters. -/
def skip (c : Cursor) : Nat → Cursor
  | 0 => c
  | n + 1 => skip c.next n

/-- The longest run of characters that satisfy `p`, and the place behind it. -/
def span (c : Cursor) (p : Char → Bool) : Text × Cursor :=
  let run := c.rest.takeWhile p
  (run, c.skip run.length)

/-- Moves over the characters that satisfy `p`. -/
def pass (c : Cursor) (p : Char → Bool) : Cursor := (c.span p).2

/-- Moves over a line break and gives what it stands for, nothing where there is none. -/
def lineBreak (c : Cursor) : Text × Cursor :=
  match c.rest with
  | '\r' :: '\n' :: _ => (['\n'], c.skip 2)
  | d :: _ =>
    if isFeed d then (['\n'], c.next) else if isSeparator d then ([d], c.next) else ([], c)
  | [] => ([], c)

end Cursor

def endsLine (c : Option Char) : Bool := c.all isFeed

/-- The end of the text, of a line or of a word. -/
def endsWord (c : Option Char) : Bool := c.all fun d => isFeed d || d = ' ' || d = '\t'

/-- What must follow a tag, an indicator or a directive's name: the end or a blank, no tab. -/
def endsItem (c : Option Char) : Bool := c.all fun d => isBreak d || d = ' '

/-- Does the text go on with a document marker: three of the given character and the end of a
word? -/
def Cursor.atMarker (c : Cursor) (d : Char) : Bool :=
  c.rest.take 3 = [d, d, d] && endsWord (c.peek 3)

/-- Does the text go on with a marker of either kind? -/
def Cursor.atAnyMarker (c : Cursor) : Bool := c.atMarker '-' || c.atMarker '.'

end Sitewright.Yaml
