import Sitewright.Text.Basic

/-!
Scanning a text for constructs. A finder looks at one place, given the characters before it
(nearest first) and the characters from it on; `pieces` cuts the whole text into plain stretches
and the constructs found between them, from left to right and without overlap.
-/
namespace Sitewright.Text

/-- A construct found at a place: what it stands for and how many characters it covers. -/
structure Hit (α : Type) where
  value : α
  size : Nat

/-- Looks for a construct at one place. -/
abbrev Finder (α : Type) := (before after : Text) → Option (Hit α)

/-- A part of a scanned text. Plain stretches may be empty; one stands before every construct and
one at the end. -/
inductive Piece (α : Type) where
  | plain (text : Text)
  | found (value : α)

/-- The scan itself: characters before the place, the plain stretch so far (nearest first), and
how many characters of the last construct are still to be passed over. -/
def piecesFrom {α : Type} (find : Finder α) (before plain : Text) : Nat → Text → List (Piece α)
  | _, [] => [.plain plain.reverse]
  | skip + 1, c :: cs => piecesFrom find (c :: before) plain skip cs
  | 0, c :: cs =>
    match find before (c :: cs) with
    | some hit =>
      .plain plain.reverse :: .found hit.value :: piecesFrom find (c :: before) [] (hit.size - 1) cs
    | none => piecesFrom find (c :: before) (c :: plain) 0 cs

/-- The plain stretches of a text and the constructs between them. -/
def pieces {α : Type} (find : Finder α) (t : Text) : List (Piece α) := piecesFrom find [] [] 0 t

/-- The constructs found in a text, in order. -/
def findAll {α : Type} (find : Finder α) (t : Text) : List α :=
  (pieces find t).filterMap fun
    | .plain _ => none
    | .found v => some v

/-- The text with every construct replaced. -/
def substitute {α : Type} (find : Finder α) (write : α → Text) (t : Text) : Text :=
  (pieces find t).flatMap fun
    | .plain p => p
    | .found v => write v

/-- The text with every construct replaced, unless a replacement fails. -/
def substituteM {α ε : Type} (find : Finder α) (write : α → Except ε Text) (t : Text) : Except ε Text := do
  let parts ← (pieces find t).mapM fun
    | .plain p => .ok p
    | .found v => write v
  return parts.flatten

/-- Finds a fixed, non-empty text. -/
def findLiteral (needle : Text) : Finder Unit := fun _ after =>
  if !needle.isEmpty && needle.isPrefixOf after then some ⟨(), needle.length⟩ else none

def atLineStart : Text → Bool
  | [] => true
  | c :: _ => c = '\n'

def atLineEnd (after : Text) : Bool := atLineStart after

/-- Cuts the text at the first line start at which `close` finds something, with what it found;
`fresh` says that the text begins at a line start. -/
def breakAtLine {α : Type} (close : Text → Option α) (fresh : Bool) : Text → Option (Text × α)
  | [] => if fresh then (close []).map ([], ·) else none
  | c :: cs =>
    match if fresh then close (c :: cs) else none with
    | some a => some ([], a)
    | none => (breakAtLine close (c = '\n') cs).map fun (body, a) => (c :: body, a)

/-- The first line of a text, and what follows its line feed if there is one. -/
def cutLine (t : Text) : Text × Option Text :=
  match t.dropWhile (· ≠ '\n') with
  | [] => (t, none)
  | _ :: rest => (t.takeWhile (· ≠ '\n'), some rest)

end Sitewright.Text
