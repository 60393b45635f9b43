import Sitewright.Text.Blank
import Sitewright.Text.Casing

/-!
The extent of an HTML tag. Reading is tolerant: what matters is where a start tag ends, whether
it closes itself, and its name. A tick never belongs to a tag, so code spans stay apart from HTML.
-/
namespace Sitewright.Markdown.Tag

open Text (spanWhile)

def isLetter (c : Char) : Bool := c.isAlpha

def endsName (c : Char) : Bool :=
  c = '\t' || c = '\n' || c = '\r' || c = '\x0c' || c = ' ' || c = '/' || c = '>' || c = '\x00'

/-- Drops white space, and slashes that do not close the tag. -/
def dropSeparators : Text → Text
  | [] => []
  | '/' :: cs => if cs.head? = some '>' then '/' :: cs else dropSeparators cs
  | c :: cs => if Text.isBlank c then dropSeparators cs else c :: cs

/-- Drops commas and the white space before them. -/
def dropCommas : Nat → Text → Text
  | 0, t => t
  | fuel + 1, t =>
    match t.dropWhile Text.isBlank with
    | ',' :: cs => dropCommas fuel cs
    | _ => t

/-- What follows a quoted or a bare value that starts here. -/
def afterValue? (ticks : Bool) (t : Text) : Option Text :=
  match t with
  | [] => some []
  | c :: cs =>
    if c = '\'' || c = '"' then
      match cs.dropWhile (· ≠ c) with
      | _ :: rest => some rest
      | [] => none
    else some (t.dropWhile fun c => c ≠ '>' && (ticks || c ≠ '`') && !Text.isBlank c)

/-- What follows the equals signs and the value after an attribute's name. Where a quote is not
closed the value is empty before the white space, or starts at a second equals sign. -/
def afterAssignment? (ticks : Bool) (t : Text) : Option Text :=
  match spanWhile (· = '=') (t.dropWhile Text.isBlank) with
  | ([], _) => none
  | (signs, rest) =>
    let (blanks, value) := spanWhile Text.isBlank rest
    match afterValue? ticks value with
    | some after => some after
    | none =>
      match blanks.getLast? with
      | some b => some (b :: value)
      | none => if 2 ≤ signs.length then afterValue? ticks ('=' :: value) else none

def precedesAttribute (c : Char) : Bool := c = '\'' || c = '"' || c = '/' || Text.isBlank c

/-- What follows an attribute that starts here, separators included. `ticks` allows ticks in it,
`commas` skips commas after its value. -/
def afterAttribute? (ticks commas : Bool) (before : Char) (t : Text) : Option Text :=
  match t with
  | [] => none
  | c :: cs =>
    if precedesAttribute before && !Text.isBlank c && c ≠ '/' && c ≠ '>' && (ticks || c ≠ '`') then
      let rest := cs.dropWhile fun c => !Text.isBlank c && c ≠ '/' && c ≠ '=' && c ≠ '>'
      match afterAssignment? ticks rest with
      | some after => some (dropSeparators (if commas then dropCommas after.length after else after))
      | none => some (dropSeparators rest)
    else none

/-- The character just before the given rest of a text. -/
def charBefore (whole rest : Text) : Char :=
  ((whole.drop (whole.length - rest.length - 1)).head?).getD ' '

/-- What follows the attributes of a tag; `t` is a rest of `whole`. -/
def afterAttributes (ticks commas : Bool) (whole : Text) : Nat → Text → Text
  | 0, t => t
  | fuel + 1, t =>
    match afterAttribute? ticks commas (charBefore whole t) t with
    | some rest => afterAttributes ticks commas whole fuel rest
    | none => t

/-- The name at the start of a text, in lower case, and what follows it and its separators. -/
def name? (t : Text) : Option (Text × Text) :=
  match t with
  | c :: cs =>
    if isLetter c then
      let (more, rest) := spanWhile (fun c => !endsName c) cs
      some (Text.lower (c :: more), dropSeparators rest)
    else none
  | [] => none

/-- What follows a complete start tag, none when the tag does not end. A stray character ends the
tag before it. -/
def afterStart? (t : Text) : Option Text :=
  match t with
  | '<' :: c :: cs =>
    let rest := cs.dropWhile fun c => !endsName c && c ≠ '`'
    let rest := rest.dropWhile fun c => Text.isBlank c || c = '/'
    let start := '<' :: c :: cs
    let rest := (afterAttributes false true start start.length rest).dropWhile Text.isBlank
    match rest with
    | [] => none
    | '>' :: after => some after
    | '/' :: '>' :: after => some after
    | d :: _ => if isLetter d || d = '=' || d = '/' then none else some rest
  | _ => none

/-- How a start tag ends. -/
inductive Ending where
  | opens
  | closesItself
  | broken

/-- The name of a start tag and how it ends; `source` is the text of the tag and `after` what
follows it. -/
def ending (source after : Text) : Text × Ending :=
  match name? (source.drop 1 ++ after) with
  | none => ([], .broken)
  | some (name, rest) =>
    let whole := source ++ after
    let rest := afterAttributes true false whole whole.length rest
    let close := Text.strip (rest.take (rest.length - after.length))
    (name, if close = ['>'] then .opens else if close = "/>".toList then .closesItself else .broken)

/-- The name of an end tag with nothing else in it, and what follows the tag. -/
def plainEnd? (t : Text) : Option (Text × Text) :=
  match t with
  | '<' :: '/' :: rest =>
    match rest.dropWhile Text.isBlank with
    | c :: cs =>
      if isLetter c then
        let (more, rest) := spanWhile (fun c =>
          c.isAlphanum || c = '-' || c = '.' || c = ':' || c = '_') cs
        match rest.dropWhile Text.isBlank with
        | '>' :: after => some (Text.lower (c :: more), after)
        | _ => none
      else none
    | [] => none
  | _ => none

end Sitewright.Markdown.Tag
