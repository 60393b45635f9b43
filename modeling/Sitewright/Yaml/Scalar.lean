import Sitewright.Yaml.Cursor

/-!
The written forms of scalars: quoted, plain, and block text after a literal or folding indicator.
Each reader gives the text and the place behind it. Line breaks inside are folded.
-/
namespace Sitewright.Yaml.Scalar

def isQuotedBlank (c : Char) : Bool := c = ' ' || c = '\t'

/-- The line breaks after a first one inside quotes, up to the next text. A document marker is
refused. -/
def quotedBreaks? : Nat → Cursor → Option (Text × Cursor)
  | 0, _ => none
  | fuel + 1, c =>
    if c.atAnyMarker then none
    else
      let c := c.pass isQuotedBlank
      match c.lineBreak with
      | ([], _) => some ([], c)
      | (b, c) => (quotedBreaks? fuel c).map fun (bs, c) => (b ++ bs, c)

/-- What a line break followed by further ones stands for: a space when it is alone. -/
def folded (first more : Text) : Text :=
  if first ≠ ['\n'] then first ++ more else if more.isEmpty then [' '] else more

/-- What the character behind a backslash stands for. -/
def escapes : List (Char × Char) := [
  ('0', '\x00'), ('a', '\x07'), ('b', '\x08'), ('t', '\t'), ('\t', '\t'), ('n', '\n'),
  ('v', '\x0b'), ('f', '\x0c'), ('r', '\r'), ('e', '\x1b'), (' ', ' '), ('"', '"'), ('/', '/'),
  ('\\', '\\'), ('N', '\u0085'), ('_', '\u00a0'), ('L', '\u2028'), ('P', '\u2029')]

/-- How many hexadecimal digits follow an escape by number. -/
def escapeSize? (c : Char) : Option Nat :=
  if c = 'x' then some 2 else if c = 'u' then some 4 else if c = 'U' then some 8 else none

/-- Why a quoted scalar cannot be read. -/
inductive Fault where
  | malformed
  /-- An escape names a number that is no character. -/
  | noCharacter

/-- The character with the number written by `n` hexadecimal digits. -/
def numbered (n : Nat) (t : Text) : Except Fault Char :=
  match (t.take n).mapM Text.hexValue? with
  | none => .error .malformed
  | some ds =>
    if ds.length < n then .error .malformed
    else
      let code := Text.natOfDigits 16 ds
      if code < 0x110000 then .ok (Char.ofNat code) else .error .noCharacter

def quotedFrom (double : Bool) : Nat → Cursor → Except Fault (Text × Cursor)
  | 0, _ => .error .malformed
  | fuel + 1, c =>
    let add (t : Text) (c : Cursor) : Except Fault (Text × Cursor) :=
      (quotedFrom double fuel c).map fun (u, c) => (t ++ u, c)
    let addBreaks (first : Text) (fold : Bool) (c : Cursor) : Except Fault (Text × Cursor) :=
      match quotedBreaks? (c.rest.length + 1) c with
      | none => .error .malformed
      | some (more, c) => add (if fold then folded first more else more) c
    match c.head with
    | none => .error .malformed
    | some d =>
      if d = '\'' && !double then
        if c.peek 1 = some '\'' then add ['\''] (c.skip 2) else .ok ([], c.next)
      else if d = '"' && double then .ok ([], c.next)
      else if d = '\\' && double then
        let c := c.next
        match c.head with
        | none => .error .malformed
        | some e =>
          match escapes.lookup e with
          | some t => add [t] c.next
          | none =>
            match escapeSize? e with
            | some n =>
              match numbered n (c.rest.drop 1) with
              | .ok t => add [t] (c.skip (n + 1))
              | .error f => .error f
            | none => if isBreak e then addBreaks [] false c.lineBreak.2 else .error .malformed
      else if isQuotedBlank d then
        let (blanks, c) := c.span isQuotedBlank
        match c.head with
        | none => .error .malformed
        | some e =>
          if isBreak e then
            let (first, c) := c.lineBreak
            addBreaks first true c
          else add blanks c
      else if isBreak d then
        let (first, c) := c.lineBreak
        addBreaks first true c
      else add [d] c.next

/-- Reads a quoted scalar from its opening quote on. -/
def quoted (c : Cursor) : Except Fault (Text × Cursor) :=
  quotedFrom (c.at? '"') (c.rest.length + 1) c.next

/-- The text of a plain word; `flow` says that the indicators of flow collections end it. -/
def plainWord (flow questionEnds : Bool) : Text → Text
  | [] => []
  | c :: cs =>
    let stop :=
      if endsWord (some c) then true
      else if c = ':' then endsWord cs.head?
      else if c = '?' then flow && questionEnds
      else flow && (c = ',' || c = '[' || c = ']' || c = '\x7b' || c = '\x7d')
    if stop then [] else c :: plainWord flow questionEnds cs

/-- The line breaks after a first one inside a plain scalar; none at a document marker. -/
def plainBreaks? : Nat → Cursor → Option (Text × Cursor)
  | 0, c => some ([], c)
  | fuel + 1, c =>
    let c := c.pass (· = ' ')
    match c.lineBreak with
    | ([], _) => some ([], c)
    | (b, c) =>
      if c.atAnyMarker then none
      else (plainBreaks? fuel c).map fun (bs, c) => (b ++ bs, c)

/-- What lies between two words of a plain scalar: the text it stands for, the place behind it, and
whether a line has ended. Without a text the scalar ends. -/
def plainGap (c : Cursor) : Text × Cursor × Bool :=
  let (blanks, c) := c.span (· = ' ')
  match c.lineBreak with
  | ([], _) => (blanks, c, false)
  | (first, c) =>
    if c.atAnyMarker then ([], c, true)
    else match plainBreaks? (c.rest.length + 1) c with
      | none => ([], c, true)
      | some (more, c) => (folded first more, c, true)

/-- Reads the words of a plain scalar; `gap` stands before the next one. Gives the text, the place
behind the scalar and the blanks after it, and whether it ended at the start of a line. -/
def plainFrom (flow questionEnds : Bool) (indent : Int) (gap : Text) (fresh : Bool) :
    Nat → Cursor → Text × Cursor × Bool
  | 0, c => ([], c, fresh)
  | fuel + 1, c =>
    if c.at? '#' then ([], c, fresh)
    else
      match plainWord flow questionEnds c.rest with
      | [] => ([], c, fresh)
      | word =>
        let (next, c, fresh) := plainGap (c.skip word.length)
        if next.isEmpty || c.at? '#' || (!flow && (c.column : Int) < indent) then
          (gap ++ word, c, fresh)
        else
          let (more, c, fresh) := plainFrom flow questionEnds indent next fresh fuel c
          (gap ++ word ++ more, c, fresh)

/-- Reads a plain scalar. Outside flow collections it ends before a line indented less than
`indent`. -/
def plain (flow questionEnds : Bool) (indent : Int) (c : Cursor) : Text × Cursor × Bool :=
  plainFrom flow questionEnds indent [] false (c.rest.length + 1) c

/-- What becomes of the line breaks at the end of a block text. -/
inductive Chomp where
  | clip
  | strip
  | keep

/-- The indicators behind the opening of a block text: the chomping, and the indentation if it is
given. -/
def indicators? (c : Cursor) : Option (Chomp × Option Nat × Cursor) :=
  let chomp? (c : Cursor) : Option Chomp :=
    if c.at? '+' then some .keep else if c.at? '-' then some .strip else none
  let digit? (c : Cursor) : Option Nat := c.head.bind fun d =>
    if d.isDigit then some (d.toNat - 48) else none
  let found := match chomp? c with
    | some ch =>
      let c := c.next
      match digit? c with
      | some n => (ch, some n, c.next)
      | none => (ch, none, c)
    | none =>
      match digit? c with
      | some n =>
        let c := c.next
        match chomp? c with
        | some ch => (ch, some n, c.next)
        | none => (.clip, some n, c)
      | none => (.clip, none, c)
  let (_, n, behind) := found
  if n = some 0 || !endsItem behind.head then none else some found

/-- Moves over the rest of a line that may hold a comment only, and its break. -/
def restOfLine? (c : Cursor) : Option Cursor :=
  let c := c.pass (· = ' ')
  let c := if c.at? '#' then c.pass fun d => !isFeed d else c
  if endsLine c.head then some c.lineBreak.2 else none

/-- The empty lines before the first line of a block text: their breaks, and the deepest
indentation seen. A first empty line of blanks must not be followed by a deeper one. -/
def leadingBreaks? : Nat → Nat → Option Nat → Cursor → Option (Text × Nat × Cursor)
  | 0, deepest, _, c => some ([], deepest, c)
  | fuel + 1, deepest, first, c =>
    if c.at? ' ' then
      let c := c.next
      leadingBreaks? fuel (max deepest c.column) first c
    else match c.lineBreak with
      | ([], _) =>
        if first.any fun n => 0 < n && n < deepest then none else some ([], deepest, c)
      | (b, d) =>
        (leadingBreaks? fuel deepest (some (first.getD c.column)) d).map fun (bs, n, c) =>
          (b ++ bs, n, c)

/-- Moves over spaces up to a column. -/
def indentTo (column : Nat) : Nat → Cursor → Cursor
  | 0, c => c
  | fuel + 1, c => if c.column < column && c.at? ' ' then indentTo column fuel c.next else c

/-- The breaks of empty lines, and the place at the given indentation behind them. -/
def emptyLines (indent : Nat) : Nat → Cursor → Text × Cursor
  | 0, c => ([], c)
  | fuel + 1, c =>
    let c := indentTo indent (c.rest.length + 1) c
    match c.lineBreak with
    | ([], _) => ([], c)
    | (b, c) =>
      let (bs, c) := emptyLines indent fuel c
      (b ++ bs, c)

/-- How a block text is read. -/
structure BlockStyle where
  folded : Bool
  chomp : Chomp
  indent : Nat
  /-- Does the text stand at the top level, so that a document marker ends it? -/
  top : Bool

/-- Reads the lines of a block text; `breaks` are those of the empty lines before the next line. -/
def blockLines (style : BlockStyle) (breaks : Text) : Nat → Cursor → Text × Cursor
  | 0, c => ([], c)
  | fuel + 1, c =>
    let (line, c') := c.span fun d => !isFeed d
    let (ending, c'') := c'.lineBreak
    let (next, c'') := emptyLines style.indent (c''.rest.length + 1) c''
    let more := c''.column = style.indent && c''.head.isSome &&
      !(style.top && c''.column = 0 && c''.atAnyMarker)
    if more then
      let blank (d : Option Char) : Bool := d == some ' ' || d == some '\t'
      let glue :=
        if style.folded && ending = ['\n'] && !blank c.head && !blank c''.head then
          if next.isEmpty then [' '] else []
        else ending
      let (rest, c) := blockLines style next fuel c''
      (breaks ++ line ++ glue ++ rest, c)
    else
      let tail := match style.chomp with
        | .clip => ending
        | .strip => []
        | .keep => ending ++ next
      (breaks ++ line ++ tail, c'')

/-- Reads a block text from its indicator on, inside a collection with the given indentation. -/
def block? (folded : Bool) (parent : Int) (c : Cursor) : Option (Text × Cursor) :=
  (indicators? c.next).bind fun (chomp, given, c) =>
    (restOfLine? c).bind fun c =>
      let least := (parent + 1).toNat
      let start := match given with
        | some n =>
          let indent := max least 1 + n - 1
          let (breaks, c) := emptyLines indent (c.rest.length + 1) c
          some (breaks, indent, c)
        | none =>
          (leadingBreaks? (c.rest.length + 1) 0 none c).map fun (breaks, deepest, c) =>
            (breaks, max least deepest, c)
      start.map fun (breaks, indent, c) =>
        if c.column = indent && c.head.isSome then
          let top := given.isNone && least = 0
          blockLines ⟨folded, chomp, indent, top⟩ breaks (c.rest.length + 1) c
        else
          match chomp with
          | .keep => (breaks, c)
          | _ => ([], c)

end Sitewright.Yaml.Scalar
