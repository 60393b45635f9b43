import Sitewright.Yaml.Scalar

/-!
The tokens of a YAML text. Indentation shows in the tokens as starts and ends of block collections.
A scalar or collection may turn out to be a key only when the colon behind it is reached, so places
where a key could have started are remembered until then.
-/
namespace Sitewright.Yaml

/-- The name of a tag as written: a handle and a suffix, or the suffix alone. -/
structure TagName where
  handle : Option Text
  suffix : Text

/-- A token. -/
inductive Token where
  | version (major minor : Nat)
  | handle (name lead : Text)
  | directive
  | documentStart
  | documentEnd
  | blockSequence
  | blockMapping
  | blockEnd
  | flowSequence
  | flowSequenceEnd
  | flowMapping
  | flowMappingEnd
  | entry
  | flowEntry
  | key
  | value
  | alias (name : Text)
  | anchor (name : Text)
  | tag (name : TagName)
  | scalar (text : Text) (plain : Bool)

/-- A token in its place: whether a key starts with it, and with that key a mapping. -/
structure Placed where
  token : Token
  startsKey : Bool := false
  startsMapping : Bool := false

def Placed.tokens (p : Placed) : List Token :=
  (if p.startsMapping then [Token.blockMapping] else []) ++
    (if p.startsKey then [Token.key] else []) ++ [p.token]

structure KeyPlace where
  token : Nat
  required : Bool
  index : Nat
  line : Nat
  column : Nat

/-- The state of reading tokens. -/
structure Scan where
  cursor : Cursor
  tokens : Array Placed := #[]
  version : Option (Nat × Nat) := none
  /-- The open flow collections by their brackets, the innermost first. -/
  flow : List Char := []
  indent : Int := -1
  indents : List Int := []
  keyAllowed : Bool := true
  /-- Places where a key may have started, by the number of open flow collections. -/
  keys : List (Nat × KeyPlace) := []

/-- Does a directive ask for the older version of the language? -/
def isOlder (version : Option (Nat × Nat)) : Bool := version == some (1, 1)

namespace Scan

/-- Adds a token. -/
def add (s : Scan) (t : Token) : Scan := { s with tokens := s.tokens.push { token := t } }

/-- Is the place inside a flow collection? -/
def inFlow (s : Scan) : Bool := !s.flow.isEmpty

/-- Why no tokens can be read. -/
abbrev Fault := Scalar.Fault

abbrev Step := Except Fault Scan

def fail {α : Type} : Except Fault α := .error .malformed

/-- A reader's result, where nothing means that the text is no YAML. -/
def need {α : Type} : Option α → Except Fault α
  | some a => .ok a
  | none => fail

/-- The place where a key may have started at the current depth. -/
def keyPlace? (s : Scan) : Option KeyPlace := s.keys.lookup s.flow.length

/-- Forgets the place where a key may have started; a key that must be there fails. -/
def dropKey (s : Scan) : Step :=
  if s.keyPlace?.any (·.required) then fail
  else .ok { s with keys := s.keys.filter fun (n, _) => n ≠ s.flow.length }

/-- Remembers that a key may start with the next token. -/
def noteKey (s : Scan) : Step :=
  if s.keyAllowed then
    s.dropKey.map fun s =>
      let c := s.cursor
      let required := !s.inFlow && s.indent = c.column
      { s with keys := (s.flow.length, ⟨s.tokens.size, required, c.index, c.line, c.column⟩) :: s.keys }
  else .ok s

/-- A key lies on one line and has at most 1024 characters. -/
def isStale (c : Cursor) (k : KeyPlace) : Bool := k.line ≠ c.line || 1024 < c.index - k.index

/-- Forgets the places that are too far back. -/
def dropStale (s : Scan) : Step :=
  if s.keys.any fun (_, k) => isStale s.cursor k && k.required then fail
  else .ok { s with keys := s.keys.filter fun (_, k) => !isStale s.cursor k }

/-- Ends the block collections that are indented deeper than the given column. -/
def unwind (s : Scan) (column : Int) : Scan :=
  if s.inFlow then s else go s column (s.indents.length + 1)
where
  go (s : Scan) (column : Int) : Nat → Scan
    | 0 => s
    | fuel + 1 =>
      if column < s.indent then
        match s.indents with
        | i :: is => go ({ s with indent := i, indents := is }.add .blockEnd) column fuel
        | [] => s
      else s

/-- Makes a column the indentation if it is deeper than the present one; says whether it is. -/
def deepen (s : Scan) (column : Nat) : Bool × Scan :=
  if s.indent < column then (true, { s with indents := s.indent :: s.indents, indent := column })
  else (false, s)

/-- Moves to the next token. A line break outside flow collections allows a key. -/
def toToken (s : Scan) : Scan :=
  let c := s.cursor
  let c := if c.index = 0 && c.at? '\ufeff' then c.next else c
  go { s with cursor := c } (c.rest.length + 1)
where
  go (s : Scan) : Nat → Scan
    | 0 => s
    | fuel + 1 =>
      let c := s.cursor.pass fun d => d = ' ' || (s.inFlow && d = '\t')
      let c := if c.at? '#' then c.pass fun d => !isFeed d else c
      match c.lineBreak with
      | ([], _) => { s with cursor := c }
      | (_, c) => go { s with cursor := c, keyAllowed := s.keyAllowed || !s.inFlow } fuel

/-- Moves over some characters and adds a token. -/
def take (s : Scan) (n : Nat) (t : Token) : Scan := { s with cursor := s.cursor.skip n }.add t

/-- Ends all block collections and forgets where a key may have started. -/
def close (s : Scan) : Step := (s.unwind (-1)).dropKey.map ({ · with keyAllowed := false })

def number? (c : Cursor) : Option (Nat × Cursor) :=
  match c.span Char.isDigit with
  | ([], _) => none
  | (ds, c) => some (Text.natOfDigits 10 (ds.filterMap Text.digitValue?), c)

/-- A letter, a digit, a hyphen or an underscore. -/
def isNameChar (c : Char) : Bool := c.isAlphanum || c = '-' || c = '_'

/-- The handle of a tag: an exclamation mark alone or two around a name. -/
def tagHandle? (c : Cursor) : Option (Text × Cursor) :=
  if !c.at? '!' then none
  else
    let c := c.next
    if c.at? ' ' then some (['!'], c)
    else
      let (name, c) := c.span isNameChar
      if c.at? '!' then some ('!' :: name ++ ['!'], c.next) else none

def isAddressChar (older : Bool) (c : Char) : Bool :=
  c.isAlphanum || "-;/?:@&=+$,_.!~*'()[]%".toList.contains c || (c = '#' && !older)

/-- The address with its escapes as bytes decoded. -/
def decoded? (t : Text) : Option Text :=
  (go t).bind fun bytes => (String.fromUTF8? ⟨bytes.toArray⟩).map String.toList
where
  go : Text → Option (List UInt8)
    | [] => some []
    | '%' :: a :: b :: rest =>
      (Text.hexValue? a).bind fun x => (Text.hexValue? b).bind fun y =>
        (go rest).map (UInt8.ofNat (x * 16 + y) :: ·)
    | '%' :: _ => none
    | c :: rest => (go rest).map ((String.singleton c).toUTF8.toList ++ ·)

def tagAddress? (older : Bool) (c : Cursor) : Option (Text × Cursor) :=
  match c.span (isAddressChar older) with
  | ([], _) => none
  | (t, c) => (decoded? t).map fun t => (t, c)

def directive? (older : Bool) (c : Cursor) : Option (Token × Cursor) :=
  let (name, c) := c.span fun d => isNameChar d || d = ':' || d = '.'
  if name.isEmpty || !endsItem c.head then none
  else
    let found :=
      if name = "YAML".toList then
        (number? (c.pass (· = ' '))).bind fun (major, c) =>
          if c.at? '.' then
            (number? c.next).bind fun (minor, c) =>
              if endsItem c.head then some (Token.version major minor, c) else none
          else none
      else if name = "TAG".toList then
        (tagHandle? (c.pass (· = ' '))).bind fun (handle, c) =>
          if c.at? ' ' then
            (tagAddress? older (c.pass (· = ' '))).bind fun (lead, c) =>
              if endsItem c.head then some (Token.handle handle lead, c) else none
          else none
      else some (Token.directive, c.pass fun d => !isFeed d)
    found.bind fun (t, c) =>
      let c := c.pass (· = ' ')
      let c := if c.at? '#' then c.pass fun d => !isFeed d else c
      if c.head.all isBreak then some (t, c.lineBreak.2) else none

def isAnchorChar (c : Char) : Bool :=
  let n := c.toNat
  ((0x21 ≤ n && n ≤ 0x7E) || (0xA0 ≤ n && n ≤ 0xD7FF) || (0xE000 ≤ n && n ≤ 0xFFFD) ||
    0x10000 ≤ n) && c ≠ '\ufeff' && !",[]\x7b\x7d".toList.contains c

def anchorName? (c : Cursor) : Option (Text × Cursor) :=
  match c.span isAnchorChar with
  | ([], _) => none
  | (name, c) =>
    if c.head.all fun d => isBreak d || " \t?:,[]\x7b\x7d%@`".toList.contains d then some (name, c)
    else none

/-- Does the text of a tag use a handle, that is, has it an exclamation mark before a blank? -/
def usesHandle (t : Text) : Bool :=
  (t.dropWhile fun d => d ≠ '!' && !endsItem (some d)).head? == some '!'

def tag? (older : Bool) (c : Cursor) : Option (Token × Cursor) :=
  let (short, c) := if c.peek 1 = some '!' then ("!!".toList, c.next) else (['!'], c)
  let found : Option (TagName × Cursor) :=
    match c.peek 1 with
    | some '<' =>
      (tagAddress? older (c.skip 2)).bind fun (t, c) =>
        if c.at? '>' then some (⟨none, t⟩, c.next) else none
    | d =>
      if endsWord d then some (⟨none, short⟩, c.next)
      else
        let handled := if usesHandle (c.rest.drop 1) then tagHandle? c else some (short, c.next)
        handled.bind fun (handle, c) =>
          (tagAddress? older c).map fun (t, c) => (⟨some handle, t⟩, c)
  found.bind fun (name, c) => if endsItem c.head then some (.tag name, c) else none

/-- Is the colon here the indicator of a value? Inside a flow collection it need not be followed by
a blank, except in a sequence and right behind another such colon. `queued` says that the tokens
before it were read in search of a key's end. -/
def isValue (s : Scan) (queued : Bool) : Bool :=
  let ends := endsWord (s.cursor.peek 1)
  match s.flow with
  | [] => ends
  | bracket :: _ =>
    if isOlder s.version then true
    else if bracket = '[' then ends
    else match s.tokens.back? with
      | some ⟨.value, _, _⟩ => ends || !queued
      | _ => true

/-- The characters that start something else than a plain scalar. -/
def indicators : Text := "-?:,[]\x7b\x7d#&*!|>'\"%@`".toList

/-- Can a plain scalar start with the character at this place? -/
def startsPlain (s : Scan) (d : Char) : Bool :=
  let next := s.cursor.peek 1
  if d = ' ' || d = '\t' || isBreak d then false
  else if !indicators.contains d then true
  else if d = ':' && s.inFlow && !isOlder s.version then !(next == some ' ' || next == some '\t')
  else !endsWord next && (d = '-' || (!s.inFlow && (d = '?' || d = ':')))

/-- Takes an entry of a block sequence. -/
def onEntry (s : Scan) : Step := do
  let s ← if s.inFlow then pure s
    else if !s.keyAllowed then fail
    else
      let (deeper, s) := s.deepen s.cursor.column
      pure (if deeper then s.add .blockSequence else s)
  let s ← { s with keyAllowed := true }.dropKey
  return s.take 1 .entry

def onKey (s : Scan) : Step := do
  let s ← if s.inFlow then pure s
    else if !s.keyAllowed then fail
    else
      let (deeper, s) := s.deepen s.cursor.column
      pure (if deeper then s.add .blockMapping else s)
  let s ← { s with keyAllowed := !s.inFlow }.dropKey
  return s.take 1 .key

/-- Takes the indicator of a value. A key that may have started before it has. -/
def onValue (s : Scan) : Step := do
  match s.keyPlace? with
  | some k =>
    let s := { s with keys := s.keys.filter fun (n, _) => n ≠ s.flow.length }
    let (deeper, s) := if s.inFlow then (false, s) else s.deepen k.column
    let tokens := s.tokens.modify k.token fun p => { p with startsKey := true, startsMapping := deeper }
    return { s with tokens, keyAllowed := false }.take 1 .value
  | none =>
    let s ← if s.inFlow then pure s
      else if !s.keyAllowed then fail
      else
        let (deeper, s) := s.deepen s.cursor.column
        pure (if deeper then s.add .blockMapping else s)
    let s ← { s with keyAllowed := !s.inFlow }.dropKey
    return s.take 1 .value

def onFlowStart (s : Scan) (bracket : Char) (t : Token) : Step := do
  let s ← s.noteKey
  return { s with flow := bracket :: s.flow, keyAllowed := true }.take 1 t

def onFlowEnd (s : Scan) (t : Token) : Step := do
  let s ← s.dropKey
  return { s with flow := s.flow.drop 1, keyAllowed := false }.take 1 t

/-- Takes a token that a reader finds and with which a key may start. -/
def onItem (s : Scan) (read : Cursor → Except Fault (Token × Cursor)) : Step := do
  let s ← s.noteKey
  let (t, c) ← read s.cursor
  return { s with cursor := c, keyAllowed := false }.add t

def onBlockText (s : Scan) (folded : Bool) : Step := do
  let s ← { s with keyAllowed := true }.dropKey
  let (t, c) ← need (Scalar.block? folded s.indent s.cursor)
  return { s with cursor := c }.add (.scalar t false)

def onPlain (s : Scan) : Step := do
  let s ← s.noteKey
  let (t, c, fresh) := Scalar.plain s.inFlow (isOlder s.version) (s.indent + 1) s.cursor
  return { s with cursor := c, keyAllowed := fresh }.add (.scalar t true)

/-- Takes the token that starts with the given character. -/
def onToken (s : Scan) (queued : Bool) (d : Char) : Step :=
  let c := s.cursor
  let older := isOlder s.version
  let wordEnds := endsWord (c.peek 1)
  if d = '%' && c.column = 0 then do
    let s ← s.close
    let (t, c) ← need (directive? older c.next)
    let version := match t with
      | .version major minor => some (major, minor)
      | _ => s.version
    return { s with cursor := c, version }.add t
  else if c.column = 0 && c.atMarker '-' then return (← s.close).take 3 .documentStart
  else if c.column = 0 && c.atMarker '.' then return (← s.close).take 3 .documentEnd
  else if d = '[' then s.onFlowStart d .flowSequence
  else if d = '\x7b' then s.onFlowStart d .flowMapping
  else if d = ']' then s.onFlowEnd .flowSequenceEnd
  else if d = '\x7d' then s.onFlowEnd .flowMappingEnd
  else if d = ',' then return (← { s with keyAllowed := true }.dropKey).take 1 .flowEntry
  else if d = '-' && wordEnds then s.onEntry
  else if d = '?' && (s.inFlow || wordEnds) then s.onKey
  else if d = ':' && s.isValue queued then s.onValue
  else if d = '*' then s.onItem fun c => (need (anchorName? c.next)).map fun (t, c) => (.alias t, c)
  else if d = '&' then s.onItem fun c => (need (anchorName? c.next)).map fun (t, c) => (.anchor t, c)
  else if d = '!' then s.onItem fun c => need (tag? older c)
  else if d = '|' && !s.inFlow then s.onBlockText false
  else if d = '>' && !s.inFlow then s.onBlockText true
  else if d = '\'' || d = '"' then
    s.onItem fun c => (Scalar.quoted c).map fun (t, c) => (.scalar t false, c)
  else if s.startsPlain d then s.onPlain
  else fail

/-- Reads all tokens. -/
def run : Nat → Scan → Step
  | 0, _ => fail
  | fuel + 1, s => do
    let s ← s.dropStale
    let queued := !s.keys.isEmpty
    let s ← s.toToken.dropStale
    let s := s.unwind s.cursor.column
    match s.cursor.head with
    | none => s.close
    | some d => run fuel (← s.onToken queued d)

end Scan

/-- The tokens of a text, and the version that a directive names. -/
def tokens (t : Text) : Except Scalar.Fault (List Token × Option (Nat × Nat)) :=
  if t.all isAllowed then do
    let s ← Scan.run (t.length + 2) { cursor := { rest := t } }
    return (s.tokens.toList.flatMap Placed.tokens, s.version)
  else .error .malformed

end Sitewright.Yaml
