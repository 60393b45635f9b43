import Sitewright.Yaml.Tag
import Sitewright.Yaml.Token

/-!
The tree of nodes that a YAML text writes. An alias stands for a copy of its anchor's node; one
inside that very node has no finite tree, and is only noted.
-/
namespace Sitewright.Yaml

/-- A node with its kind. -/
inductive Node where
  | scalar (tag : Tag) (text : Text)
  | sequence (tag : Tag) (items : List Node)
  | mapping (tag : Tag) (entries : List (Node × Node))

/-- Why a text has no value. -/
inductive Error where
  /-- The text is no YAML, or a node does not fit its tag. -/
  | malformed
  /-- A number, a date or an escape that names nothing. -/
  | noSuchValue
  /-- A number without any character. -/
  | noNumber
  /-- A word that is no truth value. -/
  | noTruthValue
  /-- A key that holds a list. -/
  | listInKey
  /-- A key twice in an ordered map. -/
  | repeatedKey
  /-- A node that contains itself. -/
  | endless
  /-- A version of the language that does not exist. -/
  | unknownVersion
  /-- A moment rounded beyond the calendar. -/
  | beyondCalendar
  deriving DecidableEq

/-- What a text writes: its node, none when the text is empty. -/
structure Parsed where
  root : Option Node
  /-- Do the rules of the older version hold? -/
  older : Bool
  /-- Is there an alias inside the very node that it refers to? -/
  endless : Bool

namespace Node

/-- What is left to be read, the anchored nodes, and the handles of tags. An anchor has no node
while its node is being read. -/
structure Reading where
  tokens : List Token
  anchors : List (Text × Option Node) := []
  handles : List (Text × Text) := []
  version : Option (Nat × Nat)
  endless : Bool := false

abbrev Reader := StateT Reading (Except Error)

def fail {α : Type} : Reader α := throw .malformed

/-- The next token, which stays. -/
def peek : Reader (Option Token) := return (← get).tokens.head?

/-- Drops the next token. -/
def drop : Reader Unit := modify fun r => { r with tokens := r.tokens.drop 1 }

/-- Reads under the older rules? -/
def older : Reader Bool := return isOlder (← get).version

/-- The node of an absent text. -/
def empty : Node := .scalar .null []

/-- The version in which plain scalars get their kinds; there are only two. -/
def checkVersion : Reader Unit := do
  match (← get).version with
  | none => pure ()
  | some v => if v = (1, 1) || v = (1, 2) then pure () else throw .unknownVersion

/-- A scalar without a tag, or with the tag that leaves the kind open. -/
def implicitScalar (t : Text) : Reader Node := do
  checkVersion
  return .scalar (Tag.ofPlain (← older) t) t

def tagName (name : TagName) : Reader Text := do
  match name.handle with
  | none => return name.suffix
  | some h =>
    match (← get).handles.lookup h with
    | some lead => return lead ++ name.suffix
    | none => fail

/-- The anchor and the tag in front of a node, in either order. -/
def properties : Reader (Option Text × Option Text) := do
  match ← peek with
  | some (.anchor a) =>
    drop
    match ← peek with
    | some (.tag t) => drop; return (some a, some (← tagName t))
    | _ => return (some a, none)
  | some (.tag t) =>
    drop
    match ← peek with
    | some (.anchor a) => drop; return (some a, some (← tagName t))
    | _ => return (none, some (← tagName t))
  | _ => return (none, none)

def openTag : Text := ['!']

def collectionTag (tag : Option Text) (usual : Tag) : Tag :=
  match tag with
  | none => usual
  | some t => if t = openTag then usual else Tag.ofName t

/-- Sets the node of an anchor. -/
def bind? (anchor : Option Text) (n : Option Node) : Reader Unit :=
  match anchor with
  | none => pure ()
  | some a => modify fun r => { r with anchors := (a, n) :: r.anchors }

/-- Does a value or key end at once, with the next entry of a block mapping? -/
def endsBlockItem (t : Option Token) : Bool :=
  match t with
  | some .key => true
  | some .value => true
  | some .blockEnd => true
  | _ => false

/-- Does an item of a flow sequence end at once? -/
def endsSequenceItem (t : Option Token) : Bool :=
  match t with
  | some .flowEntry => true
  | some .flowSequenceEnd => true
  | _ => false

/-- Does an item of a flow mapping end at once? -/
def endsMappingItem (t : Option Token) : Bool :=
  match t with
  | some .flowEntry => true
  | some .flowMappingEnd => true
  | _ => false

def isValueToken (t : Option Token) : Bool :=
  match t with
  | some .value => true
  | _ => false

mutual

/-- Reads a node. `block` admits block collections; `bare` admits the entries of a sequence that is
not indented deeper than the mapping around it. -/
def read (block bare : Bool) : Nat → Reader Node
  | 0 => fail
  | fuel + 1 => do
    match ← peek with
    | some (.alias a) =>
      drop
      match (← get).anchors.lookup a with
      | some (some n) => return n
      | some none => modify fun r => { r with endless := true }; return empty
      | none => fail
    | _ =>
      let (anchor, tag) ← properties
      let collection (usual : Tag) (items : Reader (Tag → Node)) : Reader Node := do
        bind? anchor none
        let make ← items
        let n := make (collectionTag tag usual)
        bind? anchor n
        return n
      match ← peek with
      | some (.scalar t plain) =>
        drop
        let n ← match tag with
          | none => if plain then implicitScalar t else pure (.scalar .str t)
          | some name => if name = openTag then implicitScalar t else pure (.scalar (Tag.ofName name) t)
        bind? anchor n
        return n
      | some .flowSequence => drop; collection .seq do
          let items ← flowItems true fuel
          return (.sequence · items)
      | some .flowMapping => drop; collection .map do
          let entries ← flowEntries true fuel
          return (.mapping · entries)
      | other =>
        match block, other with
        | true, some .blockSequence => drop; collection .seq do
            let items ← blockItems fuel
            return (.sequence · items)
        | true, some .blockMapping => drop; collection .map do
            let entries ← blockEntries fuel
            return (.mapping · entries)
        | _, _ =>
          match bare, other with
          | true, some .entry => collection .seq do
              let items ← bareItems fuel
              return (.sequence · items)
          | _, _ =>
            if anchor.isNone && tag.isNone then fail
            else
              let n ← match tag with
                | none => implicitScalar []
                | some name => if name = openTag then implicitScalar [] else pure (.scalar (Tag.ofName name) [])
              bind? anchor n
              return n

/-- The items of a block sequence, up to its end. -/
def blockItems : Nat → Reader (List Node)
  | 0 => fail
  | fuel + 1 => do
    match ← peek with
    | some .entry =>
      drop
      let item ← match ← peek with
        | some .entry => pure empty
        | some .blockEnd => pure empty
        | _ => read true false fuel
      return item :: (← blockItems fuel)
    | some .blockEnd => drop; return []
    | _ => fail

def bareItems : Nat → Reader (List Node)
  | 0 => fail
  | fuel + 1 => do
    match ← peek with
    | some .entry =>
      drop
      let next ← peek
      let item ← match next with
        | some .entry => pure empty
        | _ => if endsBlockItem next then pure empty else read true false fuel
      return item :: (← bareItems fuel)
    | _ => return []

/-- A key or value of a block mapping, which may be absent. -/
def blockItem : Nat → Reader Node
  | 0 => fail
  | fuel + 1 => do
    if endsBlockItem (← peek) then return empty else read true true fuel

/-- The entries of a block mapping, up to its end. -/
def blockEntries : Nat → Reader (List (Node × Node))
  | 0 => fail
  | fuel + 1 => do
    let next ← peek
    match next with
    | some .blockEnd => drop; return []
    | _ =>
      let key ← match next with
        | some .key => drop; blockItem fuel
        | some .value => if ← older then fail else pure empty
        | _ => fail
      let value ← if isValueToken (← peek) then drop; blockItem fuel else pure empty
      return (key, value) :: (← blockEntries fuel)

/-- The items of a flow sequence, up to its end; a comma stands before each but the first. -/
def flowItems (first : Bool) : Nat → Reader (List Node)
  | 0 => fail
  | fuel + 1 => do
    let comma ← match first, ← peek with
      | false, some .flowEntry => drop; pure true
      | _, _ => pure first
    match ← peek with
    | some .flowSequenceEnd => drop; return []
    | some .key =>
      if !comma then fail
      drop
      let next ← peek
      let key ← if isValueToken next || endsSequenceItem next then pure empty else read false false fuel
      let value ← if isValueToken (← peek) then do
          drop
          if endsSequenceItem (← peek) then pure empty else read false false fuel
        else pure empty
      return .mapping .map [(key, value)] :: (← flowItems false fuel)
    | _ =>
      if !comma then fail
      let item ← read false false fuel
      return item :: (← flowItems false fuel)

/-- The entries of a flow mapping, up to its end. -/
def flowEntries (first : Bool) : Nat → Reader (List (Node × Node))
  | 0 => fail
  | fuel + 1 => do
    let comma ← match first, ← peek with
      | false, some .flowEntry => drop; pure true
      | _, _ => pure first
    match ← peek with
    | some .flowMappingEnd => drop; return []
    | some .key =>
      if !comma then fail
      drop
      let next ← peek
      let key ← if isValueToken next || endsMappingItem next then pure empty else read false false fuel
      let value ← flowValue fuel
      return (key, value) :: (← flowEntries false fuel)
    | some .value =>
      if !comma || (← older) then fail
      let value ← flowValue fuel
      return (empty, value) :: (← flowEntries false fuel)
    | _ =>
      if !comma then fail
      let key ← read false false fuel
      return (key, empty) :: (← flowEntries false fuel)

/-- The value of an entry of a flow mapping, which may be absent. -/
def flowValue : Nat → Reader Node
  | 0 => fail
  | fuel + 1 => do
    if isValueToken (← peek) then
      drop
      if endsMappingItem (← peek) then return empty else read false false fuel
    else return empty

end

/-- The handles every document knows. -/
def commonHandles : List (Text × Text) := [(['!'], ['!']), ("!!".toList, Tag.commonLead)]

/-- The directives in front of a document: whether a version has been named, and the handles. -/
def directives : Nat → Bool → List (Text × Text) → Reader (List (Text × Text))
  | 0, _, _ => fail
  | fuel + 1, versioned, handles => do
    match ← peek with
    | some (.version major _) =>
      drop
      if versioned || major ≠ 1 then fail else directives fuel true handles
    | some (.handle name lead) =>
      drop
      if (handles.lookup name).isSome then fail else directives fuel versioned ((name, lead) :: handles)
    | some .directive => drop; directives fuel versioned handles
    | _ => return handles

/-- Does a document end or another one start here? -/
def isBoundary (t : Option Token) : Bool :=
  match t with
  | none => true
  | some (.version _ _) => true
  | some (.handle _ _) => true
  | some .directive => true
  | some .documentStart => true
  | _ => false

/-- Reads the single document of a text, if it has one. -/
def document (fuel : Nat) : Reader (Option Node) := do
  let next ← peek
  let node ←
    if !isBoundary next then do
      modify fun r => { r with handles := commonHandles }
      some <$> read true false fuel
    else if next.isNone then pure none
    else do
      let handles ← directives fuel false []
      modify fun r => { r with handles := handles ++ commonHandles }
      match ← peek with
      | some .documentStart =>
        drop
        let next ← peek
        let ends := match next with
          | some .documentEnd => true
          | _ => isBoundary next
        some <$> if ends then implicitScalar [] else read true false fuel
      | _ => fail
  match ← peek with
  | some .documentEnd => drop
  | _ => pure ()
  match ← peek with
  | none => return node
  | some _ => fail

end Node

def Parsed.ofText (t : Text) : Except Error Parsed :=
  match tokens t with
  | .error .malformed => .error .malformed
  | .error .noCharacter => .error .noSuchValue
  | .ok (ts, version) =>
    (Node.document (2 * ts.length + 8) { tokens := ts, version }).map fun (root, r) =>
      ⟨root, isOlder version, r.endless⟩

end Sitewright.Yaml
