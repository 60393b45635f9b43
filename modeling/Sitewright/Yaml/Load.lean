import Sitewright.Text.Base64
import Sitewright.Value
import Sitewright.Yaml.Number

/-!
The value of a YAML text. A text may have several faults; the one nearest to the root counts, and
of those equally near the first. The parts of a key are as near as the key itself.
-/
namespace Sitewright.Yaml

/-- A fault and how many collections below the node in question it lies. -/
structure Fault where
  depth : Nat
  error : Error

abbrev Load (α : Type) := Except Fault α

def fault {α : Type} (e : Error) : Load α := .error ⟨0, e⟩

/-- The fault as one of the node itself. -/
def Load.ofExcept {α : Type} (r : Except Error α) : Load α := r.mapError fun e => ⟨0, e⟩

/-- Combines two results that are taken one after the other; of two faults the nearer counts. -/
def Load.both {α β γ : Type} (f : α → β → γ) (a : Load α) (b : Load β) : Load γ :=
  match a, b with
  | .ok x, .ok y => .ok (f x y)
  | .error e, .error e' => .error (if e'.depth < e.depth then e' else e)
  | .error e, _ => .error e
  | _, .error e => .error e

/-- All results of a list. -/
def Load.all {α : Type} : List (Load α) → Load (List α)
  | [] => .ok []
  | a :: as => Load.both List.cons a (Load.all as)

/-- The contents of a collection. They lie below it, but not those of a key. -/
def Load.below {α : Type} (inKey : Bool) (a : Load α) : Load α :=
  if inKey then a else a.mapError fun e => { e with depth := e.depth + 1 }

/-- An entry of a map with its value not yet needed. -/
structure LoadedEntry where
  /-- The key as it is loaded when it stands for a key. -/
  key : Load Value
  value : Load Value

/-- The entries of a map: those merged in, and its own ones. -/
structure Entries where
  merged : List LoadedEntry
  own : List LoadedEntry

/-- All entries in the order in which later ones win. -/
def Entries.all (es : Entries) : List LoadedEntry := es.merged ++ es.own

def scalarValue (older : Bool) (tag : Tag) (t : Text) : Except Error Value :=
  match tag with
  | .null => .ok .null
  | .bool =>
    let word := Text.lower t
    if ["yes", "y", "true", "on"].any fun w => w.toList = word then .ok (.bool true)
    else if ["no", "n", "false", "off"].any fun w => w.toList = word then .ok (.bool false)
    else .error .noTruthValue
  | .int => (readInt older t).map .int
  | .float => (readFloat older t).map .float
  | .timestamp =>
    match (Stamp.ofText? t).map Stamp.value with
    | none => .error .malformed
    | some (.ok (.inl d)) => .ok (.date d)
    | some (.ok (.inr m)) => .ok (.moment m)
    | some (.error .notInCalendar) => .error .noSuchValue
    | some (.error .beyondCalendar) => .error .beyondCalendar
  | .binary =>
    if t.all fun c => c.toNat < 128 then
      match Base64.decode? t with
      | some bs => .ok (.bytes bs)
      | none => .error .malformed
    else .error .malformed
  | .str => .ok (.text t)
  | _ => .error .malformed

/-- Is this a kind of scalars whose text may stand in a map, under the key that is an equals sign? -/
def Tag.admitsMap (tag : Tag) : Bool :=
  match tag with
  | .null => true
  | .bool => true
  | .int => true
  | .float => true
  | .binary => true
  | .str => true
  | _ => false

namespace Node

/-- The kind of a node. -/
def tag : Node → Tag
  | .scalar t _ => t
  | .sequence t _ => t
  | .mapping t _ => t

def isCollection : Node → Bool
  | .scalar _ _ => false
  | _ => true

mutual

/-- The text of a scalar, or of the one under an equals sign in a map. -/
def scalarText? : Node → Option Text
  | .scalar _ t => some t
  | .sequence _ _ => none
  | .mapping _ entries => textOfEntries? entries

/-- The text under an equals sign among entries. -/
def textOfEntries? : List (Node × Node) → Option Text
  | [] => none
  | e :: es => match textOfEntry? e with
    | some found => found
    | none => textOfEntries? es

/-- The text of an entry, if its key is an equals sign. -/
def textOfEntry? : Node × Node → Option (Option Text)
  | (k, v) => if k.tag = .value then some (scalarText? v) else none

end

end Node

/-- A key: a list becomes a tuple, and nothing else that can change is a key. -/
def asKey (v : Value) : Load Value :=
  match v with
  | .list items => .ok (.tuple items)
  | .map _ => fault .malformed
  | .set _ => fault .malformed
  | v => .ok v

/-- Checks a key against those before it, which are given if none may occur twice. -/
def checkKey (before : Option (List Value)) (key : Value) : Load Unit :=
  if !key.isKey then fault .listInKey
  else if (before.getD []).any key.same then fault .malformed
  else .ok ()

/-- The entries of a map, each a value under a key. -/
def gather (before : Option (List Value)) : List LoadedEntry → Load (List (Value × Value))
  | [] => .ok []
  | e :: es =>
    match e.key with
    | .error f => .error f
    | .ok key =>
      let checked := Load.both (fun v () => (key, v)) e.value (checkKey before key)
      match checked with
      | .error ⟨0, e⟩ => .error ⟨0, e⟩
      | _ => Load.both List.cons checked (gather (before.map (· ++ [key])) es)

/-- The map of entries. Only one that merges nothing is checked for repeated keys. -/
def Entries.toMap (es : Entries) : Load (List (Value × Value)) :=
  if es.merged.isEmpty then gather (some []) es.own
  else (gather none (es.merged ++ es.all)).map (List.foldl (fun m (k, v) => Value.insert k v m) [])

/-- The items of an ordered map, each key once. -/
def orderedMap (before : List Value) : List (Node × Load Value × Load Value) → Load (List (Value × Value))
  | [] => .ok []
  | (node, key, value) :: es =>
    if node.isCollection then
      match key with
      | .error ⟨0, e⟩ => .error ⟨0, e⟩
      | _ => fault .listInKey
    else match key with
    | .error f => .error f
    | .ok k =>
      if before.any k.same then fault .repeatedKey
      else Load.both (fun v es => (k, v) :: es) value (orderedMap (before ++ [k]) es)

namespace Node

mutual

/-- The value of a node. `inKey` says that it is part of a key. -/
def load (older inKey : Bool) : Node → Load Value
  | .scalar tag t =>
    match tag with
    | .seq => Load.below inKey (fault .malformed)
    | .map => Load.below inKey (fault .malformed)
    | .set => Load.below inKey (fault .malformed)
    | .omap => Load.below inKey (fault .malformed)
    | .pairs => Load.below inKey (fault .malformed)
    | _ => Load.ofExcept (scalarValue older tag t)
  | .sequence tag items =>
    match tag with
    | .seq => Load.below inKey ((Load.all (loadAll older inKey items)).map .list)
    | .omap => Load.below inKey do
        let pairs ← Load.ofExcept (loadPairs older inKey items)
        return .map (← orderedMap [] pairs)
    | .pairs => Load.below inKey do
        let pairs ← Load.ofExcept (loadPairs older inKey items)
        let tuples := pairs.map fun (_, k, v) => Load.both (fun k v => Value.tuple [k, v]) k v
        return .list (← Load.all tuples)
    | .map => Load.below inKey (fault .malformed)
    | .set => Load.below inKey (fault .malformed)
    | _ => fault .malformed
  | .mapping tag entries =>
    match tag with
    | .map => Load.below inKey do
        let es ← Load.ofExcept (loadEntries older inKey [] entries)
        return .map (← es.toMap)
    | .set => Load.below inKey do
        let es ← Load.ofExcept (loadEntries older inKey [] entries)
        return .set ((← es.toMap).map (·.1))
    | .seq => Load.below inKey (fault .malformed)
    | .omap => Load.below inKey (fault .malformed)
    | .pairs => Load.below inKey (fault .malformed)
    | tag =>
      match tag.admitsMap, textOfEntries? entries with
      | true, some t => Load.ofExcept (scalarValue older tag t)
      | _, _ => fault .malformed

/-- The values of nodes. -/
def loadAll (older inKey : Bool) : List Node → List (Load Value)
  | [] => []
  | n :: ns => load older inKey n :: loadAll older inKey ns

/-- The only entries of mappings, with the nodes of their keys. -/
def loadPairs (older inKey : Bool) : List Node → Except Error (List (Node × Load Value × Load Value))
  | [] => .ok []
  | n :: ns => do
    let pair ← loadPair older inKey n
    return pair :: (← loadPairs older inKey ns)

/-- The only entry of a mapping. -/
def loadPair (older inKey : Bool) : Node → Except Error (Node × Load Value × Load Value)
  | .mapping _ entries => loadOnly older inKey entries
  | _ => .error .malformed

/-- The entry of a list of one. -/
def loadOnly (older inKey : Bool) : List (Node × Node) → Except Error (Node × Load Value × Load Value)
  | [] => .error .malformed
  | e :: es => if es.isEmpty then .ok (loadEntry older inKey e) else .error .malformed

def loadEntry (older inKey : Bool) : Node × Node → Node × Load Value × Load Value
  | (k, v) => (k, load older inKey k, load older inKey v)

/-- The entries of a mapping, other mappings merged in. -/
def loadEntries (older inKey : Bool) (merged : List LoadedEntry) :
    List (Node × Node) → Except Error Entries
  | [] => .ok ⟨merged, []⟩
  | e :: es => do
    let (more, own) ← mergeEntry older inKey e
    if own.isNone && !merged.isEmpty then throw .malformed
    let rest ← loadEntries older inKey (merged ++ more) es
    return { rest with own := own.toList ++ rest.own }

/-- The entries that an entry merges in, or the entry itself. -/
def mergeEntry (older inKey : Bool) : Node × Node → Except Error (List LoadedEntry × Option LoadedEntry)
  | (k, v) =>
    match k.tag with
    | .merge => (mergeNode older inKey v).map (·, none)
    | .value => .ok ([], some ⟨.ok (.text ['=']), load older inKey v⟩)
    | _ => .ok ([], some ⟨load older true k >>= asKey, load older inKey v⟩)

/-- The entries of a mapping, or of those in a sequence, the last one first. -/
def mergeNode (older inKey : Bool) : Node → Except Error (List LoadedEntry)
  | .scalar _ _ => .error .malformed
  | .mapping _ entries => (loadEntries older inKey [] entries).map Entries.all
  | .sequence _ items => (mergeNodes older inKey items).map fun es => es.reverse.flatten

/-- The entries of several mappings. -/
def mergeNodes (older inKey : Bool) : List Node → Except Error (List (List LoadedEntry))
  | [] => .ok []
  | n :: ns => do
    let es ← mergeMapping older inKey n
    return es :: (← mergeNodes older inKey ns)

def mergeMapping (older inKey : Bool) : Node → Except Error (List LoadedEntry)
  | .mapping _ entries => (loadEntries older inKey [] entries).map Entries.all
  | _ => .error .malformed

end
end Node

/-- The value that a text writes; none when the text is empty. -/
def load (t : Text) : Except Error (Option Value) := do
  let doc ← Parsed.ofText t
  match doc.root with
  | none => return none
  | some node =>
    match node.load doc.older false with
    | .error f => throw f.error
    | .ok v => if doc.endless then throw .endless else return some v

end Sitewright.Yaml
