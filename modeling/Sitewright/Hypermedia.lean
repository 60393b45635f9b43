import Sitewright.Text.Blank
import Sitewright.Text.Escape
import Sitewright.Text.Scan

/-!
Hypermedia links `[text](url){attributes}`: a Markdown link with an attribute block that becomes an
anchor, or a button when it asks for a request that changes something.
-/
namespace Sitewright.Hypermedia

open Text (spanWhile)

/-- An attribute of a link: a key, and a value unless the key stands alone. -/
structure Attribute where
  key : Text
  value : Option Text
  deriving DecidableEq

/-- The value after an equals sign: quoted text, or everything up to white space. -/
def valueAfterEquals? (t : Text) : Option (Text × Nat) :=
  let bare := t.takeWhile fun c => !Text.isBlank c
  let unquoted := if bare.isEmpty then none else some (bare, bare.length)
  match t with
  | '"' :: rest =>
    match spanWhile (· ≠ '"') rest with
    | (quoted, '"' :: _) => some (quoted, quoted.length + 2)
    | _ => unquoted
  | _ => unquoted

def findAttribute : Text.Finder Attribute := fun _ after =>
  match spanWhile (fun c => !Text.isBlank c && c ≠ '=') after with
  | ([], _) => none
  | (key, '=' :: rest) =>
    match valueAfterEquals? rest with
    | some (value, size) => some ⟨⟨key, some value⟩, key.length + 1 + size⟩
    | none => some ⟨⟨key, none⟩, key.length⟩
  | (key, _) => some ⟨⟨key, none⟩, key.length⟩

/-- The attributes of a block, in order. An equals sign without a key before it is skipped. -/
def attributes (t : Text) : List Attribute := Text.findAll findAttribute t

/-- Keys that name a request. -/
def verbs : List Text := ["get", "post", "put", "patch", "delete"].map String.toList

/-- Keys that take the `hx-` form. -/
def hypermediaKeys : List Text := verbs ++
  ["target", "swap", "trigger", "select", "confirm", "push-url", "indicator", "vals", "include",
    "boost"].map String.toList

/-- Keys that make the element a button. -/
def controlKeys : List Text := ["post", "put", "patch", "delete", "trigger"].map String.toList

def plainKeys : List Text := ["class", "id", "title", "rel"].map String.toList

/-- Beginnings of further keys that are written as they are. -/
def plainKeyLeads : List Text := ["hx-", "data-", "aria-"].map String.toList

/-- An attribute as it stands in a tag. -/
def quoted (name value : Text) : Text :=
  name ++ "=\"".toList ++ Text.escapeAttribute value ++ ['"']

/-- The written form of one attribute, none for a key that means nothing here. A request without
a value goes to the link's address; any other hypermedia key without a value is `true`. -/
def writeAttribute? (url : Text) (a : Attribute) : Option Text :=
  if hypermediaKeys.contains a.key then
    let value := a.value.getD (if verbs.contains a.key then url else "true".toList)
    some (quoted ("hx-".toList ++ a.key) value)
  else if plainKeys.contains a.key || plainKeyLeads.any (·.isPrefixOf a.key) then
    some (match a.value with
      | none => a.key
      | some value => quoted a.key value)
  else none

/-- The attributes that every element of its kind starts with. -/
def leadAttributes (url : Text) (keys : List Text) : List Text :=
  if keys.any controlKeys.contains then
    "type=\"button\"".toList ::
      (if keys.any verbs.contains then [] else [quoted "hx-get".toList url])
  else [quoted "href".toList url]

/-- A link rendered as an anchor, or as a button when a control key occurs. -/
def render (text url block : Text) : Text :=
  let pairs := attributes block
  let keys := pairs.map (·.key)
  let tag := (if keys.any controlKeys.contains then "button" else "a").toList
  let written := leadAttributes url keys ++ pairs.filterMap (writeAttribute? url)
  '<' :: tag ++ ' ' :: Text.join [' '] written ++ '>' :: Text.escapeText text ++
    "</".toList ++ tag ++ ['>']

/-- A hypermedia link in a body: the text, the address and the attribute block. -/
structure Link where
  text : Text
  url : Text
  block : Text

namespace Link

/-- The link as written. -/
def source (l : Link) : Text :=
  '[' :: l.text ++ "](".toList ++ l.url ++ ")\x7b".toList ++ l.block ++ "\x7d".toList

def html (l : Link) : Text := render l.text l.url l.block

/-- A link that starts here; an exclamation mark before it makes it an image instead. -/
def at? (before after : Text) : Option Link :=
  if before.head? = some '!' then none
  else match after with
    | '[' :: rest =>
      match spanWhile (fun c => c ≠ ']' && c ≠ '\n') rest with
      | (c :: cs, ']' :: '(' :: rest) =>
        match spanWhile (fun c => c ≠ ')' && !Text.isBlank c) rest with
        | (u :: us, ')' :: '\x7b' :: rest) =>
          match spanWhile (fun c => c ≠ '\x7d' && c ≠ '\n') rest with
          | (block, '\x7d' :: _) => some ⟨c :: cs, u :: us, block⟩
          | _ => none
        | _ => none
      | _ => none
    | _ => none

def find : Text.Finder Link := fun before after =>
  (at? before after).map fun l => ⟨l, l.source.length⟩

end Link
end Sitewright.Hypermedia
