import Sitewright.Calendar.Iso
import Sitewright.Header
import Sitewright.Text.Number

/-!
Pages: what the site knows of a document that has an identifier. Every field has one normal form,
whatever kind of value the header gives for it.
-/
namespace Sitewright

inductive PageKind where
  | page
  | post
  | section
  deriving DecidableEq

namespace PageKind

def name : PageKind → Text
  | page => "page".toList
  | post => "post".toList
  | .section => "section".toList

/-- All kinds. -/
def all : List PageKind := [page, post, .section]

def ofName? (t : Text) : Option PageKind := all.find? fun k => k.name = t

end PageKind

/-- The parent of pages without one, which is no page itself. -/
def rootId : Text := "root".toList

/-- The layout of pages that name none. -/
def defaultTemplate : Text := "default".toList

/-- The order of pages that give none; it puts them behind most others. -/
def defaultOrder : Int := 999

/-- A page. -/
structure Page where
  id : Text
  title : Text := []
  kind : PageKind := .page
  category : Text := []
  labels : List Text := []
  parent : Text := rootId
  order : Int := defaultOrder
  author : Text := []
  date : Option Date := none
  description : Text := []
  keywords : List Text := []
  template : Text := defaultTemplate
  deriving DecidableEq

/-- What is wrong with a page or with the pages of a site. -/
inductive PageFault where
  | missingId
  | badId (id : Text)
  | reservedId (id : Text)
  | badKind (kind id : Text)
  /-- Two pages with one identifier; `first` is the path of the earlier one where it is known. -/
  | duplicate (id : Text) (first : Option Text)
  | orphan (id parent : Text)
  /-- The identifiers along a cycle of parents; the first one comes again at the end. -/
  | cycle (loop : List Text)
  deriving DecidableEq

namespace PageFault

/-- The identifier of the page to blame. -/
def id? : PageFault → Option Text
  | missingId => none
  | badId id => some id
  | reservedId id => some id
  | badKind _ id => some id
  | duplicate id _ => some id
  | orphan id _ => some id
  | cycle loop => loop.getLast?

/-- What a reader is told. -/
def message : PageFault → Text
  | missingId => "Short-URI is required".toList
  | badId id => "Short-URI ".toList ++ Text.quoted id ++
      " contains invalid characters. Use only letters, numbers, hyphens, and underscores.".toList
  | reservedId id => "Short-URI ".toList ++ Text.quoted id ++ " is reserved for the site root.".toList
  | badKind kind _ => "Invalid Type: ".toList ++ Text.quoted kind ++ ". Must be one of: ".toList ++
      Text.join ", ".toList (PageKind.all.map PageKind.name)
  | duplicate id first => "Duplicate Short-URI ".toList ++ Text.quoted id ++
      match first with
      | some path => " (already used by ".toList ++ path ++ [')']
      | none => []
  | orphan id parent =>
    "Page ".toList ++ Text.quoted id ++ " has unknown parent ".toList ++ Text.quoted parent
  | cycle loop => "Circular parent reference: ".toList ++ Text.join " -> ".toList loop

end PageFault

/-- A fault of a page, with the path of its document where it is known. -/
structure PageError where
  path : Text
  fault : PageFault
  deriving DecidableEq

/-- What a reader is told: the path, if any, and the fault. -/
def PageError.message (e : PageError) : Text :=
  if e.path.isEmpty then e.fault.message else e.path ++ ": ".toList ++ e.fault.message

/-- Why the fields of a header make no page. -/
inductive PageFailure where
  | invalid (fault : PageFault)
  /-- A date whose day in UTC lies beyond the calendar. -/
  | beyondCalendar
  /-- An integer with more digits than one is written with, in place of a text. -/
  | tooLong
  deriving DecidableEq

namespace Page

/-- Does the page stand at the top of the site? -/
def isTop (p : Page) : Bool := p.parent = rootId

def isIdChar (c : Char) : Bool := c.isAlphanum || c = '-' || c = '_'

/-- Is the text made of the characters of identifiers? One line feed behind them is let through. -/
def isIdText (t : Text) : Bool :=
  let t := match t.getLast? with
    | some '\n' => t.dropLast
    | _ => t
  !t.isEmpty && t.all isIdChar

def checkId (id : Text) : Except PageFault Unit :=
  if !isIdText id then .error (.badId id)
  else if id = rootId then .error (.reservedId id)
  else .ok ()

/-- A value as text, without white space at either end. -/
def valueText (v : Value) : Except PageFailure Text :=
  match v.stripped? with
  | some t => .ok t
  | none => .error .tooLong

/-- The text of a field; an absent one has none. -/
def fieldText (v : Option Value) : Except PageFailure Text :=
  match v with
  | none => .ok []
  | some .null => .ok []
  | some v => valueText v

/-- The texts of a field that is a single value or a list of them; empty ones are left out. -/
def fieldTexts (v : Option Value) : Except PageFailure (List Text) :=
  let ofItems (items : List Value) : Except PageFailure (List Text) :=
    (items.mapM valueText).map fun ts => ts.filter fun t => !t.isEmpty
  match v with
  | none => .ok []
  | some .null => .ok []
  | some (.list items) => ofItems items
  | some (.tuple items) => ofItems items
  | some v => ofItems [v]

/-- The moment that a text writes; a final `Z` stands for UTC. -/
def textMoment? (t : Text) : Option Moment :=
  let t := Text.strip t
  Iso.moment? (if t.getLast? = some 'Z' then t.dropLast ++ "+00:00".toList else t)

/-- The calendar day of a field, that of UTC for a moment with an offset. What is no date has
none; beyond the calendar there is no answer. -/
def fieldDate (v : Option Value) : Except PageFailure (Option Date) :=
  let ofMoment (m : Moment) : Except PageFailure (Option Date) :=
    match m.utcDate? with
    | some d => .ok (some d)
    | none => .error .beyondCalendar
  match v with
  | some (.date d) => .ok (some d)
  | some (.moment m) => ofMoment m
  | some (.text t) =>
    match textMoment? t with
    | some m => ofMoment m
    | none => .ok none
  | _ => .ok none

/-- The order of a field; what is no integer is as if absent. -/
def fieldOrder (v : Option Value) : Int :=
  match v with
  | some (.int i) => i
  | some (.float x) => x.toInt?.getD defaultOrder
  | some (.text t) => (Text.readInt? t).getD defaultOrder
  | _ => defaultOrder

/-- The text, or another one if it is empty. -/
def orElse (t other : Text) : Text := if t.isEmpty then other else t

/-- The identifier that the fields of a header give, checked. -/
def idOf (fields : Fields) : Except PageFailure Text := do
  let id ← fieldText (fields.get? "Short-URI")
  if id.isEmpty then throw (.invalid .missingId)
  (checkId id).mapError .invalid
  return id

/-- The kind that the fields of a header give to the page of an identifier. -/
def kindOf (fields : Fields) (id : Text) : Except PageFailure PageKind := do
  let name := orElse (← fieldText (fields.get? "Type")) PageKind.page.name
  match PageKind.ofName? name with
  | some kind => return kind
  | none => throw (.invalid (.badKind name id))

/-- The title that the fields of a header give, in either spelling. -/
def titleOf (fields : Fields) : Except PageFailure Text := do
  let title ← fieldText (fields.get? "title")
  if title.isEmpty then fieldText (fields.get? "Title") else return title

/-- The page that the fields of a header describe. -/
def ofFields (fields : Fields) : Except PageFailure Page := do
  let text (name : String) : Except PageFailure Text := fieldText (fields.get? name)
  let id ← idOf fields
  let kind ← kindOf fields id
  let parent ← text "Parent"
  let title ← titleOf fields
  let category ← text "Category"
  let labels ← fieldTexts (fields.get? "Labels")
  let author ← text "Author"
  let date ← fieldDate (fields.get? "Date")
  let description ← text "Description"
  let keywords ← fieldTexts (fields.get? "Keywords")
  let template ← text "Template"
  return {
    id, kind, category, labels, author, date, description, keywords
    title := orElse title id
    parent := orElse parent rootId
    order := fieldOrder (fields.get? "Order")
    template := orElse template defaultTemplate }

end Page
end Sitewright
