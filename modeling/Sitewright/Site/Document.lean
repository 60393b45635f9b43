import Sitewright.Catalog

/-!
Documents as they are loaded: header, body, and the page they make if they have an identifier.
-/
namespace Sitewright

/-- A document at its path below the content directory. One without an identifier is no page of
the site, but is published all the same. -/
structure Document where
  path : Text
  fields : Fields
  body : Text
  page : Option Page

/-- Why a document cannot be loaded. -/
inductive LoadError where
  | header (e : HeaderError)
  | page (e : PageError)
  /-- A date whose day in UTC lies beyond the calendar. -/
  | beyondCalendar
  /-- An integer with more digits than one is written with, in place of a text. -/
  | tooLong

/-- What a reader is told. -/
def LoadError.message : LoadError → Text
  | header e => e.message
  | page e => e.message
  | beyondCalendar => "The date of a document lies beyond the calendar.".toList
  | tooLong => "A number in the header of a document is too long.".toList

namespace Document

/-- The page that header fields make, none without an identifier. -/
def pageOf (path : Text) (fields : Fields) : Except LoadError (Option Page) :=
  match Page.ofFields fields with
  | .ok p => .ok (some p)
  | .error (.invalid .missingId) => .ok none
  | .error (.invalid fault) => .error (.page ⟨path, fault⟩)
  | .error .beyondCalendar => .error .beyondCalendar
  | .error .tooLong => .error .tooLong

def load (text path : Text) : Except LoadError Document := do
  let split ← (Header.split text).mapError .header
  let page ← pageOf path split.fields
  return ⟨path, split.fields, split.body, page⟩

/-- The page of a document with its path. -/
def placed? (d : Document) : Option Placed := d.page.map fun p => ⟨d.path, p⟩

/-- A field, none if it counts as false. -/
def fieldIfTrue? (d : Document) (name : String) : Option Value :=
  (d.fields.get? name).filter Value.isTrue

/-- The field that a document without a page has its title from. -/
def titleField? (d : Document) : Option Value := d.fieldIfTrue? "title" <|> d.fieldIfTrue? "Title"

def title (usual : Text) (d : Document) : Text :=
  match d.page with
  | some p => p.title
  | none => (d.titleField?.map fun v => Text.strip v.shown).getD usual

/-- The name of the layout of a document. -/
def template (d : Document) : Text :=
  match d.page with
  | some p => p.template
  | none => ((d.fieldIfTrue? "Template").map Value.shown).getD defaultTemplate

/-- Can the title of a document and the name of its layout be written? -/
def isWritable (d : Document) : Bool :=
  d.page.isSome || d.titleField?.all Value.isWritable && (d.fieldIfTrue? "Template").all Value.isWritable

end Document
end Sitewright
