import Sitewright.Calendar.Date
import Sitewright.Component.Registry
import Sitewright.Hypermedia
import Sitewright.Page
import Sitewright.Shield

/-!
Listings of the pages below a page. A directive in a document's body, outside code, stands for such
a listing; it may say how the pages are sorted.
-/
namespace Sitewright

/-- A page in the listing of the page above it. -/
structure Child where
  title : Text
  url : Text
  description : Text := []
  date : Option Date := none
  category : Text := []
  order : Int := defaultOrder
  deriving DecidableEq

namespace Child

def ofPage (url : Text) (p : Page) : Child where
  title := p.title
  url := url
  description := p.description
  date := p.date
  category := p.category
  order := p.order

/-- Is one title not behind the other, without regard to case? -/
def titleInOrder (a b : Child) : Bool := !Text.lt (Text.caseFold b.title) (Text.caseFold a.title)

def inOrder (a b : Child) : Bool := a.order < b.order || (a.order = b.order && titleInOrder a b)

/-- Is the date of one child before that of the other? -/
def datedBefore (a b : Child) : Bool :=
  match a.date, b.date with
  | some d, some e => d.before e
  | _, _ => false

/-- Sorts children by date, those in the usual order before them that have none. -/
def sortDated (le : Child → Child → Bool) (children : List Child) : List Child :=
  let sorted := children.mergeSort inOrder
  (sorted.filter fun c => c.date.isSome).mergeSort le ++ sorted.filter fun c => c.date.isNone

/-- Sorts children in the way that a mode names; the usual order is for all other names. -/
def sort (mode : Option Text) (children : List Child) : List Child :=
  if mode = some "title".toList then children.mergeSort titleInOrder
  else if mode = some "date-desc".toList then sortDated (fun a b => !datedBefore a b) children
  else if mode = some "date-asc".toList then sortDated (fun a b => !datedBefore b a) children
  else children.mergeSort inOrder

/-- What a listing says about a child beside its title: its date and its category. -/
def about (c : Child) : Text :=
  Text.join " · ".toList ((c.date.map Date.inWords).toList ++ if c.category.isEmpty then [] else [c.category])

def item (c : Child) : Value :=
  .map ([("title", c.title), ("url", c.url), ("description", c.description), ("meta", c.about)].map
    fun (name, t) => (.text name.toList, .text t))

def listing (components : Components) (children : List Child) : Except ComponentError Text :=
  components.render "children-listing".toList [("children".toList, .list (children.map item))]

end Child

/-- A directive that stands for a listing, with the text behind its name. -/
structure Directive where
  options : Text

namespace Directive

/-- What the first line of a directive starts with. -/
def lead : Text := ":::children".toList

/-- What the last line of a directive is. -/
def close : Text := ":::".toList

/-- The rest behind the last line of a directive, if the text starts with such a line. -/
def close? (t : Text) : Option Text :=
  (close.isPrefixOf? t).bind fun rest =>
    let rest := rest.dropWhile Text.isSpaceTab
    if Text.atLineEnd rest then some rest else none

/-- The options behind the name of a directive, and the lines below it. -/
def open? (t : Text) : Option (Text × Text) :=
  (lead.isPrefixOf? t).bind fun rest =>
    let named := match rest with
      | [] => false
      | c :: _ => Text.isSpaceTab c || c = '\n'
    match named, Text.cutLine rest with
    | true, (options, some below) => some (options, below)
    | _, _ => none

/-- Finds directives. They start and end with a line. -/
def find : Text.Finder Directive := fun before after =>
  if Text.atLineStart before then
    (open? after).bind fun (options, below) =>
      (Text.breakAtLine close? true below).map fun (_, rest) => ⟨⟨options⟩, after.length - rest.length⟩
  else none

/-- The way of sorting that a directive names, none if it names none. -/
def mode? (d : Directive) : Option Text :=
  let named := (Hypermedia.attributes d.options).filter fun a => a.key = "sort".toList
  (named.getLast?.bind Hypermedia.Attribute.value).filter fun t => !t.isEmpty

/-- The listing that a directive stands for, as a raw fence. `mode` counts if it names none. -/
def expand (components : Components) (children : List Child) (mode : Option Text)
    (d : Directive) : Except ComponentError Text := do
  let html ← Child.listing components (Child.sort (d.mode? <|> mode) children)
  return ":::html\n".toList ++ html ++ "\n:::".toList

/-- Is there a directive in the text between code? -/
def occursIn (body : Text) : Bool := !(Text.findAll find (outsideCode body)).isEmpty

/-- The body with every directive outside code replaced by its listing. -/
def expandAll (components : Components) (children : List Child) (mode : Option Text)
    (body : Text) : Except ComponentError Text :=
  editOutsideCodeM (Text.substituteM find (expand components children mode)) body

end Directive
end Sitewright
