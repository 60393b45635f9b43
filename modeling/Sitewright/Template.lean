import Sitewright.Calendar.Moment
import Sitewright.Component.Registry
import Sitewright.Navigation
import Sitewright.Reading
import Sitewright.Text.Scan

/-!
Layout templates: HTML with tags that stand for values of a page, and blocks that are kept only if
a tag is not empty. Blocks are decided first, so the tags inside a kept block count.
-/
namespace Sitewright

/-- What a page offers to its layout. -/
structure Context where
  title : Text
  content : Text := []
  description : Text := []
  keywords : Text := []
  basePath : Text := []
  navigation : List NavItem := []
  siteLabels : List Text := []
  styles : List Text := []
  scripts : List Text := []
  author : Text := []
  date : Option (Date ⊕ Moment) := none
  category : Text := []
  labels : List Text := []
  /-- The trail to the page: titles and addresses. -/
  trail : List (Text × Text) := []

inductive TagError where
  | component (e : ComponentError)
  /-- A date whose day in UTC lies beyond the calendar. -/
  | beyondCalendar

namespace Day

/-- The day in words, that of UTC for a moment with an offset. -/
def inWords (d : Date ⊕ Moment) : Except TagError Text :=
  match d with
  | .inl d => .ok d.inWords
  | .inr m =>
    match m.utcDate? with
    | some d => .ok d.inWords
    | none => .error .beyondCalendar

/-- The day as it is written in the date itself. -/
def iso (d : Date ⊕ Moment) : Text :=
  match d with
  | .inl d => d.iso
  | .inr m => m.date.iso

end Day

namespace NavItem

/-- The link as an item of the navigation component. -/
def item (i : NavItem) : Value :=
  .map [(.text "label".toList, .text i.label), (.text "href".toList, .text i.href),
    (.text "active".toList, .bool i.active), (.text "hx_boost".toList, .bool i.boosted),
    (.text "order".toList, .int i.order)]

end NavItem

namespace Template

/-- A tag in a template. -/
def written (name : Text) : Text := "\x7b\x7b".toList ++ name ++ "\x7d\x7d".toList

def texts (ts : List Text) : Value := .list (ts.map .text)

/-- The date of a page in words, nothing without a date. -/
def dateInWords (ctx : Context) : Except TagError Text :=
  match ctx.date with
  | some d => Day.inWords d
  | none => .ok []

/-- Renders a component with props. -/
def part (components : Components) (name : String) (props : List (String × Value)) : Except TagError Text :=
  (components.render name.toList (props.map fun (n, v) => (n.toList, v))).mapError .component

/-- The value of a tag; a name that is none stands for the tag itself. -/
def resolve (components : Components) (ctx : Context) (name : Text) : Except TagError Text :=
  let part := part components
  match String.ofList name with
  | "head" => part "head" [("title", .text ctx.title), ("base_path", .text ctx.basePath),
      ("description", .text ctx.description), ("keywords", .text ctx.keywords),
      ("css_files", texts ctx.styles), ("js_files", texts ctx.scripts)]
  | "navigation" => part "navigation" [("items", .list (ctx.navigation.map NavItem.item))]
  | "content" => .ok ctx.content
  | "label-footer" =>
    part "label-footer" [("labels", texts ctx.siteLabels), ("base_path", .text ctx.basePath)]
  | "foot-scripts" => part "foot-scripts" [("base_path", .text ctx.basePath)]
  | "breadcrumbs" => part "breadcrumbs" [("trail", .list (ctx.trail.map fun (title, href) =>
      .map [(.text "title".toList, .text title), (.text "href".toList, .text href)]))]
  | "blog-header" => do
    let inWords ← dateInWords ctx
    part "blog-header" [("title", .text ctx.title), ("author", .text ctx.author),
      ("date_iso", .text ((ctx.date.map Day.iso).getD [])), ("date_text", .text inWords),
      ("reading_time", .text (Reading.text ctx.content)), ("category", .text ctx.category),
      ("labels", texts ctx.labels)]
  | "title" => .ok ctx.title
  | "description" => .ok ctx.description
  | "keywords" => .ok ctx.keywords
  | "author" => .ok ctx.author
  | "category" => .ok ctx.category
  | "basePath" => .ok ctx.basePath
  | "formatted-date" => dateInWords ctx
  | "reading-time" => .ok (Reading.text ctx.content)
  | "category-pill" => part "category-pill" [("category", .text ctx.category)]
  | "label-badges" => part "label-badges" [("labels", texts ctx.labels)]
  | _ => .ok (written name)

/-- Two braces that open a tag. -/
def opening : Text := "\x7b\x7b".toList

/-- Two braces that close a tag. -/
def closing : Text := "\x7d\x7d".toList

/-- The name at the start of a text, at least one character long, up to the first closing braces,
and what follows these. A name has no white space. -/
def name? : Text → Option (Text × Text)
  | [] => none
  | c :: cs =>
    if Text.isBlank c then none
    else match closing.isPrefixOf? cs with
      | some rest => some ([c], rest)
      | none => (name? cs).map fun (name, rest) => (c :: name, rest)

/-- Finds tags; what is found is the name. -/
def findTag : Text.Finder Text := fun _ after =>
  (opening.isPrefixOf? after).bind fun rest =>
    (name? rest).map fun (name, rest) => ⟨name, after.length - rest.length⟩

/-- A block: the name that decides it, and the text inside. -/
structure Block where
  name : Text
  body : Text

/-- What opens a block, up to the white space before its name. -/
def blockOpening : Text := "\x7b\x7b#if".toList

def blockClosing : Text := "\x7b\x7b/if\x7d\x7d".toList

/-- Finds blocks. A block ends at the first closing, so blocks do not nest. -/
def findBlock : Text.Finder Block := fun _ after =>
  (blockOpening.isPrefixOf? after).bind fun rest =>
    let named := rest.dropWhile Text.isBlank
    if named.length = rest.length then none
    else (name? named).bind fun (name, rest) =>
      (Text.breakAt? blockClosing rest).map fun (body, rest) =>
        ⟨⟨name, body⟩, after.length - rest.length⟩

def decideBlocks (components : Components) (ctx : Context) (template : Text) : Except TagError Text :=
  Text.substituteM findBlock (fun b => do
    let value ← resolve components ctx b.name
    return if value.isEmpty then [] else b.body) template

def fill (components : Components) (ctx : Context) (template : Text) : Except TagError Text := do
  Text.substituteM findTag (resolve components ctx) (← decideBlocks components ctx template)

end Template
end Sitewright
