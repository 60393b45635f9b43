import Sitewright.CodeStyle
import Sitewright.Config
import Sitewright.Layouts
import Sitewright.Markdown.Compile
import Sitewright.Site.Index
import Sitewright.Sitemap

/-!
Rendering documents and listings of a site in their layouts.
-/
namespace Sitewright

/-- A site: its configuration and what its pages are put together from. -/
structure Site where
  config : Config
  components : Components
  layouts : Layouts

/-- Why a page cannot be rendered. -/
inductive RenderError where
  | component (e : ComponentError)
  | layout (e : LayoutError)
  | unknownStyle
  /-- An integer with more digits than one is written with, in place of a text. -/
  | tooLong

/-- What a reader is told. -/
def RenderError.message : RenderError → Text
  | component e => e.message
  | layout e => e.message
  | unknownStyle => "There is no such style for code.".toList
  | tooLong => "A number in the header of a document is too long.".toList

namespace Site

/-- The body of a document as HTML, listings of the pages below it included. -/
def content (site : Site) (index : Index) (d : Document) : Except RenderError Text := do
  let children := match d.page with
    | some p => (index.children.lookup p.id).getD []
    | none => []
  let body ← (Directive.expandAll site.components children none d.body).mapError .component
  if !CodeStyle.isKnown site.config.codeStyle && Markdown.hasCode body then throw .unknownStyle
  return Markdown.compile body

/-- What all pages of a site offer to their layouts. -/
def commonContext (site : Site) (index : Index) (title content : Text) : Context where
  title := title
  content := content
  basePath := site.config.basePath
  navigation := index.navigation
  siteLabels := index.labels
  styles := site.config.styles
  scripts := site.config.scripts

/-- What a document offers to its layout. -/
def context (site : Site) (index : Index) (d : Document) (content : Text) : Context :=
  let base := site.config.basePath
  let common := { site.commonContext index (d.title site.config.defaultTitle) content with
    navigation := index.navigation.map (NavItem.marked base d.path) }
  match d.page with
  | none => common
  | some p => { common with
      description := p.description
      keywords := Text.join ", ".toList p.keywords
      author := p.author
      date := p.date.map .inl
      category := p.category
      labels := p.labels
      trail := index.trail base p.id }

def render (site : Site) (index : Index) (d : Document) : Except RenderError Text := do
  let content ← site.content index d
  if !d.isWritable then throw .tooLong
  (site.layouts.render site.components d.template (site.context index d content)).mapError .layout

/-- The date of an entry in words, nothing if it has none. -/
def entryDate (e : Entry) : Text :=
  match e.date.bind Iso.moment? with
  | some m => m.date.inWords
  | none => []

def listingItem (e : Entry) : Value :=
  .map ([("url", e.url), ("title", e.title), ("description", e.description), ("category", e.category),
    ("date_iso", e.date.getD []), ("date", entryDate e)].map
    fun (name, t) => (.text name.toList, .text t))

def renderListing (site : Site) (index : Index) (heading description : Text) (entries : List Entry) :
    Except RenderError Text := do
  let content ← (site.components.render "listing-index".toList
    [("heading".toList, .text heading), ("pages".toList, .list (entries.map listingItem))]).mapError .component
  let ctx := { site.commonContext index heading content with description }
  (site.layouts.render site.components defaultTemplate ctx).mapError .layout

/-- A listing of the site: where it is published, its heading and its description, and its pages. -/
structure Listing where
  path : Text
  heading : Text
  description : Text
  entries : List Entry

/-- Where the listing of a name is published below a directory. -/
def listingPath (directory name : Text) : Text := directory ++ '/' :: slug name ++ "/index.html".toList

/-- The listings of a site: of labels, then of categories. -/
def listings (index : Index) : List Listing :=
  let groups (gs : List Catalog.Group) := Catalog.listed Catalog.leastListed gs
  (groups (Catalog.byLabel index.catalog)).map (fun (label, es) =>
    ⟨listingPath Sitemap.labelDirectory label, "Label: ".toList ++ label,
      "All pages tagged with \"".toList ++ label ++ ['"'], es⟩) ++
  (groups (Catalog.byCategory index.catalog)).map fun (category, es) =>
    ⟨listingPath Sitemap.categoryDirectory category, "Category: ".toList ++ category,
      "All pages in the \"".toList ++ category ++ "\" category".toList, es⟩

end Site
end Sitewright
