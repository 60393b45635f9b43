import Sitewright.Page
import Sitewright.Path
import Sitewright.Text.Casing

/-!
The catalog of a site: one entry a page, with the address it is published at. Labels, categories
and the JSON file that browsers fetch are read off the catalog.
-/
namespace Sitewright

/-- What the catalog says of a page. -/
structure Entry where
  url : Text
  title : Text
  description : Text := []
  labels : List Text := []
  category : Text := []
  date : Option Text := none
  deriving DecidableEq

/-- A page and the path of its document below the content directory. -/
structure Placed where
  path : Text
  page : Page

namespace Entry

/-- The entry of a page below a base path. -/
def ofPlaced (basePath : Text) (p : Placed) : Entry where
  url := Path.url p.path basePath
  title := p.page.title
  description := p.page.description
  labels := p.page.labels
  category := p.page.category
  date := p.page.date.map Date.iso

end Entry

namespace Catalog

def ofPages (basePath : Text) (pages : List Placed) : List Entry := pages.map (Entry.ofPlaced basePath)

/-- A character inside a JSON string. Only quotes, backslashes and control characters are
escaped, the usual controls by a letter. -/
def jsonChar (c : Char) : Text :=
  if c = '"' || c = '\\' then ['\\', c]
  else if c = '\n' then ['\\', 'n']
  else if c = '\r' then ['\\', 'r']
  else if c = '\t' then ['\\', 't']
  else if c.toNat = 8 then ['\\', 'b']
  else if c.toNat = 12 then ['\\', 'f']
  else if c.toNat < 32 then '\\' :: 'u' :: Text.ofHex 4 c.toNat
  else [c]

def jsonText (t : Text) : Text := '"' :: t.flatMap jsonChar ++ ['"']

def jsonArray (items : List Text) : Text := '[' :: Text.join [','] items ++ [']']

def jsonField (name : String) (value : Text) : Text := jsonText name.toList ++ ':' :: value

def jsonEntry (e : Entry) : Text :=
  '\x7b' :: Text.join [','] [
    jsonField "url" (jsonText e.url),
    jsonField "title" (jsonText e.title),
    jsonField "description" (jsonText e.description),
    jsonField "labels" (jsonArray (e.labels.map jsonText)),
    jsonField "category" (jsonText e.category),
    jsonField "date" ((e.date.map jsonText).getD "null".toList)] ++ ['\x7d']

def json (entries : List Entry) : Text := jsonArray (entries.map jsonEntry)

/-- Entries under a name. -/
abbrev Group := Text × List Entry

/-- The groups with an entry added to the one with a name, which is new if there is none. -/
def addTo (name : Text) (e : Entry) : List Group → List Group
  | [] => [(name, [e])]
  | (n, es) :: gs => if n = name then (n, es ++ [e]) :: gs else (n, es) :: addTo name e gs

/-- The entries under each name that `names` gives them, in the order in which names come up. -/
def groupBy (names : Entry → List Text) (entries : List Entry) : List Group :=
  entries.foldl (fun gs e => (names e).foldl (fun gs name => addTo name e gs) gs) []

def byLabel (entries : List Entry) : List Group := groupBy Entry.labels entries

/-- The entries under their category; those without one are left out. -/
def byCategory (entries : List Entry) : List Group :=
  groupBy (fun e => if e.category.isEmpty then [] else [e.category]) entries

/-- The groups with enough members to be worth a page of their own. -/
def listed (least : Int) (groups : List Group) : List Group :=
  groups.filter fun (_, es) => least ≤ es.length

/-- The members that a group needs for a page of its own. -/
def leastListed : Int := 2

/-- The labels of pages, each once, in the order in which they come up. -/
def labels (pages : List Page) : List Text :=
  pages.foldl (fun seen p => p.labels.foldl (fun seen l => if seen.contains l then seen else seen ++ [l]) seen) []

end Catalog

end Sitewright
