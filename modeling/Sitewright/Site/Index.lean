import Sitewright.Child
import Sitewright.Navigation
import Sitewright.Site.Document
import Sitewright.Tree

/-!
The index of a site: everything about its pages that the rendering of each of them can need.
-/
namespace Sitewright

/-- The index of a site. -/
structure Index where
  tree : List Tree
  navigation : List NavItem
  labels : List Text
  /-- The pages below each page, in the order of the tree. -/
  children : List (Text × List Child)
  catalog : List Entry
  paths : List (Text × Text)

namespace Index

/-- The index of a site without pages. -/
def empty : Index := ⟨[], [], [], [], [], []⟩

/-- The paths of pages by identifier, given those of the pages before them. Two pages of one
identifier are refused. -/
def pathsFrom (before : List (Text × Text)) : List Placed → Except PageError (List (Text × Text))
  | [] => .ok before
  | p :: ps =>
    match before.lookup p.page.id with
    | some first => .error ⟨p.path, .duplicate p.page.id (some first)⟩
    | none => pathsFrom (before ++ [(p.page.id, p.path)]) ps

def pathOf (paths : List (Text × Text)) (id : Text) : Text := (paths.lookup id).getD []

/-- The pages below the top of a tree, as children. -/
def childrenOf (basePath : Text) (paths : List (Text × Text)) (t : Tree) : List Child :=
  t.children.map fun c => Child.ofPage (Path.url (pathOf paths c.page.id) basePath) c.page

def ofDocuments (basePath : Text) (boosted : Bool) (documents : List Document) : Except PageError Index := do
  let placed := documents.filterMap Document.placed?
  let pages := placed.map Placed.page
  let paths ← pathsFrom [] placed
  let tree ← (Tree.ofPages pages).mapError fun fault =>
    ⟨(fault.id?.bind fun id => paths.lookup id).getD [], fault⟩
  return {
    tree, paths
    navigation := NavItem.ofPages basePath boosted placed
    labels := Catalog.labels pages
    children := (Tree.nodesOf tree).map fun t => (t.page.id, childrenOf basePath paths t)
    catalog := Catalog.ofPages basePath placed }

/-- The trail to a page: titles and addresses from the top down; none for a page that is not in the
index. -/
def trail (basePath : Text) (index : Index) (id : Text) : List (Text × Text) :=
  if (index.paths.lookup id).isSome then
    ((Tree.trail? id index.tree).getD []).map fun p => (p.title, Path.url (pathOf index.paths p.id) basePath)
  else []

end Index
end Sitewright
