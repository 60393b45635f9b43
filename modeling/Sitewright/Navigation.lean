import Sitewright.Catalog

/-!
The navigation bar: links to the pages at the top of the site.
-/
namespace Sitewright

/-- A link of the navigation bar. -/
structure NavItem where
  label : Text
  href : Text
  active : Bool := false
  /-- Is the link followed without loading a whole new page? -/
  boosted : Bool := false
  order : Int := defaultOrder
  deriving DecidableEq

namespace NavItem

/-- The order of links: by their order, then by label without regard to case. -/
def inOrder (a b : NavItem) : Bool :=
  a.order < b.order ||
    (a.order = b.order && !Text.lt (Text.caseFold b.label) (Text.caseFold a.label))

/-- The link to a page. -/
def ofPlaced (basePath : Text) (boosted : Bool) (p : Placed) : NavItem where
  label := p.page.title
  href := Path.url p.path basePath
  boosted := boosted
  order := p.page.order

/-- The links to the pages at the top of the site. -/
def ofPages (basePath : Text) (boosted : Bool) (pages : List Placed) : List NavItem :=
  ((pages.filter fun p => p.page.isTop).map (ofPlaced basePath boosted)).mergeSort inOrder

/-- The link with a mark if it covers the page of a document. -/
def marked (basePath path : Text) (item : NavItem) : NavItem :=
  { item with active := Path.isActive item.href path basePath }

end NavItem
end Sitewright
