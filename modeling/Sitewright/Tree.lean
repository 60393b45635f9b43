import Sitewright.Lineage
import Sitewright.Text.Casing

/-!
The tree of pages. Every page names its parent; pages that pass the check of their lineage form a
tree, in which the pages below a page are those that name it.
-/
namespace Sitewright

/-- A page and the pages below it. -/
inductive Tree where
  | node (page : Page) (children : List Tree)

namespace Tree

def page : Tree → Page
  | node p _ => p

/-- The trees right below the top of a tree. -/
def children : Tree → List Tree
  | node _ ts => ts

mutual

/-- The pages of a tree, each before those below it. -/
def pages : Tree → List Page
  | node p ts => p :: pagesOf ts

def pagesOf : List Tree → List Page
  | [] => []
  | t :: ts => pages t ++ pagesOf ts

end

mutual

/-- The nodes of a tree, each before those below it. -/
def nodes : Tree → List Tree
  | node p ts => node p ts :: nodesOf ts

def nodesOf : List Tree → List Tree
  | [] => []
  | t :: ts => nodes t ++ nodesOf ts

end

mutual

/-- The pages from the top of a tree down to a page, if the page is in the tree. -/
def path? (id : Text) : Tree → Option (List Page)
  | node p ts => if p.id = id then some [p] else (trail? id ts).map (p :: ·)

/-- The pages from the top of one of several trees down to a page. -/
def trail? (id : Text) : List Tree → Option (List Page)
  | [] => none
  | t :: ts =>
    match path? id t with
    | some path => some path
    | none => trail? id ts

end

/-- The page with an identifier. -/
def find? (id : Text) (ts : List Tree) : Option Page := (pagesOf ts).find? fun p => p.id = id

/-- The node with an identifier, the first one that a walk over all nodes meets. -/
def node? (id : Text) (ts : List Tree) : Option Tree := (nodesOf ts).find? fun t => t.page.id = id

/-- An identifier that no page has. -/
structure UnknownId where
  id : Text

/-- What a reader is told. -/
def UnknownId.message (e : UnknownId) : Text := "Unknown Short-URI ".toList ++ Text.quoted e.id

/-- The pages from the top of the site down to a page. -/
def breadcrumbs (id : Text) (ts : List Tree) : Except UnknownId (List Page) :=
  match trail? id ts with
  | some path => .ok path
  | none => .error ⟨id⟩

/-- The order of siblings: by their order, then by title without regard to case. -/
def inOrder (a b : Page) : Bool :=
  a.order < b.order ||
    (a.order = b.order && !Text.lt (Text.caseFold b.title) (Text.caseFold a.title))

/-- The pages below a parent, in the order of siblings; equal ones stay as they are listed. -/
def siblings (pages : List Page) (parent : Text) : List Page :=
  (pages.filter fun p => p.parent = parent).mergeSort inOrder

/-- The trees below a parent, down to a number of levels. -/
def branches (pages : List Page) : Nat → Text → List Tree
  | 0, _ => []
  | depth + 1, parent => (siblings pages parent).map fun p => node p (branches pages depth p.id)

/-- The trees at the top of the site. -/
def ofPages (pages : List Page) : Except PageFault (List Tree) :=
  match h : Lineage.check pages with
  | .ok () => .ok (branches pages pages.length rootId)
  | .error e => .error (e.fault (Lineage.check_invalid h))

theorem ofPages_eq_ok {pages : List Page} {ts : List Tree} :
    ofPages pages = .ok ts ↔
      Lineage.check pages = .ok () ∧ ts = branches pages pages.length rootId := by
  unfold ofPages
  split <;> simp_all [eq_comm]

theorem ofPages_eq_error {pages : List Page} {fault : PageFault} :
    ofPages pages = .error fault ↔ Lineage.check pages = .error (.invalid fault) := by
  unfold ofPages
  split
  · simp_all
  · rename_i e h
    obtain ⟨fault', rfl⟩ := Lineage.check_invalid h
    simp [h, Lineage.Failure.fault]

end Tree
end Sitewright
