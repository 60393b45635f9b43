import Sitewright.Component.Markup
import Sitewright.Value

/-!
Components by name. A component is rendered with values under names, its props; the components of
a site can be replaced by others.
-/
namespace Sitewright

/-- The values that a component is rendered with. -/
abbrev Props := List (Text × Value)

inductive ComponentError where
  | unknown (name : Text) (available : List Text)
  /-- A prop that the component does not know, lacks, or cannot use. -/
  | badProps

/-- What a reader is told. -/
def ComponentError.message : ComponentError → Text
  | unknown name available => "Component ".toList ++ Text.quoted name ++
      " is not registered. Available: ".toList ++ Text.join ", ".toList available
  | badProps => "Props do not fit the component.".toList

/-- A component: from props to markup. -/
abbrev Component := Props → Except ComponentError Text

/-- Components under names, in the order of their registration. -/
structure Components where
  entries : List (Text × Component)

namespace Components

/-- No components. -/
def empty : Components := ⟨[]⟩

/-- Sets the component of a name in a list of entries. -/
def setEntry (name : Text) (c : Component) : List (Text × Component) → List (Text × Component)
  | [] => [(name, c)]
  | (n, d) :: es => if n = name then (n, c) :: es else (n, d) :: setEntry name c es

/-- Registers a component; one of the same name is replaced. -/
def register (name : Text) (c : Component) (cs : Components) : Components := ⟨setEntry name c cs.entries⟩

def names (cs : Components) : List Text := cs.entries.map (·.1)

/-- Is a name registered? -/
def has (name : Text) (cs : Components) : Bool := cs.names.contains name

def render (name : Text) (props : Props) (cs : Components) : Except ComponentError Text :=
  match cs.entries.lookup name with
  | some c => c props
  | none => .error (.unknown name cs.names)

end Components

namespace Component

open Fragment

def prop? (props : Props) (name : String) : Option Value := props.lookup name.toList

def textProp (props : Props) (name : String) (usual : Text) : Text :=
  ((prop? props name).map Value.shown).getD usual

/-- A value as it is shown, nothing if it counts as false. -/
def textIfTrue (v : Option Value) : Text :=
  match v with
  | some v => if v.isTrue then v.shown else []
  | none => []

/-- The items of a value that has items; those of a text are its characters, those of a map its
keys. -/
def items (v : Value) : Except ComponentError (List Value) :=
  match v with
  | .list vs => .ok vs
  | .tuple vs => .ok vs
  | .set vs => .ok vs
  | .map entries => .ok (entries.map (·.1))
  | .text t => .ok (t.map fun c => .text [c])
  | .bytes bs => .ok (bs.map fun b => .int b.toNat)
  | _ => .error .badProps

/-- The items of a prop, none when it is absent. -/
def itemsProp (props : Props) (name : String) : Except ComponentError (List Value) :=
  match prop? props name with
  | some v => items v
  | none => .ok []

/-- The items of a value, none if it counts as false. -/
def itemsIfTrue (v : Option Value) : Except ComponentError (List Value) :=
  match v with
  | some v => if v.isTrue then items v else .ok []
  | none => .ok []

/-- The field of an item, absent if the item is no map. -/
def field? (v : Value) (name : String) : Option Value :=
  match v with
  | .map entries => Value.lookup? (.text name.toList) entries
  | _ => none

/-- The field of an item as it is shown, nothing if it is absent. -/
def textField (v : Value) (name : String) : Text := ((field? v name).map Value.shown).getD []

/-- The field of an item as it is shown, nothing if it counts as false. -/
def textFieldIfTrue (v : Value) (name : String) : Text := textIfTrue (field? v name)

/-- Does the field of an item count as true? -/
def flagField (v : Value) (name : String) : Bool := (field? v name).any Value.isTrue

/-- A component that needs some props, may have others, and knows no further ones. -/
def strict (required optional : List String)
    (build : Props → Except ComponentError (List Fragment)) : Component := fun props => do
  let known := (required ++ optional).map String.toList
  if props.any fun (name, _) => !known.contains name then throw .badProps
  if required.any fun name => (prop? props name).isNone then throw .badProps
  return Fragment.render (← build props)

def head : Component :=
  strict ["title"] ["base_path", "description", "keywords", "css_files", "js_files", "lang"]
    fun props => do
      let styles ← itemsProp props "css_files"
      let scripts ← itemsProp props "js_files"
      let head : Head := {
        title := textProp props "title" []
        basePath := textProp props "base_path" []
        description := textIfTrue (prop? props "description")
        keywords := textIfTrue (prop? props "keywords")
        styles := styles.map Value.shown
        scripts := scripts.map Value.shown
        language := textProp props "lang" "en".toList }
      return head.fragments

/-- A link of the navigation bar from an item. -/
def navLink (v : Value) : NavLink where
  label := textField v "label"
  href := textField v "href"
  active := flagField v "active"
  boosted := flagField v "hx_boost"

/-- The labels of the site; each has to be a text. -/
def labelTexts (vs : List Value) : Except ComponentError (List Text) :=
  vs.mapM fun
    | .text t => .ok t
    | _ => .error .badProps

def listed (v : Value) : Listed where
  url := textField v "url"
  title := textField v "title"
  category := textFieldIfTrue v "category"
  date := textFieldIfTrue v "date"
  dateIso := textField v "date_iso"
  description := textFieldIfTrue v "description"

/-- A page below another one from an item. -/
def listedChild (v : Value) : ListedChild where
  url := textField v "url"
  title := textField v "title"
  about := textFieldIfTrue v "meta"
  description := textFieldIfTrue v "description"

/-- A step of a breadcrumb trail from an item. -/
def crumb (v : Value) : Crumb where
  title := textField v "title"
  href := textField v "href"

def blogHeader : Component :=
  strict ["title", "reading_time"] ["author", "date_iso", "date_text", "category", "labels"]
    fun props => do
      let labels ← itemsIfTrue (prop? props "labels")
      let header : BlogHeader := {
        title := textProp props "title" []
        readingTime := textProp props "reading_time" []
        author := textIfTrue (prop? props "author")
        dateIso := textIfTrue (prop? props "date_iso")
        dateText := textProp props "date_text" []
        category := textIfTrue (prop? props "category")
        labels := labels.map Value.shown }
      return header.fragments

/-- The components of the library. -/
def builtin : Components := ⟨[
  ("head".toList, head),
  ("foot-scripts".toList, strict [] ["base_path"] fun props =>
    .ok (footScripts (textProp props "base_path" []))),
  ("navigation".toList, strict ["items"] [] fun props => do
    return navigation ((← itemsIfTrue (prop? props "items")).map navLink)),
  ("label-footer".toList, strict ["labels"] ["base_path"] fun props => do
    return labelFooter (← labelTexts (← itemsProp props "labels")) (textProp props "base_path" [])),
  ("listing-index".toList, strict ["heading", "pages"] [] fun props => do
    return listingIndex (textProp props "heading" []) ((← itemsProp props "pages").map listed)),
  ("children-listing".toList, strict ["children"] [] fun props => do
    return childrenListing ((← itemsProp props "children").map listedChild)),
  ("breadcrumbs".toList, strict ["trail"] [] fun props => do
    return breadcrumbs ((← itemsProp props "trail").map crumb)),
  ("category-pill".toList, strict ["category"] [] fun props =>
    .ok (categoryPill (textIfTrue (prop? props "category")))),
  ("label-badges".toList, strict ["labels"] [] fun props => do
    return labelBadges ((← itemsIfTrue (prop? props "labels")).map Value.shown)),
  ("blog-header".toList, blogHeader)]⟩

end Component
end Sitewright
