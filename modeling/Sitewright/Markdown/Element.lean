import Sitewright.Text.Casing

/-!
The document tree between Markdown and HTML. An element's text stands before its children, its
tail after its end tag. Text marked verbatim holds no inline markup.
-/
namespace Sitewright.Markdown

/-- An element of the document tree. -/
structure Element where
  tag : Text
  attributes : List (Text × Text) := []
  text : Text := []
  verbatim : Bool := false
  children : List Element := []
  tail : Text := []

def blockTags : List Text := ["address", "article", "aside", "blockquote", "details", "div", "dl",
  "fieldset", "figcaption", "figure", "footer", "form", "h1", "h2", "h3", "h4", "h5", "h6",
  "header", "hgroup", "hr", "main", "menu", "nav", "ol", "p", "pre", "search", "section", "table",
  "ul", "canvas", "colgroup", "dd", "body", "dt", "group", "html", "iframe", "li", "legend",
  "math", "map", "noscript", "output", "object", "option", "progress", "script", "style",
  "summary", "tbody", "td", "textarea", "tfoot", "th", "thead", "tr", "video",
  "center"].map String.toList

/-- Does the tag name a block? Case and slashes at the end do not matter. -/
def isBlockTag (tag : Text) : Bool :=
  blockTags.contains (Text.dropEndWhile (· = '/') (Text.lower tag))

namespace Element

/-- An element with nothing but a tag. -/
def named (tag : String) : Element := { tag := tag.toList }

def last? (e : Element) : Option Element := e.children.getLast?

/-- The element with a further child at the end. -/
def push (e child : Element) : Element := { e with children := e.children ++ [child] }

/-- The element with its last child replaced. -/
def setLast (e child : Element) : Element := { e with children := e.children.dropLast ++ [child] }

def isTag (e : Element) (tag : String) : Bool := e.tag == tag.toList

/-- Is this a block of code, a `pre` that holds a `code`? -/
def isCodeBlock (e : Element) : Bool :=
  e.isTag "pre" && match e.children with
    | c :: _ => c.isTag "code"
    | [] => false

def isList (e : Element) : Bool := e.isTag "ul" || e.isTag "ol"

mutual
/-- The characters of an element and all inside it, without tags; its tail is left out. -/
def content : Element → Text
  | ⟨_, _, text, _, children, _⟩ => text ++ contents children

/-- The characters of a list of elements with their tails. -/
def contents : List Element → Text
  | [] => []
  | e :: es => content e ++ e.tail ++ contents es
end

end Element
end Sitewright.Markdown
