import Sitewright.FileTree
import Sitewright.Template

/-!
Layouts by name: the two of the library, or those in a directory of templates.
-/
namespace Sitewright

/-- Templates under names, in the order of their registration. -/
structure Layouts where
  entries : List (Text × Text)

/-- Why a layout does not render a page. -/
inductive LayoutError where
  | unknown (name : Text) (available : List Text)
  | tag (e : TagError)

/-- What a reader is told of a layout that is missing. -/
def LayoutError.message : LayoutError → Text
  | unknown name available => "Template ".toList ++ Text.quoted name ++
      " is not registered. Available: ".toList ++
      if available.isEmpty then "(none)".toList else Text.join ", ".toList available
  | tag (.component e) => e.message
  | tag .beyondCalendar => "The date lies beyond the calendar.".toList

namespace Layouts

/-- No layouts. -/
def empty : Layouts := ⟨[]⟩

/-- Sets the template of a name in a list of entries. -/
def setEntry (name template : Text) : List (Text × Text) → List (Text × Text)
  | [] => [(name, template)]
  | (n, t) :: es => if n = name then (n, template) :: es else (n, t) :: setEntry name template es

/-- Registers a template; one of the same name is replaced. -/
def register (name template : Text) (ls : Layouts) : Layouts := ⟨setEntry name template ls.entries⟩

/-- The template of a name. -/
def get? (name : Text) (ls : Layouts) : Option Text := ls.entries.lookup name

def names (ls : Layouts) : List Text := ls.entries.map (·.1)

/-- Renders a page in the layout of a name. -/
def render (components : Components) (name : Text) (ctx : Context) (ls : Layouts) : Except LayoutError Text :=
  match ls.get? name with
  | some template => (Template.fill components ctx template).mapError .tag
  | none => .error (.unknown name ls.names)

/-- What the names of template files end in. -/
def suffix : Text := ".html".toList

/-- The name of the template in a file, if the file holds one: what stands before the ending, which
is not all of the file's name. -/
def nameOf? (file : Text) : Option Text :=
  if suffix.isSuffixOf file && suffix.length < file.length then
    some (file.take (file.length - suffix.length))
  else none

/-- The template in a file, none if the file is no text. -/
def template? (name : Text) (content : FileContent) : Option (Text × Text) :=
  match content with
  | .text t => some (name, Text.unifyReturns t)
  | .bytes _ => none

/-- The templates in a directory, in the order of their files; none if a file is no text. -/
def ofDirectory? (directory : FileName) (tree : FileTree) : Option Layouts :=
  let files := (tree.sortedUnder directory).filterMap fun (name, content) =>
    match name with
    | [file] => (nameOf? file).map fun n => (n, content)
    | _ => none
  (files.mapM fun (name, content) => template? name content).map Layouts.mk

/-- The lines of a layout around the lines that make its main part. -/
def page (mainClass : String) (body : List String) : Text :=
  Text.join ['\n'] (([
    "\x7b\x7bhead\x7d\x7d",
    "<body class=\"min-h-screen bg-gray-50\">",
    "    <div id=\"app\" class=\"flex flex-col min-h-screen\">",
    "        \x7b\x7b#if navigation\x7d\x7d\x7b\x7bnavigation\x7d\x7d\x7b\x7b/if\x7d\x7d"] ++
    ["        <main class=\"flex-grow " ++ mainClass ++ " mx-auto px-4 sm:px-6 lg:px-8 py-8\">",
      "            \x7b\x7b#if breadcrumbs\x7d\x7d\x7b\x7bbreadcrumbs\x7d\x7d\x7b\x7b/if\x7d\x7d"] ++ body ++ [
    "        </main>",
    "        \x7b\x7b#if label-footer\x7d\x7d\x7b\x7blabel-footer\x7d\x7d\x7b\x7b/if\x7d\x7d",
    "    </div>",
    "\x7b\x7bfoot-scripts\x7d\x7d",
    "</body>",
    "</html>",
    ""]).map String.toList)

/-- The layouts of the library. -/
def builtin : Layouts := ⟨[
  ("default".toList, page "max-w-7xl" ["            \x7b\x7bcontent\x7d\x7d"]),
  ("post".toList, page "max-w-3xl" [
    "            <article class=\"prose max-w-none\">",
    "                \x7b\x7bblog-header\x7d\x7d",
    "                \x7b\x7bcontent\x7d\x7d",
    "            </article>"])]⟩

end Layouts
end Sitewright
