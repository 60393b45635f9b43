import Sitewright.Fence
import Sitewright.Markdown.Block
import Sitewright.Markdown.FencedCode
import Sitewright.Markdown.Inline
import Sitewright.Markdown.Kept
import Sitewright.Markdown.Layout
import Sitewright.Markdown.RawHtml
import Sitewright.Markdown.Source
import Sitewright.RawBlock

/-!
Compiling the body of a document: Markdown to HTML, with raw fences and hypermedia links passed
through untouched and blocks of code highlighted and labelled.
-/
namespace Sitewright.Markdown

/-- The HTML of a document tree without the element around it. -/
def inner (root : Element) : Text :=
  let html := root.html
  match Text.breakAt? "<div>".toList html with
  | none => []
  | some (_, rest) =>
    match Text.breakAt? ">vid/<".toList rest.reverse with
    | none => []
    | some (_, body) => Text.strip body.reverse

/-- A document read up to the inline markup of its blocks. -/
structure Draft where
  table : RawTable
  references : References
  root : Element
  kept : List Text
  /-- Does the document hold a block of code that is highlighted? -/
  hasCode : Bool

/-- A masked text without its fenced code and its raw HTML, and the HTML kept for the marks in their
place. -/
def extracted (masked : Text) : Text × List Text :=
  let fenced := FencedCode.extract masked
  RawHtml.extract fenced.1 fenced.2

/-- Reads the blocks of a document. -/
def Draft.ofSource (source : Text) : Draft :=
  let masked := RawTable.protect (Source.normalize source)
  let raw := extracted masked.1
  let document := Block.document raw.1
  let highlighted := Layout.highlight raw.2 document.1
  { table := masked.2
    references := document.2
    root := highlighted.1
    kept := highlighted.2
    hasCode := FencedCode.occursHighlighted masked.1 || raw.2.length < highlighted.2.length }

/-- The page before raw fences and links are put back. -/
def Draft.page (d : Draft) : Text :=
  let read := Inline.read d.references d.kept d.root
  Kept.restore read.2 (inner (Layout.finish read.1))

def Draft.html (d : Draft) : Text :=
  Text.strip (Text.replace Mark.ampersand ['&'] (d.table.restore d.page))

/-- Is there a block of code in the body, which is highlighted in some style? -/
def hasCode (body : Text) : Bool :=
  let source := Fence.normalize body
  !Text.isBlankText source && (Draft.ofSource source).hasCode

/-- The HTML of a document body; a blank body has none. -/
def compile (body : Text) : Text :=
  let source := Fence.normalize body
  if Text.isBlankText source then []
  else Fence.labelLanguages (Draft.ofSource source).html source

end Sitewright.Markdown
