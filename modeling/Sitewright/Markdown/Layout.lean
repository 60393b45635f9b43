import Sitewright.Markdown.Element
import Sitewright.Markdown.Highlight
import Sitewright.Markdown.Mark

/-!
What happens to a whole tree besides its inline markup: blocks of code are highlighted and kept as
HTML, line feeds are put between blocks, and protected characters are put back.
-/
namespace Sitewright.Markdown.Layout

/-- Escaped text as it was. -/
def unescaped (t : Text) : Text :=
  Text.replace "&amp;".toList ['&'] (Text.replace "&gt;".toList ['>']
    (Text.replace "&lt;".toList ['<'] t))

def soleCode? (tag : Text) (children : List Element) : Option Text :=
  match children with
  | [code] => if tag = "pre".toList && code.isTag "code" then some code.text else none
  | _ => none

mutual
/-- The element with the blocks of code in it highlighted: their HTML is kept, and a paragraph with
its mark stands in their place. -/
def highlight (kept : List Text) : Element → Element × List Text
  | ⟨tag, attributes, text, verbatim, children, tail⟩ =>
    match soleCode? tag children with
    | some code =>
      ({ Element.named "p" with text := Mark.html kept.length },
        kept ++ [Highlight.indented (unescaped code)])
    | none =>
      let (children, kept) := highlightAll kept children
      (⟨tag, attributes, text, verbatim, children, tail⟩, kept)

/-- The elements with the blocks of code in them highlighted. -/
def highlightAll (kept : List Text) : List Element → List Element × List Text
  | [] => ([], kept)
  | e :: es =>
    let (e, kept) := highlight kept e
    let (es, kept) := highlightAll kept es
    (e :: es, kept)
end

/-- A line feed in place of a blank text. -/
def orFeed (t : Text) : Text := if Text.isBlankText t then ['\n'] else t

mutual
/-- The element with line feeds inside it, where it holds blocks, and behind it. -/
def spaced : Element → Element
  | ⟨tag, attributes, text, verbatim, children, tail⟩ =>
    if isBlockTag tag && tag ≠ "pre".toList then
      let holdsBlocks := children.head?.any fun e => isBlockTag e.tag
      ⟨tag, attributes, if holdsBlocks then orFeed text else text, verbatim, spacedBlocks children,
        orFeed tail⟩
    else ⟨tag, attributes, text, verbatim, children, orFeed tail⟩

/-- The elements, with line feeds in and behind those that are blocks. -/
def spacedBlocks : List Element → List Element
  | [] => []
  | e :: es => (if isBlockTag e.tag then spaced e else e) :: spacedBlocks es
end

mutual
/-- The element with a line feed behind every line break in it. -/
def feedBreaks : Element → Element
  | ⟨tag, attributes, text, verbatim, children, tail⟩ =>
    let behind := if tag ≠ "br".toList then tail
      else if Text.isBlankText tail then ['\n'] else '\n' :: tail
    ⟨tag, attributes, text, verbatim, feedBreaksAll children, behind⟩

/-- The elements with a line feed behind every line break. -/
def feedBreaksAll : List Element → List Element
  | [] => []
  | e :: es => feedBreaks e :: feedBreaksAll es
end

mutual
/-- The element with protected characters put back, except in the text of code. -/
def unprotected : Element → Element
  | ⟨tag, attributes, text, verbatim, children, tail⟩ =>
    ⟨tag, attributes.map fun (k, v) => (k, Mark.unescape v),
      if tag = "code".toList then text else Mark.unescape text, verbatim,
      unprotectedAll children, Mark.unescape tail⟩

/-- The elements with protected characters put back. -/
def unprotectedAll : List Element → List Element
  | [] => []
  | e :: es => unprotected e :: unprotectedAll es
end

/-- The tree ready for writing. -/
def finish (root : Element) : Element := unprotected (feedBreaks (spaced root))

end Sitewright.Markdown.Layout
