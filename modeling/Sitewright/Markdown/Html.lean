import Sitewright.Markdown.Element

/-!
Elements as HTML. Text may already hold character references, and these stay as they are.
-/
namespace Sitewright.Markdown

/-- The letters outside ASCII that are letters of a reference name when case is ignored. -/
def isFoldedLetter (c : Char) : Bool :=
  c = '\u0130' || c = '\u0131' || c = '\u017f' || c = '\u212a'

def isReferenceChar (c : Char) : Bool := c.isAlphanum || isFoldedLetter c

def isHexDigit (c : Char) : Bool := c.isDigit || ('a' ≤ c && c ≤ 'f') || ('A' ≤ c && c ≤ 'F')

/-- Does a run of such characters, closed by a semicolon, start here? -/
def closedRun (p : Char → Bool) (t : Text) : Bool :=
  match Text.spanWhile p t with
  | ([], _) => false
  | (_, rest) => rest.head? == some ';'

/-- Is this, the text behind an ampersand, the rest of a character reference? -/
def isReferenceRest (t : Text) : Bool :=
  closedRun isReferenceChar t || match t with
    | '#' :: rest => closedRun Char.isDigit rest || match rest with
      | 'x' :: digits => closedRun isHexDigit digits
      | 'X' :: digits => closedRun isHexDigit digits
      | _ => false
    | _ => false

/-- Escapes the ampersands that start no character reference, angle brackets, and double quotes
when `quotes` is set. -/
def escapeHtml (quotes : Bool) : Text → Text
  | [] => []
  | c :: cs =>
    let written :=
      if c = '&' then (if isReferenceRest cs then [c] else "&amp;".toList)
      else if c = '<' then "&lt;".toList
      else if c = '>' then "&gt;".toList
      else if c = '"' && quotes then "&quot;".toList
      else [c]
    written ++ escapeHtml quotes cs

/-- Tags of elements that have no content and no end tag. -/
def voidTags : List Text := ["br", "hr", "img"].map String.toList

/-- An attribute in a tag; one whose value is its own name is written without the value. -/
def attributeHtml (a : Text × Text) : Text :=
  let value := escapeHtml true a.2
  if a.1 = value then ' ' :: value else ' ' :: a.1 ++ "=\"".toList ++ value ++ ['"']

mutual
def Element.html : Element → Text
  | ⟨tag, attributes, text, _, children, tail⟩ =>
    '<' :: tag ++ attributes.flatMap attributeHtml ++ '>' :: escapeHtml false text ++
      Element.htmls children ++
      (if voidTags.contains tag then [] else "</".toList ++ tag ++ ['>']) ++
      escapeHtml false tail

def Element.htmls : List Element → Text
  | [] => []
  | e :: es => Element.html e ++ Element.htmls es
end

end Sitewright.Markdown
