import Sitewright.Text.Blank
import Sitewright.Text.Escape

/-!
Lines that look like the fence of a code block, and two uses of them: pulling fences to the first
column before compiling, and labelling the highlighted blocks of compiled HTML with the languages
their fences name.
-/
namespace Sitewright.Fence

open Text (spanWhile)

/-- A fence line after its indentation: the fence characters, the language, and the rest. -/
structure Line where
  fence : Text
  language : Text
  extra : Text

def isLanguageChar (c : Char) : Bool :=
  c.isAlphanum || c = '_' || c = '+' || c = '#' || c = '.' || c = '-'

def isFenceChar (c : Char) : Bool := c = '`' || c = '~'

/-- Reads a fence line: up to three spaces and at least three fence characters of either kind. -/
def Line.ofText? (line : Text) : Option Line :=
  let indent := min 3 (line.takeWhile (· = ' ')).length
  let (fence, rest) := spanWhile isFenceChar (line.drop indent)
  if 3 ≤ fence.length then
    let (language, extra) := spanWhile isLanguageChar rest
    some ⟨fence, language, extra⟩
  else none

/-- A fence line at the first column, with a comma and what follows it cut off. -/
def normalizeLine (line : Text) : Text :=
  match Line.ofText? line with
  | none => line
  | some f =>
    if f.extra.head? = some ',' then f.fence ++ f.language else line.dropWhile (· = ' ')

/-- The text with every fence line normalized. -/
def normalize (t : Text) : Text := Text.join ['\n'] ((Text.splitOn '\n' t).map normalizeLine)

/-- The languages of the fenced blocks; `opened` is the fence of a block still open. A block
without a language is `text`. -/
def languagesFrom (opened : Option Text) : List Text → List Text
  | [] => []
  | line :: lines =>
    match Line.ofText? line with
    | none => languagesFrom opened lines
    | some f =>
      match opened with
      | none =>
        (if f.language.isEmpty then "text".toList else f.language) ::
          languagesFrom (some f.fence) lines
      | some fence =>
        if fence.isPrefixOf f.fence && f.language.isEmpty then languagesFrom none lines
        else languagesFrom opened lines

/-- The languages of a source's fenced blocks, in order. -/
def languages (source : Text) : List Text := languagesFrom none (Text.splitOn '\n' source)

def highlightTag : Text := "<div class=\"codehilite\">".toList

/-- Writes the next language into each highlighted block, `text` once they are used up; `skip`
characters of the tag just replaced are still to be passed over. -/
def labelFrom (langs : List Text) : Nat → Text → Text
  | _, [] => []
  | skip + 1, _ :: cs => labelFrom langs skip cs
  | 0, c :: cs =>
    if highlightTag.isPrefixOf (c :: cs) then
      "<div class=\"codehilite\" data-language=\"".toList ++
        Text.escapeAttribute (langs.headD "text".toList) ++ "\">".toList ++
        labelFrom langs.tail (highlightTag.length - 1) cs
    else c :: labelFrom langs 0 cs

/-- Labels the highlighted blocks of compiled HTML with the languages of the source's fences, in
order. A source without fences leaves the HTML as it is. -/
def labelLanguages (html source : Text) : Text :=
  match languages source with
  | [] => html
  | langs => labelFrom langs 0 html

end Sitewright.Fence
