import Sitewright.Markdown.Highlight
import Sitewright.Markdown.Html
import Sitewright.Markdown.Mark
import Sitewright.Text.Scan

/-!
Fenced blocks of code. They are taken out of the source before anything else is parsed: each is
compiled at once, and a mark of the kept HTML stands in its place on a paragraph of its own.
-/
namespace Sitewright.Markdown.FencedCode

open Text (spanWhile)

/-- What the line after an opening fence asks for. -/
structure Info where
  /-- The language, where an attribute block names it. -/
  language : Option Text := none
  classes : List Text := []
  id : Text := []
  marked : List Int := []
  numbered : Bool := false
  /-- Is the code left without highlighting? -/
  plain : Bool := false

/-- An item of an attribute block: a class, an identifier, or a key with its value. -/
inductive Item where
  | cssClass (name : Text)
  | id (name : Text)
  | pair (key value : Text)
  | space

/-- The quoted text up to the next quote of the same kind, with the quotes, and its size. -/
def quotedValue? (t : Text) : Option (Text × Nat) :=
  match t with
  | q :: rest =>
    if q = '"' || q = '\'' then
      match spanWhile (· ≠ q) rest with
      | (value, _ :: _) => some (value, value.length + 2)
      | _ => none
    else none
  | [] => none

/-- A character of a bare word in an attribute block. -/
def isBare (c : Char) : Bool := c ≠ ' ' && c ≠ '=' && c ≠ '\x7d'

/-- The item that starts here, with its size; a single space is no item. -/
def itemAt? (t : Text) : Option (Item × Nat) :=
  match spanWhile isBare t with
  | ([], ' ' :: _) => some (.space, 1)
  | ([], _) => none
  | (word, rest) =>
    let alone := match word with
      | '.' :: name => Item.cssClass name
      | '#' :: name => Item.id name
      | _ => Item.pair word word
    match rest with
    | '=' :: value =>
      match quotedValue? value with
      | some (v, size) => some (.pair word v, word.length + 1 + size)
      | none =>
        match value.takeWhile isBare with
        | [] => some (alone, word.length)
        | v => some (.pair word v, word.length + 1 + v.length)
    | _ => some (alone, word.length)

/-- The items of an attribute block and the text at which reading stopped. -/
def items : Nat → Text → List Item × Text
  | 0, t => ([], t)
  | _, [] => ([], [])
  | fuel + 1, t =>
    match itemAt? t with
    | none => ([], t)
    | some (item, size) =>
      let (rest, stop) := items fuel (t.drop size)
      (item :: rest, stop)

def isYes (t : Text) : Bool :=
  ["true", "yes", "y", "on", "1"].any fun word => word.toList = Text.lower t

/-- The value of a key in an attribute block, the last one if it comes up again. -/
def valueOf? (key : String) (found : List Item) : Option Text :=
  (found.filterMap fun
    | .pair k v => if k = key.toList then some v else none
    | .id v => if key = "id" then some v else none
    | _ => none).getLast?

/-- Reads an attribute block. It is refused when a brace closes before its end. The first class
names the language. -/
def Info.ofAttributes? (t : Text) : Option Info :=
  let (found, stop) := items t.length t
  let classes := found.filterMap fun
    | .cssClass name => some name
    | _ => none
  if stop.contains '\x7d' then none
  else some {
    language := classes.head?
    classes := classes.drop 1
    id := (valueOf? "id" found).getD []
    marked := ((valueOf? "hl_lines" found).map Highlight.lineNumbers).getD []
    numbered := (valueOf? "linenums" found).any isYes
    plain := (valueOf? "use_pygments" found).any fun v => !isYes v }

def isLanguageChar (c : Char) : Bool :=
  Text.isWord c || c = '#' || c = '.' || c = '+' || c = '-'

/-- The code up to the line that closes the fence, and the size of both. -/
def codeUntil? (fence t : Text) : Option (Text × Nat) :=
  let close (t : Text) : Option Nat :=
    (fence.isPrefixOf? t).bind fun rest =>
      let (blanks, after) := spanWhile (· = ' ') rest
      if Text.atLineEnd after then some (fence.length + blanks.length) else none
  (Text.breakAtLine close true t).map fun (code, size) => (code, code.length + size)

/-- Drops spaces and then a line feed. -/
def endOfLine? (t : Text) : Option Text :=
  match t.dropWhile (· = ' ') with
  | '\n' :: rest => some rest
  | _ => none

/-- A list of marked lines in quotes, which may go on to later lines, followed by the end of the
line. The first closing quote that ends its line counts. -/
def markedList? (quote : Char) (list : Text) : Text → Option (Text × Text)
  | [] => none
  | c :: cs =>
    match if c = quote then endOfLine? cs else none with
    | some rest => some (list.reverse, rest)
    | none => markedList? quote (c :: list) cs

/-- What stands after the language: nothing, or the lines to mark; and the text after the line. -/
def afterLanguage? (t : Text) : Option (Info × Text) :=
  match endOfLine? t with
  | some rest => some ({}, rest)
  | none =>
    ("hl_lines=".toList.isPrefixOf? (t.dropWhile (· = ' '))).bind fun
      | q :: rest =>
        if q = '"' || q = '\'' then
          (markedList? q [] rest).map fun (list, rest) =>
            ({ marked := Highlight.lineNumbers list }, rest)
        else none
      | [] => none

/-- Tries language names of the given length and shorter. -/
def languageLine? (t : Text) : Nat → Option (Info × Text)
  | 0 => afterLanguage? t
  | n + 1 => afterLanguage? (t.drop (n + 1)) <|> languageLine? t n

/-- The rest of an opening line: an attribute block, or an optional language and marked lines. -/
def openingLine? (t : Text) : Option (Option Info × Text) :=
  match t with
  | '\x7b' :: body =>
    match Text.cutLine body with
    | (line, some rest) =>
      match line.reverse with
      | '\x7d' :: attributes => some (Info.ofAttributes? attributes.reverse, rest)
      | _ => none
    | _ => none
  | _ =>
    let t := match t with
      | '.' :: cs => cs
      | _ => t
    (languageLine? t (t.takeWhile isLanguageChar).length).map fun (info, rest) => (some info, rest)

/-- A fenced block of code: what its opening line asks for, and the code. -/
structure Block where
  info : Info
  code : Text

/-- An attribute of a tag, nothing without a value. -/
def tagAttribute (name : String) (value : Text) : Text :=
  if value.isEmpty then []
  else ' ' :: name.toList ++ "=\"".toList ++ escapeHtml true value ++ ['"']

def Block.plainHtml (b : Block) : Text :=
  let language := match b.info.language with
    | some name => if name.isEmpty then [] else "language-".toList ++ name
    | none => []
  "<pre".toList ++ tagAttribute "id" b.info.id ++
    tagAttribute "class" (Text.join [' '] b.info.classes) ++ "><code".toList ++
    tagAttribute "class" language ++ ['>'] ++ Text.replace ['"'] "&quot;".toList (Text.escapeText b.code) ++
    "</code></pre>".toList

def Block.html (b : Block) : Text :=
  if b.info.plain then b.plainHtml
  else
    let usual : Highlight.Look := {}
    Highlight.block { usual with
      cssClass := Text.join [' '] (b.info.classes ++ [usual.cssClass])
      marked := b.info.marked
      numbered := b.info.numbered } b.code

def find : Text.Finder Block := fun before after =>
  if Text.atLineStart before then
    match after with
    | [] => none
    | c :: _ =>
      let (fence, rest) := spanWhile (· = c) after
      if (c = '`' || c = '~') && 3 ≤ fence.length then
        (openingLine? (rest.dropWhile (· = ' '))).bind fun (info, body) =>
          (codeUntil? fence body).bind fun (code, size) =>
            info.map fun info =>
              ⟨⟨info, code⟩, after.length - body.length + size⟩
      else none
  else none

/-- Replaces fenced blocks by marks; their HTML is added to what is kept. -/
def extractFrom (kept : List Text) : List (Text.Piece Block) → Text × List Text
  | [] => ([], kept)
  | .plain p :: ps =>
    let (rest, kept) := extractFrom kept ps
    (p ++ rest, kept)
  | .found b :: ps =>
    let mark := Mark.html kept.length
    let (rest, kept) := extractFrom (kept ++ [b.html]) ps
    ('\n' :: mark ++ '\n' :: rest, kept)

/-- Does a source hold a fenced block that is highlighted? -/
def occursHighlighted (source : Text) : Bool := (Text.findAll find source).any fun b => !b.info.plain

/-- The source with its fenced blocks replaced, and the HTML kept for them. -/
def extract (source : Text) : Text × List Text := extractFrom [] (Text.pieces find source)

end Sitewright.Markdown.FencedCode
