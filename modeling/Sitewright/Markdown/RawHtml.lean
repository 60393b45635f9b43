import Sitewright.Markdown.Element
import Sitewright.Markdown.Mark
import Sitewright.Markdown.Tag

/-!
Raw HTML in a source. Block elements, comments and declarations that start a line are taken out
whole and replaced by marks on paragraphs of their own; every other tag stays in the text. A source
is scanned up to the first unfinished construct, and what is left is scanned once more.
-/
namespace Sitewright.Markdown

open Text (spanWhile)

/-- The state of the scan. -/
structure RawHtml where
  /-- The text of the current pass. -/
  source : Text
  /-- The line of the current place, counted from one, and its column. -/
  line : Nat := 1
  column : Nat := 0
  /-- Where the lines seen so far start. -/
  starts : List Nat := [0]
  /-- Is the place inside a raw block? -/
  inside : Bool := false
  /-- Is the place on the line where a raw block ended? -/
  trailing : Bool := false
  /-- The open tags of the raw block, the innermost first. -/
  opened : List Text := []
  /-- The parts of the raw block, the last first. -/
  raw : List Text := []
  /-- The parts of the text without raw blocks, the last first. -/
  clean : List Text := []
  kept : List Text := []
  /-- The element whose content is no markup. -/
  verbatimTag : Option Text := none

namespace RawHtml

/-- The position of the first line feed at or after a position, or the size of the text. -/
def nextFeed (t : Text) (start : Nat) : Nat := start + ((t.drop start).takeWhile (· ≠ '\n')).length

def noteStarts (s : RawHtml) : Nat → RawHtml
  | 0 => s
  | n + 1 =>
    let last := s.starts.getLastD 0
    let feed := if last ≤ s.source.length then nextFeed s.source last else s.source.length
    noteStarts { s with starts := s.starts ++ [feed + 1] } n

/-- Notes the start of the current line. -/
def locate (s : RawHtml) : RawHtml := s.noteStarts (s.line - s.starts.length)

def lineStart (s : RawHtml) : Nat := s.starts.getD (s.line - 1) 0

/-- Moves over some text. -/
def advance (s : RawHtml) (t : Text) : RawHtml :=
  let feeds := t.count '\n'
  let tail := (t.reverse.takeWhile (· ≠ '\n')).length
  if feeds = 0 then { s with column := s.column + t.length }
  else { s with line := s.line + feeds, column := tail }

/-- Is the place at the start of a line, up to three blanks aside? -/
def atLineStart (s : RawHtml) : Bool × RawHtml :=
  if s.column = 0 then (true, s)
  else if 3 < s.column then (false, s)
  else
    let s := s.locate
    (Text.isBlankText ((s.source.drop s.lineStart).take s.column), s)

/-- Does a blank line follow the construct of the given size at this place? -/
def blankFollows (s : RawHtml) (size : Nat) : Bool × RawHtml :=
  let s := s.locate
  let rest := s.source.drop (s.lineStart + s.column + size)
  let blank := match rest.dropWhile (· = ' ') with
    | '\n' :: rest => (rest.dropWhile (· = ' ')).head? == some '\n'
    | _ => false
  (blank, s)

/-- Adds to the text without raw blocks. -/
def keepText (s : RawHtml) (t : Text) : RawHtml := { s with clean := t :: s.clean }

def keepRaw (s : RawHtml) (t : Text) : RawHtml := { s with raw := t :: s.raw }

/-- Keeps HTML and leaves its mark in the text, with a blank line after it. -/
def keepBlock (s : RawHtml) (html : Text) : RawHtml :=
  { s with
    clean := "\n\n".toList :: Mark.html s.kept.length :: s.clean
    kept := s.kept ++ [html] }

def onText (s : RawHtml) (t : Text) : RawHtml :=
  let s := if s.trailing && t.contains '\n' then { s with trailing := false } else s
  if s.inside then s.keepRaw t else s.keepText t

/-- Takes a construct without content: a self-closing tag, a comment, a declaration, an entity. -/
def onEmpty (s : RawHtml) (t : Text) (isBlock : Bool) : RawHtml :=
  if s.inside || s.trailing then s.keepRaw t
  else
    let (starts, s) := s.atLineStart
    if starts && isBlock then
      let (blank, s) := s.blankFollows t.length
      let s := if blank then s else { s with trailing := true }
      let html := if blank then t ++ ['\n'] else t
      let s := match s.clean with
        | last :: _ =>
          if !("\n\n".toList.isSuffixOf last) && ['\n'].isSuffixOf last then s.keepText ['\n'] else s
        | [] => s
      s.keepBlock html
    else s.keepText t

/-- Elements whose content is no markup. -/
def isVerbatimTag (tag : Text) : Bool := tag = "script".toList || tag = "style".toList

def onStart (s : RawHtml) (tag source : Text) : RawHtml :=
  if tag = "hr".toList then s.onEmpty source true
  else
    let s := if isBlockTag tag then
        let (starts, s) := if s.trailing then (true, s)
          else if s.inside then (false, s) else s.atLineStart
        if starts then ({ s with inside := true }).keepText ['\n'] else s
      else s
    if s.inside then { s.keepRaw source with opened := tag :: s.opened }
    else
      let s := s.keepText source
      if isVerbatimTag tag then { s with verbatimTag := none } else s

/-- Takes an end tag, as it stands at this place. -/
def onEnd (s : RawHtml) (tag : Text) : RawHtml :=
  let s := s.locate
  let rest := s.source.drop (s.lineStart + s.column)
  let source := match spanWhile (· ≠ '>') rest with
    | (before, _ :: _) => before ++ ['>']
    | _ => "</".toList ++ tag ++ ['>']
  if s.inside then
    let s := s.keepRaw source
    let s := if s.opened.contains tag then
        { s with opened := (s.opened.dropWhile (· ≠ tag)).drop 1 } else s
    if s.opened.isEmpty then
      let (blank, s) := s.blankFollows source.length
      let s := if blank then s.keepRaw ['\n'] else { s with trailing := true }
      { s with inside := false, raw := [] }.keepBlock s.raw.reverse.flatten
    else s
  else s.keepText source

/-- The text up to and with the first `needle`, and what follows. -/
def through? (needle t : Text) : Option (Text × Text) :=
  (Text.breakAt? needle t).map fun (before, after) => (before ++ needle, after)

/-- The content of a comment, whether it is closed without white space, and what follows it. -/
def comment? (t : Text) : Option (Text × Bool × Text) :=
  match t with
  | [] => none
  | c :: cs =>
    let closed := ("--".toList.isPrefixOf? t).bind fun rest =>
      match rest.dropWhile Text.isBlank with
      | '>' :: after => some (rest.head? == some '>', after)
      | _ => none
    match closed with
    | some (tight, after) => some ([], tight, after)
    | none => (comment? cs).map fun (body, rest) => (c :: body, rest)

/-- The content of a marked section up to its closing brackets, and what follows it. -/
def section? (t : Text) : Option (Text × Text) :=
  match t with
  | [] => none
  | c :: cs =>
    let closed := match t with
      | ']' :: rest =>
        match rest.dropWhile Text.isBlank with
        | ']' :: rest =>
          match rest.dropWhile Text.isBlank with
          | '>' :: after => some after
          | _ => none
        | _ => none
      | _ => none
    match closed with
    | some after => some ([], after)
    | none => (section? cs).map fun (body, rest) => (c :: body, rest)

/-- A construct that ends at the next angle bracket and is passed through as it is. -/
def bogus? (s : RawHtml) (t : Text) : Option (RawHtml × Text) :=
  (through? ['>'] (t.drop 2)).map fun (body, after) => (s.onEmpty (t.take 2 ++ body) false, after)

/-- A declaration or a marked section; inside a line its opening is plain text. -/
def declaration? (s : RawHtml) (t : Text) : Option (RawHtml × Text) :=
  let (starts, s) := s.atLineStart
  if !starts && !s.trailing then some (s.onText (t.take 2), t.drop 2)
  else if "<![CDATA[".toList.isPrefixOf t then
    (section? (t.drop 3)).map fun (body, after) =>
      (s.onEmpty ("<![".toList ++ body ++ "]]>".toList) true, after)
  else if "<![".toList.isPrefixOf t then
    some ((s.bogus? t).getD (s.onText (t.take 1), t.drop 1))
  else if Text.lower (t.take 9) = "<!doctype".toList then
    (through? ['>'] (t.drop 9)).map fun (body, after) => (s.onEmpty (t.take 9 ++ body) true, after)
  else s.bogus? t

/-- A processing instruction; inside a line its opening is plain text. -/
def instruction? (s : RawHtml) (t : Text) : Option (RawHtml × Text) :=
  let (starts, s) := s.atLineStart
  if starts || s.trailing then
    (through? "?>".toList (t.drop 2)).map fun (body, after) => (s.onEmpty (t.take 2 ++ body) true, after)
  else some (s.onText (t.take 2), t.drop 2)

def endTag? (s : RawHtml) (t : Text) : Option (RawHtml × Text) :=
  (through? ['>'] t).map fun (upTo, after) =>
    match Tag.plainEnd? t with
    | some (tag, rest) =>
      if s.verbatimTag.any (· ≠ tag) then (s.onText upTo, after)
      else ({ s.onEnd tag with verbatimTag := none }, rest)
    | none =>
      if s.verbatimTag.isSome then (s.onText upTo, after)
      else match Tag.name? (t.drop 2) with
        | some (tag, rest) =>
          (s.onEnd tag, match through? ['>'] rest with
            | some (_, after) => after
            | none => after)
        | none =>
          if upTo = "</>".toList then (s.onText upTo, after) else (s.onEmpty upTo false, after)

/-- A start tag; one that does not end is plain text. -/
def startTag (s : RawHtml) (t : Text) : RawHtml × Text :=
  match Tag.afterStart? t with
  | none => (s.onText (t.take 1), t.drop 1)
  | some after =>
    let source := t.take (t.length - after.length)
    match Tag.ending source after with
    | (_, .broken) => (s.onText source, after)
    | (tag, .closesItself) => (s.onEmpty source (isBlockTag tag), after)
    | (tag, .opens) =>
      let s := if isVerbatimTag tag then { s with verbatimTag := some tag } else s
      (s.onStart tag source, after)

/-- The construct that an angle bracket opens, none when it is unfinished. -/
def construct? (s : RawHtml) (t : Text) : Option (RawHtml × Text) :=
  match t with
  | '<' :: '/' :: _ => s.endTag? t
  | '<' :: '!' :: '-' :: '-' :: rest =>
    (comment? rest).map fun (body, tight, after) =>
      if tight then (s.onEmpty ("<!--".toList ++ body ++ "-->".toList) true, after)
      else (s.onText ['<'], t.drop 1)
  | '<' :: '?' :: _ => s.instruction? t
  | '<' :: '!' :: _ => s.declaration? t
  | '<' :: c :: _ => some (if Tag.isLetter c then s.startTag t else (s.onText ['<'], t.drop 1))
  | _ => none

/-- A character reference by number: its name, and what follows it. -/
def numberReference? (t : Text) : Option (Text × Text) :=
  match t with
  | '&' :: '#' :: rest =>
    let (lead, digits) := match rest with
      | 'x' :: cs => (['x'], cs)
      | 'X' :: cs => (['X'], cs)
      | cs => ([], cs)
    let isHex := fun c => (Text.hexValue? c).isSome
    let (digits, after) := spanWhile (if lead.isEmpty then Char.isDigit else isHex) digits
    match after with
    | c :: cs =>
      if digits.isEmpty || isHex c then none
      else some (lead ++ digits, if c = ';' then cs else after)
    | [] => none
  | _ => none

/-- A character reference by name: its name, and what follows its semicolon. -/
def nameReference? (t : Text) : Option (Text × Text) :=
  match t with
  | '&' :: c :: cs =>
    if Tag.isLetter c then
      match spanWhile (fun c => c.isAlphanum || c = '-' || c = '.') cs with
      | (more, ';' :: after) => some (c :: more, after)
      | _ => none
    else none
  | _ => none

/-- Does the closing tag of an element without markup start here? -/
def closesVerbatim (tag t : Text) : Bool :=
  match t with
  | '<' :: '/' :: rest =>
    let rest := rest.dropWhile Text.isBlank
    Text.lower (rest.take tag.length) = tag &&
      ((rest.drop tag.length).dropWhile Text.isBlank).head? == some '>'
  | _ => false

/-- The text before the closing tag of an element without markup. -/
def beforeClosing? (tag : Text) : Text → Option Text
  | [] => none
  | c :: cs =>
    if closesVerbatim tag (c :: cs) then some [] else (beforeClosing? tag cs).map (c :: ·)

/-- An unfinished construct as plain text: up to the next closing bracket, else up to the next
opening one, else a single character. -/
def unfinished (t : Text) : Text :=
  match through? ['>'] (t.drop 1) with
  | some (body, _) => t.take 1 ++ body
  | none =>
    let body := (t.drop 1).takeWhile (· ≠ '<')
    if body.length + 1 < t.length then t.take 1 ++ body else t.take 1

/-- Scans a text up to the first unfinished construct, or to the end when `final` is set, in which
case unfinished constructs are plain text. Gives what is left unread. -/
def pass (final : Bool) : Nat → RawHtml → Text → RawHtml × Text
  | 0, s, t => (s, t)
  | fuel + 1, s, t =>
    let plain? := match s.verbatimTag with
      | some tag => beforeClosing? tag t
      | none => some (t.takeWhile fun c => c ≠ '<' && c ≠ '&')
    match plain? with
    | none => (s, t)
    | some plain =>
      let s := if plain.isEmpty then s else (s.onText plain).advance plain
      let t := t.drop plain.length
      match t with
      | [] => (s, [])
      | '<' :: _ =>
        match s.construct? t with
        | some (s, after) => pass final fuel (s.advance (t.take (t.length - after.length))) after
        | none =>
          if final then
            let text := unfinished t
            pass final fuel ((s.onText text).advance text) (t.drop text.length)
          else (s, t)
      | '&' :: '#' :: _ =>
        match numberReference? t with
        | some (name, after) =>
          pass final fuel
            ((s.onEmpty ("&#".toList ++ name ++ [';']) false).advance
              (t.take (t.length - after.length))) after
        | none =>
          if t.contains ';' then ((s.onText (t.take 2)).advance (t.take 2), t.drop 2) else (s, t)
      | _ =>
        match nameReference? t with
        | some (name, after) =>
          pass final fuel
            ((s.onEmpty ('&' :: name ++ [';']) false).advance
              (t.take (t.length - after.length))) after
        | none => pass final fuel ((s.onText (t.take 1)).advance (t.take 1)) (t.drop 1)

/-- The source with its raw blocks replaced by marks, and the kept HTML with theirs added. -/
def extract (source : Text) (kept : List Text) : Text × List Text :=
  let fuel := source.length + 1
  let (s, rest) := pass false fuel { source, kept } source
  let (s, rest) := pass true fuel { s with source := rest } rest
  let s := if rest.isEmpty then s else s.onText rest
  let s := if s.raw.isEmpty then s
    else { s with
      clean := Mark.html s.kept.length :: s.clean
      kept := s.kept ++ [s.raw.reverse.flatten] }
  (s.clean.reverse.flatten, s.kept)

end RawHtml
end Sitewright.Markdown
