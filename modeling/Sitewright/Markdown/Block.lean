import Sitewright.Markdown.Reference
import Sitewright.Markdown.Table
import Sitewright.Text.Digit
import Sitewright.Text.Escape

/-!
The block structure of a document. The source is cut at blank lines; each block is added to the
element it belongs to by the first rule that applies, and a rule may leave a rest to be looked at
next. Inline text stays as it is.
-/
namespace Sitewright.Markdown.Block

open Text (spanWhile)

/-- What encloses the blocks being added. -/
inductive Context where
  | document
  | list
  | looseList
  | quote
  /-- Blocks whose indentation has already been taken off. -/
  | detabbed
  deriving DecidableEq

/-- Four spaces. -/
def tab : Text := "    ".toList

/-- Does the text start with four spaces? -/
def isIndented (t : Text) : Bool := tab.isPrefixOf t

/-- The parts of a text between blank lines. -/
def parts (t : Text) : List Text := go [] t
where
  go (part : Text) : Text → List Text
    | [] => [part.reverse]
    | '\n' :: '\n' :: cs => part.reverse :: go [] cs
    | c :: cs => go (c :: part) cs

/-- Takes four spaces off the indented lines at the start, up to the first line that is neither
indented nor blank; gives those lines and the rest. -/
def detabLines : List Text → List Text × List Text
  | [] => ([], [])
  | line :: lines =>
    if isIndented line then
      let (code, rest) := detabLines lines
      (line.drop 4 :: code, rest)
    else if Text.isBlankText line then
      let (code, rest) := detabLines lines
      ([] :: code, rest)
    else ([], line :: lines)

/-- The indented start of a text, and the rest. -/
def detab (t : Text) : Text × Text :=
  let (code, rest) := detabLines (Text.splitOn '\n' t)
  (Text.join ['\n'] code, Text.join ['\n'] rest)

/-- Takes the given number of tabs off every line that has them. -/
def looseDetab (level : Nat) (t : Text) : Text :=
  Text.join ['\n'] ((Text.splitOn '\n' t).map fun line =>
    if (Text.fill (4 * level) ' ').isPrefixOf line then line.drop (4 * level) else line)

/-- How many levels below an element a block indented by `indent` tabs belongs, going down the
last children: the list levels reached and the number of steps. -/
def listLevel (indent : Nat) : Nat → Nat → Element → Nat × Nat
  | 0, level, _ => (level, 0)
  | fuel + 1, level, e =>
    if level < indent then
      match e.last? with
      | some child =>
        if child.isList || child.isTag "li" then
          let (reached, steps) :=
            listLevel indent fuel (if child.isList then level + 1 else level) child
          (reached, steps + 1)
        else (level, 0)
      | none => (level, 0)
    else (level, 0)

/-- A heading written with number signs: its level, its text, and the text before and after its
line. -/
structure Heading where
  level : Nat
  text : Text
  before : Text
  after : Text

/-- The text of a heading and what follows its line; closing number signs are dropped. A backslash
before the line end spoils the heading. -/
def headingText? : Nat → Text → Option (Text × Text)
  | 0, _ => none
  | fuel + 1, t =>
    match t.dropWhile (· = '#') with
    | [] => some ([], [])
    | '\n' :: after => some ([], after)
    | _ =>
      match t with
      | '\\' :: c :: rest =>
        if c = '\n' then none
        else (headingText? fuel rest).map fun (text, after) => ('\\' :: c :: text, after)
      | ['\\'] => none
      | c :: rest => (headingText? fuel rest).map fun (text, after) => (c :: text, after)
      | [] => none

def heading? (fresh : Bool) : Text → Option Heading
  | [] => none
  | c :: cs =>
    let found :=
      if fresh && c = '#' then
        let level := min 6 ((c :: cs).takeWhile (· = '#')).length
        let rest := (c :: cs).drop level
        (headingText? (rest.length + 1) rest).map fun (text, after) =>
          ({ level, text := Text.strip text, before := [], after } : Heading)
      else none
    match found with
    | some h => some h
    | none => (heading? (c = '\n') cs).map fun h =>
      -- the line feed before the heading belongs to neither part
      if h.before.isEmpty && c = '\n' then h else { h with before := c :: h.before }

/-- The level and text of a heading underlined on the second line, and what follows. -/
def underlined? (block : Text) : Option (Nat × Text × List Text) :=
  match Text.splitOn '\n' block with
  | first :: second :: rest =>
    let (rule, blanks) := spanWhile (fun c => c = '=' || c = '-') second
    if !rule.isEmpty && blanks.all (· = ' ') then
      some (if rule.head? = some '=' then 1 else 2, Text.strip first, rest)
    else none
  | _ => none

/-- Are these runs of the character with gaps of at most two spaces between them, blanks at the
end aside? -/
def gapsShort (c : Char) : Nat → Text → Bool
  | _, [] => true
  | gap, d :: ds =>
    if d = c then gapsShort c 0 ds
    else if d = ' ' then
      if gap < 2 then gapsShort c (gap + 1) ds else ds.all (· = ' ')
    else false

/-- Is the line a rule: three or more dashes, underscores or stars with short gaps? -/
def isRule (line : Text) : Bool :=
  match line.drop (min 3 (line.takeWhile (· = ' ')).length) with
  | c :: cs =>
    (c = '-' || c = '_' || c = '*') && 3 ≤ (c :: cs).count c && gapsShort c 0 cs
  | [] => false

/-- The text before the first rule in a block and the text after it. -/
def rule? (block : Text) : Option (Text × Text) :=
  let lines := Text.splitOn '\n' block
  (lines.findIdx? isRule).map fun k =>
    (Text.join ['\n'] (lines.take k), Text.join ['\n'] (lines.drop (k + 1)))

inductive ListKind where
  | ordered
  | bulleted

def ListKind.tag : ListKind → String
  | .ordered => "ol"
  | .bulleted => "ul"

/-- What follows an item marker of the given kind: the marker and the rest. -/
def ListKind.marker? (kind : ListKind) (t : Text) : Option (Text × Text) :=
  match kind with
  | .ordered =>
    match spanWhile Text.isDigit t with
    | (d :: ds, '.' :: rest) => some (d :: ds, rest)
    | _ => none
  | .bulleted =>
    match t with
    | c :: rest => if c = '*' || c = '+' || c = '-' then some ([c], rest) else none
    | [] => none

/-- The first line of an item, indented by at least `low` and at most `high` spaces: its marker
and its text. -/
def itemStart? (kind : ListKind) (low high : Nat) (line : Text) : Option (Text × Text) :=
  let indent := (line.takeWhile (· = ' ')).length
  if low ≤ indent && indent ≤ high then
    (kind.marker? (line.drop indent)).bind fun (marker, rest) =>
      match spanWhile (· = ' ') rest with
      | ([], _) => none
      | (_, text) => some (marker, text)
  else none

/-- Adds a line to the items read so far, the last first. -/
def addLine (kind : ListKind) (items : List Text) (line : Text) : List Text :=
  match itemStart? kind 0 3 line, items with
  | some (_, text), items => text :: items
  | none, [] => []
  | none, last :: items =>
    let nested := (itemStart? .ordered 4 7 line).isSome || (itemStart? .bulleted 4 7 line).isSome
    if nested && !isIndented last then line :: last :: items
    else (last ++ '\n' :: line) :: items

/-- The items of a block of list lines. -/
def items (kind : ListKind) (block : Text) : List Text :=
  ((Text.splitOn '\n' block).foldl (addLine kind) []).reverse

/-- The number that the first item of a block carries. -/
def firstNumber (block : Text) : Text :=
  match itemStart? .ordered 0 3 (Text.cutLine block).1 with
  | some (marker, _) => marker
  | none => ['1']

/-- The text of a quoted line after its mark. -/
def quoted? (line : Text) : Option Text :=
  match line.drop (min 3 (line.takeWhile (· = ' ')).length) with
  | '>' :: ' ' :: rest => some rest
  | '>' :: rest => some rest
  | _ => none

/-- A line of a quote without its mark; a line without a mark stays. -/
def unquote (line : Text) : Text := if Text.strip line = ['>'] then [] else (quoted? line).getD line

/-- The lines before the first quoted line of a block, and the quote. -/
def quote? (block : Text) : Option (List Text × List Text) :=
  let lines := Text.splitOn '\n' block
  (lines.findIdx? fun line => (quoted? line).isSome).map fun k =>
    (lines.take k, (lines.drop k).map unquote)

def paragraph (text : Text) : Element := { Element.named "p" with text }

/-- Moves the text of a list item into a paragraph of its own, before its children. -/
def wrapText (item : Element) : Element :=
  if item.text.isEmpty then item
  else { item with text := [], children := paragraph item.text :: item.children }

/-- Moves the text after the last child of a list item into a paragraph of its own. -/
def wrapTail (item : Element) : Element :=
  match item.last? with
  | some child =>
    if child.tail.isEmpty then item
    else
      (item.setLast { child with tail := [] }).push (paragraph (child.tail.dropWhile Text.isBlank))
  | none => item

/-- A block of code with the given lines; its text is kept escaped. -/
def codeBlock (code : Text) : Element :=
  { Element.named "pre" with
    children := [{ Element.named "code" with
      text := Text.escapeText (Text.dropEndWhile Text.isBlank code) ++ ['\n'], verbatim := true }] }

/-- Adds to the text of a block of code. -/
def extendCode (pre : Element) (more : Text) : Element :=
  match pre.children with
  | code :: rest => { pre with children := { code with text := code.text ++ more } :: rest }
  | [] => pre

/-- Adds to the block of code that ends an element, if one does. -/
def fillCode (parent : Element) (filler : Text) : Element :=
  match parent.last?.filter Element.isCodeBlock with
  | some pre => parent.setLast (extendCode pre filler)
  | none => parent

/-- Adds code to an element, to the block of code that ends it if one does. -/
def addCode (parent : Element) (code : Text) : Element :=
  match parent.last?.filter Element.isCodeBlock with
  | some pre =>
    parent.setLast (extendCode pre
      ('\n' :: Text.escapeText (Text.dropEndWhile Text.isBlank code) ++ ['\n']))
  | none => parent.push (codeBlock code)

/-- A block to be looked at, unless it is empty. -/
def unlessEmpty (block : Text) : List Text := if block.isEmpty then [] else [block]

/-- Adds a text to an element as a paragraph, or as bare text in a tight list. -/
def addText (ctx : Context) (parent : Element) (block : Text) : Element :=
  if Text.isBlankText block then parent
  else if ctx = .list then
    match parent.last? with
    | some child => parent.setLast { child with tail := child.tail ++ '\n' :: block }
    | none =>
      let text := block.dropWhile Text.isBlank
      { parent with text := if parent.text.isEmpty then text else parent.text ++ '\n' :: text }
  else parent.push (paragraph (block.dropWhile Text.isBlank))

/-- Is the block, in its place, part of an item of an enclosing list? -/
def continuesList (ctx : Context) (parent : Element) (block : Text) : Bool :=
  isIndented block && ctx ≠ .detabbed &&
    (parent.isTag "li" || parent.last?.any Element.isList)

/-- What is under construction: an element, and the references defined so far. -/
abbrev Build := StateM References

/-- Changes the element the given number of steps down the last children. -/
def changeDown (change : Element → Build Element) : Nat → Element → Build Element
  | 0, e => change e
  | n + 1, e =>
    match e.last? with
    | some child => do return e.setLast (← changeDown change n child)
    | none => change e

mutual

/-- Adds blocks to an element, one rule at a time. -/
def addBlocks : Nat → Context → Element → List Text → Build Element
  | 0, _, parent, _ => pure parent
  | _, _, parent, [] => pure parent
  | fuel + 1, ctx, parent, block :: blocks => do
    let (parent, rest) ← addBlock fuel ctx parent block
    addBlocks fuel ctx parent (rest ++ blocks)

/-- Adds a block by the first rule that applies, and gives the blocks that the rule leaves. -/
def addBlock : Nat → Context → Element → Text → Build (Element × List Text)
  | 0, _, parent, _ => pure (parent, [])
  | fuel + 1, ctx, parent, block => do
    -- an empty line inside or after a block of code belongs to the code
    if block.isEmpty || block.head? = some '\n' then
      let filler := (if block.isEmpty then "\n\n" else "\n").toList
      return (fillCode parent filler, unlessEmpty (block.drop 1))
    else if continuesList ctx parent block then
      return (← addToList fuel ctx parent block, [])
    else if isIndented block then
      let (code, rest) := detab block
      return (addCode parent code, unlessEmpty rest)
    else match Table.Shape.ofBlock? block with
    | some shape => return (parent.push (Table.build shape block), [])
    | none =>
    match heading? true block with
    | some h =>
      let parent ← addBlocks fuel ctx parent (unlessEmpty h.before)
      let after := if ctx = .looseList then looseDetab 1 h.after else h.after
      return (parent.push { tag := 'h' :: Text.ofNat h.level, text := h.text },
        if h.after.isEmpty then [] else [after])
    | none =>
    match underlined? block with
    | some (level, text, rest) =>
      return (parent.push { tag := 'h' :: Text.ofNat level, text },
        if rest.isEmpty then [] else [Text.join ['\n'] rest])
    | none =>
    match rule? block with
    | some (before, after) =>
      let parent ← addBlocks fuel ctx parent (unlessEmpty (Text.dropEndWhile (· = '\n') before))
      return (parent.push (Element.named "hr"), unlessEmpty (after.dropWhile (· = '\n')))
    | none =>
    if (itemStart? .ordered 0 3 (Text.cutLine block).1).isSome then
      return (← addItems fuel .ordered parent block, [])
    else if (itemStart? .bulleted 0 3 (Text.cutLine block).1).isSome then
      return (← addItems fuel .bulleted parent block, [])
    else match quote? block with
    | some (before, lines) =>
      let parent ← addBlocks fuel ctx parent [Text.join ['\n'] before]
      -- a quote below other lines starts with the empty line that cut it off
      let inner := Text.join ['\n'] (if before.isEmpty then lines else [] :: lines)
      return (← addQuote fuel parent (parts inner), [])
    | none =>
    match Reference.find? true block with
    | some (before, name, reference, after) =>
      modify ((name, reference) :: ·)
      return (parent,
        (if Text.isBlankText before then [] else [Text.dropEndWhile (· = '\n') before]) ++
          if Text.isBlankText after then [] else [after.dropWhile (· = '\n')])
    | none => return (addText ctx parent block, [])

/-- Adds quoted blocks to the quote before them, or to a new quote. -/
def addQuote : Nat → Element → List Text → Build Element
  | 0, parent, _ => pure parent
  | fuel + 1, parent, blocks => do
    match parent.last?.filter (·.isTag "blockquote") with
    | some quote => return parent.setLast (← addBlocks fuel .quote quote blocks)
    | none => return parent.push (← addBlocks fuel .quote (Element.named "blockquote") blocks)

/-- Adds an indented block to the list item it belongs to. -/
def addToList : Nat → Context → Element → Text → Build Element
  | 0, _, parent, _ => pure parent
  | fuel + 1, ctx, parent, block => do
    let indent := (block.takeWhile (· = ' ')).length / 4
    let (level, steps) := listLevel indent (block.length + 1) (if ctx = .list then 1 else 0) parent
    let block := looseDetab level block
    if parent.isTag "li" then
      match parent.last? with
      | some child =>
        if child.isList then return parent.setLast (← addBlocks fuel .detabbed child [block])
        else addBlocks fuel .detabbed parent [block]
      | none => addBlocks fuel .detabbed parent [block]
    else
      changeDown (fun sibling => do
        if sibling.isTag "li" then addBlocks fuel .detabbed sibling [block]
        else match sibling.last? with
          | some item =>
            if item.isTag "li" then
              return sibling.setLast (← addBlocks fuel .detabbed (wrapText item) (parts block))
            else return sibling.push (← addBlocks fuel .detabbed (Element.named "li") [block])
          | none => return sibling.push (← addBlocks fuel .detabbed (Element.named "li") [block]))
        steps parent

/-- Adds the items of a block to the list before it, or to a new list. -/
def addItems : Nat → ListKind → Element → Text → Build Element
  | 0, _, parent, _ => pure parent
  | fuel + 1, kind, parent, block => do
    let found := items kind block
    let sibling := parent.last?.filter fun e => e.isTag kind.tag
    match sibling with
    | some list =>
      -- what the list held so far becomes loose
      let list := match list.last? with
        | some item => list.setLast (wrapTail (wrapText item))
        | none => list
      let first ← addBlocks fuel .looseList (Element.named "li") [found.headD []]
      return parent.setLast (← addEach fuel (list.push first) (found.drop 1))
    | none =>
      if parent.isList then addEach fuel parent found
      else
        let start := firstNumber block
        let list := { Element.named kind.tag with
          attributes := match kind with
            | .ordered => if start = ['1'] then [] else [("start".toList, start)]
            | .bulleted => [] }
        return parent.push (← addEach fuel list found)

/-- Adds items to a list; an indented one goes into the item before it. -/
def addEach : Nat → Element → List Text → Build Element
  | 0, list, _ => pure list
  | _, list, [] => pure list
  | fuel + 1, list, item :: rest => do
    match if isIndented item then list.last? else none with
    | some last => addEach fuel (list.setLast (← addBlocks fuel .list last [item])) rest
    | none => addEach fuel (list.push (← addBlocks fuel .list (Element.named "li") [item])) rest

end

/-- The document tree of a source, and the references it defines. -/
def document (source : Text) : Element × References :=
  (addBlocks (8 * source.length + 64) .document (Element.named "div") (parts source)).run []

end Sitewright.Markdown.Block
