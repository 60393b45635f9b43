import Sitewright.Markdown.Emphasis
import Sitewright.Markdown.Html
import Sitewright.Markdown.Link
import Sitewright.Markdown.Mark
import Sitewright.Markdown.Reference
import Sitewright.Text.EntityName
import Sitewright.Text.Escape

/-!
Inline markup. The kinds of markup are looked for one after another in a whole text, and what is
found is put aside under a mark, so that later kinds see it as a single thing. In the end the marks
are put back as elements and text.
-/
namespace Sitewright.Markdown.Inline

open Text (spanWhile)

/-- Something put aside: an element, or text that no later kind may look into. -/
inductive Node where
  | element (e : Element)
  | text (t : Text)

/-- What has been put aside: inline nodes and kept HTML, each numbered from zero. -/
structure Stash where
  nodes : List Node := []
  kept : List Text

namespace Stash

/-- Puts a node aside and gives its mark. -/
def add (stash : Stash) (n : Node) : Text × Stash :=
  (Mark.node stash.nodes.length, { stash with nodes := stash.nodes ++ [n] })

/-- Keeps HTML and gives its mark. -/
def keep (stash : Stash) (html : Text) : Text × Stash :=
  (Mark.html stash.kept.length, { stash with kept := stash.kept ++ [html] })

/-- The text with the marks of nodes replaced; `skip` characters of the last mark are still to be
passed over. -/
def replaceMarks (write : Nat → Text) : Nat → Text → Text
  | _, [] => []
  | skip + 1, _ :: cs => replaceMarks write skip cs
  | 0, c :: cs =>
    match Mark.node? (c :: cs) with
    | some (n, size) => write n ++ replaceMarks write (size - 1) cs
    | none => c :: replaceMarks write 0 cs

/-- The text with every mark replaced by the characters it stands for. -/
def plain (stash : Stash) (t : Text) : Text :=
  replaceMarks (fun n => match stash.nodes[n]? with
    | some (.element e) => e.content
    | some (.text t) => t
    | none => []) 0 t

/-- The text with every mark replaced by what was written there, as far as it is known: elements
become HTML again, and protected text is given its backslash back. -/
def asWritten (stash : Stash) : Nat → Text → Text
  | 0, t => t
  | fuel + 1, t =>
    replaceMarks (fun n => match stash.nodes[n]? with
      | some (.element e) => asWritten stash fuel e.html
      | some (.text t) => '\\' :: t
      | none => []) 0 t

end Stash

/-- What a kind of markup found at a place. -/
inductive Found where
  | node (n : Node)
  /-- HTML to be kept as written. -/
  | html (source : Text)
  /-- Nothing, and none of this kind within its size. -/
  | pass

abbrev Kind := References → Stash → Text.Finder Found

/-- The characters that a backslash protects. -/
def escapable : Text := "\\`*_\x7b\x7d[]()>#+-.!|".toList

/-- Ticks around code: the size of the opening run and the code. Shorter opening runs are tried
after longer ones; the closing run must have the very size. -/
def codeSpan? (t : Text) : Nat → Option (Nat × Text)
  | 0 => none
  | n + 1 =>
    match closing (n + 1) (t.drop (n + 1)) with
    | some code => some (n + 1, code)
    | none => codeSpan? t n
where
  /-- The text before a run of exactly `n` ticks, at least one character. -/
  closing (n : Nat) : Text → Option Text
    | [] => none
    | c :: cs =>
      if c ≠ '`' && (cs.takeWhile (· = '`')).length = n then some [c]
      else (closing n cs).map (c :: ·)

/-- Code between ticks. An even run of backslashes before ticks stands for half as many
backslashes. -/
def code : Kind := fun _ _ before after =>
  if before.head? = some '\\' then none
  else
    let slashes := (after.takeWhile (· = '\\')).length
    if 0 < slashes then
      if slashes % 2 = 0 && (after.drop slashes).head? = some '`' then
        let text := (List.replicate (slashes / 2) (Mark.escaped '\\')).flatten
        some ⟨.node (.text text), slashes⟩
      else none
    else
      (codeSpan? after (after.takeWhile (· = '`')).length).map fun (n, code) =>
        ⟨.node (.element { Element.named "code" with
          text := Text.escapeText (Text.strip code), verbatim := true }), code.length + 2 * n⟩

/-- A backslash before a character it protects. -/
def escaped : Kind := fun _ _ _ after =>
  match after with
  | '\\' :: c :: _ =>
    some ⟨if escapable.contains c then .node (.text (Mark.escaped c)) else .pass, 2⟩
  | _ => none

/-- The element of a link or of an image, its attributes in the order of their names. -/
def linkElement (image : Bool) (stash : Stash) (url : Text) (title : Option Text) (text : Text) :
    Element :=
  let titled := title.toList.map fun t => ("title".toList, t)
  if image then { Element.named "img" with
    attributes := ("alt".toList, stash.plain text) :: ("src".toList, url) :: titled }
  else { Element.named "a" with attributes := ("href".toList, url) :: titled, text }

/-- What opens a link, or an image, and the rest. -/
def linkStart? (image : Bool) (before after : Text) : Option Text :=
  if image then "![".toList.isPrefixOf? after
  else if before.head? = some '!' then none else ['['].isPrefixOf? after

/-- A link or image with its target in parentheses. -/
def targeted (image : Bool) : Kind := fun _ stash before after =>
  (linkStart? image before after).bind fun rest =>
    (Link.bracketed? 1 rest).bind fun (text, rest) =>
      (Link.target? rest).map fun target =>
        let title := target.title.map (Link.cleanTitle stash.plain)
        let url := Text.strip (stash.plain target.url)
        ⟨.node (.element (linkElement image stash url title text)),
          after.length - rest.length + target.size⟩

def singleSpaces (t : Text) : Text := go false t
where
  go (pending : Bool) : Text → Text
    | [] => if pending then [' '] else []
    | c :: cs =>
      if Text.isBlank c then go true cs
      else if pending then ' ' :: c :: go false cs
      else c :: go false cs

/-- The name of a reference in brackets of its own, and what follows it. An empty name stands for
the text of the link. -/
def referenceName? (text t : Text) : Option (Text × Text) :=
  let t := match t with
    | c :: cs => if Text.isBlank c then cs else t
    | [] => t
  match t with
  | '[' :: rest =>
    match spanWhile (· ≠ ']') rest with
    | (name, _ :: after) => some (if name.isEmpty then text else name, after)
    | _ => none
  | _ => none

/-- A link or image through a reference, whose name is given apart or, if `short`, is the text
itself. An undefined one is passed over. -/
def referenced (image short : Bool) : Kind := fun references stash before after =>
  (linkStart? image before after).bind fun rest =>
    (Link.bracketed? 1 rest).bind fun (text, rest) =>
      let named := if short then some (text, rest) else referenceName? text rest
      named.map fun (name, rest) =>
        let size := after.length - rest.length
        match references.lookup (singleSpaces (Text.lower name)) with
        | none => ⟨.pass, size⟩
        | some r =>
          let title := if r.title.isEmpty then none else some r.title
          ⟨.node (.element (linkElement image stash r.url title text)), size⟩

/-- The content of a pair of angle brackets that opens here. -/
def angled? (t : Text) : Option Text :=
  match t with
  | '<' :: rest =>
    match spanWhile (fun c => c ≠ '<' && c ≠ '>') rest with
    | (body, '>' :: _) => some body
    | _ => none
  | _ => none

/-- Does the text start with a scheme of the web or of file transfer? -/
def isWebAddress (t : Text) : Bool :=
  let address := t.map Char.toLower
  ["http://", "https://", "ftp://", "ftps://"].any fun s => s.toList.isPrefixOf address

/-- An address in angle brackets. -/
def autolink : Kind := fun _ stash _ after =>
  (angled? after).bind fun body =>
    if isWebAddress body then
      some ⟨.node (.element { Element.named "a" with
        attributes := [("href".toList, stash.plain body)], text := body, verbatim := true }),
        body.length + 2⟩
    else none

/-- Is this a mail address: something, an at sign, and something without one? -/
def isMailAddress (t : Text) : Bool :=
  !t.contains ' ' &&
  match spanWhile (· ≠ '@') t.reverse with
  | (_ :: _, _ :: user) => !user.isEmpty && !user.contains '!'
  | _ => false

def numberReference (c : Char) : Text := Mark.ampersand ++ '#' :: Text.ofNat c.toNat ++ [';']

/-- A reference to a character, by name if it has one. -/
def reference (c : Char) : Text :=
  match Text.entityName? c with
  | some name => Mark.ampersand ++ name ++ [';']
  | none => numberReference c

/-- A mail address in angle brackets, written in character references. -/
def mailLink : Kind := fun _ stash _ after =>
  (angled? after).bind fun body =>
    if isMailAddress body then
      let address := Text.dropLead "mailto:".toList (stash.plain body)
      some ⟨.node (.element { Element.named "a" with
        attributes := [("href".toList, ("mailto:".toList ++ address).flatMap numberReference)]
        text := address.flatMap reference, verbatim := true }), body.length + 2⟩
    else none

/-- Two spaces at the end of a line. -/
def lineBreak : Kind := fun _ _ _ after =>
  if "  \n".toList.isPrefixOf after then some ⟨.node (.element (Element.named "br")), 3⟩ else none

/-- A construct between two delimiters that does not contain its own opening: its size. -/
def delimited? (lead close t : Text) : Option Nat :=
  (lead.isPrefixOf? t).bind fun rest =>
    (Text.breakAt? close rest).bind fun (body, _) =>
      if Text.has lead (body ++ close.dropLast) then none
      else some (lead.length + body.length + close.length)

/-- The size of a tag: a name, and after a space anything but angle brackets. -/
def tagSize? (t : Text) : Option Nat :=
  match angled? t with
  | some body =>
    let named := match body with
      | '/' :: name => name
      | name => name
    if named.head?.any Char.isAlpha && !(named.takeWhile (· ≠ ' ')).contains '@' then
      some (body.length + 2)
    else none
  | none => none

/-- A tag, a comment, a processing instruction or a marked section. -/
def html : Kind := fun _ _ _ after =>
  if after.head? = some '<' then
    (tagSize? after <|> delimited? "<!--".toList "-->".toList after <|>
      delimited? "<?".toList "?>".toList after <|>
      delimited? "<![CDATA[".toList "]]>".toList after).map fun n => ⟨.html (after.take n), n⟩
  else none

/-- A character reference. -/
def entity : Kind := fun _ _ _ after =>
  match after with
  | '&' :: rest =>
    let body := rest.takeWhile (· ≠ ';')
    let closed := (rest.drop body.length).head? == some ';'
    let isName := match body with
      | '#' :: 'x' :: ds => !ds.isEmpty && ds.all isHexDigit
      | '#' :: ds => !ds.isEmpty && ds.all Char.isDigit
      | [] => false
      | name => name.all Char.isAlphanum
    if closed && isName then some ⟨.html ('&' :: body ++ [';']), body.length + 2⟩ else none
  | _ => none

/-- Up to three stars or underscores between white space are text. -/
def loneDelimiters : Kind := fun _ _ before after =>
  match after with
  | c :: _ =>
    let run := after.takeWhile (· = c)
    let edge (t : Text) : Bool := t.head?.all Text.isBlank
    if (c = '*' || c = '_') && edge before && run.length ≤ 3 && edge (after.drop run.length) then
      some ⟨.node (.text run), run.length⟩
    else none
  | [] => none

def emphasis (kind : Emphasis.Kind) : Kind := fun _ _ before after =>
  (Emphasis.at? kind before after).map fun s => ⟨.node (.element s.element), s.size⟩

/-- All kinds of markup in the order in which they are looked for. -/
def kinds : List Kind := [
  code, escaped, referenced false false, targeted false, targeted true, referenced true false,
  referenced false true, referenced true true, autolink, mailLink, lineBreak, html, entity,
  loneDelimiters, emphasis .asterisk, emphasis .underscore]

/-- The first thing of a kind in a text: what stands before it, nearest first, the thing, its
size, and the text from it on. The first `skip` characters are passed over. -/
def seek (find : Text.Finder Found) (skip : Nat) (before : Text) :
    Text → Option (Text × Text.Hit Found × Text)
  | [] => none
  | c :: cs =>
    match skip with
    | skip + 1 => seek find skip (c :: before) cs
    | 0 =>
      match find before (c :: cs) with
      | some ⟨.pass, size⟩ => seek find (size - 1) (c :: before) cs
      | some hit => some (before, hit, c :: cs)
      | none => seek find 0 (c :: before) cs

mutual

/-- Puts aside all markup of a text, given the kinds still to be looked for. After each thing
found the search starts again at the beginning of the text. -/
def handle (references : References) : Nat → List Kind → Stash → Text → Text × Stash
  | 0, _, stash, t => (t, stash)
  | _, [], stash, t => (t, stash)
  | fuel + 1, kind :: kinds, stash, t =>
    match seek (kind references stash) 0 [] t with
    | none => handle references fuel kinds stash t
    | some (before, ⟨found, size⟩, after) =>
      let (node, stash) := match found with
        | .node (.element e) =>
          let (e, stash) := handleElement references fuel kind kinds stash e
          (Node.element e, stash)
        | .node n => (n, stash)
        | .html source =>
          let written := Mark.unescape (stash.asWritten (stash.nodes.length + 1) source)
          let (mark, stash) := stash.keep written
          (Node.text mark, stash)
        | .pass => (.text [], stash)
      let (mark, stash) := stash.add node
      handle references fuel (kind :: kinds) stash (before.reverse ++ mark ++ after.drop size)

/-- Puts aside the markup inside a new element: in its text and the texts of its children the
later kinds, in what follows its children also the kind that found it. -/
def handleElement (references : References) : Nat → Kind → List Kind → Stash → Element →
    Element × Stash
  | 0, _, _, stash, e => (e, stash)
  | fuel + 1, kind, kinds, stash, e =>
    if e.verbatim then (e, stash)
    else
      let (text, stash) := handle references fuel kinds stash e.text
      let (children, stash) := handleChildren references fuel kind kinds stash e.children
      ({ e with text, children }, stash)

/-- Puts aside the markup in the children of a new element. -/
def handleChildren (references : References) : Nat → Kind → List Kind → Stash → List Element →
    List Element × Stash
  | 0, _, _, stash, es => (es, stash)
  | _, _, _, stash, [] => ([], stash)
  | fuel + 1, kind, kinds, stash, e :: es =>
    let (text, stash) := handle references fuel kinds stash e.text
    let (tail, stash) := handle references fuel (kind :: kinds) stash e.tail
    let (es, stash) := handleChildren references fuel kind kinds stash es
    ({ e with text, tail } :: es, stash)

end

/-- The text of an element or after one, with all markup put aside. -/
def markup (references : References) (stash : Stash) (t : Text) : Text × Stash :=
  handle references (2 * t.length + kinds.length + 8) kinds stash t

/-- The parts of a text between marks of nodes; `skip` characters of the last mark are still to
be passed over. -/
def parts (nodes : List Node) : Nat → Text → List (Text.Piece Element)
  | _, [] => []
  | skip + 1, _ :: cs => parts nodes skip cs
  | 0, c :: cs =>
    match Mark.node? (c :: cs) with
    | some (n, size) =>
      (match nodes[n]? with
        | some (.element e) => Text.Piece.found e
        | some (.text t) => .plain t
        | none => .plain []) :: parts nodes (size - 1) cs
    | none => .plain [c] :: parts nodes 0 cs

mutual

/-- The text before the first element that a text holds by marks, and the elements, each with the
text after it as its tail. -/
def resolve (nodes : List Node) : Nat → Text → Text × List Element
  | 0, t => (t, [])
  | fuel + 1, t =>
    let (lead, elements) := Emphasis.assemble (parts nodes 0 t)
    (lead, resolveEach nodes fuel elements)

/-- Resolves the texts of elements that stood behind marks, and of their children. -/
def resolveEach (nodes : List Node) : Nat → List Element → List Element
  | 0, es => es
  | _, [] => []
  | fuel + 1, e :: es =>
    let (text, elements) := resolve nodes fuel e.text
    { e with
      text
      verbatim := e.verbatim && text = e.text
      children := elements ++ resolveChildren nodes fuel e.children } :: resolveEach nodes fuel es

def resolveChildren (nodes : List Node) : Nat → List Element → List Element
  | 0, es => es
  | _, [] => []
  | fuel + 1, e :: es =>
    let (text, elements) := resolve nodes fuel e.text
    let (tail, siblings) := resolve nodes fuel e.tail
    { e with text, tail, children := elements ++ e.children } ::
      (siblings ++ resolveChildren nodes fuel es)

end

/-- A text with its markup as elements. -/
def inlined (references : References) (stash : Stash) (t : Text) : (Text × List Element) × Stash :=
  let (t, stash) := markup references stash t
  (resolve stash.nodes (t.length + 2 * stash.nodes.length + 8) t, stash)

/-- An element, and how many more times its children are to be read. -/
abbrev Pending := Element × Nat

mutual

/-- Reads the inline markup in the texts and tails of some children. Elements found in a text come
first among the children of their element; elements found in a tail come next and are read in
turn. -/
def readChildren (references : References) : Nat → Stash → List Pending → List Element × Stash
  | 0, stash, es => (es.map (·.1), stash)
  | _, stash, [] => ([], stash)
  | fuel + 1, stash, (e, times) :: es =>
    let ((text, found), stash) :=
      if e.verbatim then ((e.text, []), stash) else inlined references stash e.text
    let ((tail, siblings), stash) := inlined references stash e.tail
    let (rest, stash) := readChildren references fuel stash (siblings.map (·, 0) ++ es)
    let children := found.map (·, 1) ++ e.children.map (·, 0)
    let times := if e.children.isEmpty then times else times + 1
    let (children, stash) := readAgain references fuel stash times children
    ({ e with text, tail, children } :: rest, stash)

/-- Reads children the given number of times, or only those among them that are to be read on
their own account. -/
def readAgain (references : References) : Nat → Stash → Nat → List Pending → List Element × Stash
  | 0, stash, _, es => (es.map (·.1), stash)
  | _, stash, _, [] => ([], stash)
  | fuel + 1, stash, times + 1, es =>
    let (es, stash) := readChildren references fuel stash es
    readAgain references fuel stash times (es.map (·, 0))
  | fuel + 1, stash, 0, (e, times) :: es =>
    if times = 0 && es.all (·.2 == 0) then (e :: es.map (·.1), stash)
    else
      let (children, stash) := readAgain references fuel stash times (e.children.map (·, 0))
      let (es, stash) := readAgain references fuel stash 0 es
      ({ e with children } :: es, stash)

end

mutual
/-- The number of characters and elements in a tree. -/
def extent : Element → Nat
  | ⟨_, _, text, _, children, tail⟩ => 1 + text.length + tail.length + extents children

/-- The number of characters and elements in a list of trees. -/
def extents : List Element → Nat
  | [] => 0
  | e :: es => extent e + extents es
end

/-- Reads the inline markup of a whole tree. HTML found on the way is added to what is kept. -/
def read (references : References) (kept : List Text) (root : Element) : Element × List Text :=
  let (children, stash) :=
    readChildren references (8 * extent root + 64) { kept } (root.children.map (·, 0))
  ({ root with children }, stash.kept)

end Sitewright.Markdown.Inline
