import Sitewright.Digest
import Sitewright.Hypermedia
import Sitewright.Shield
import Sitewright.Text.Digit

/-!
Placeholders for HTML that must pass through Markdown untouched. Masking swaps raw fences and
hypermedia links for tokens and remembers their HTML in a table; restoring puts it back. A fence
token is an HTML comment on a paragraph of its own, a link token a single word.
-/
namespace Sitewright

open Text (spanWhile)

/-- The HTML of one document's placeholders, under a nonce of its own. -/
structure RawTable where
  nonce : Text
  /-- Tokens and the HTML they stand for, in the order they were added. -/
  entries : List (Text × Text) := []

namespace RawTable

/-- The word that starts every token of a link. -/
def inlineLead (nonce : Text) : Text := "flintraw".toList ++ nonce ++ ['i']

/-- What starts every token of a fence. -/
def blockLead (nonce : Text) : Text := "<!--flint-raw-".toList ++ nonce ++ ['-']

def blockToken (nonce : Text) (n : Nat) : Text := blockLead nonce ++ Text.ofNat n ++ "-->".toList

def inlineToken (nonce : Text) (n : Nat) : Text := inlineLead nonce ++ Text.ofNat n ++ ['x']

/-- How many placeholders there are; the next token carries this number. -/
def size (table : RawTable) : Nat := table.entries.length

/-- Stores HTML and gives the token that stands for it. -/
def add (table : RawTable) (html : Text) (inline : Bool) : Text × RawTable :=
  let token := if inline then inlineToken table.nonce table.size
    else blockToken table.nonce table.size
  (token, { table with entries := table.entries ++ [(token, html)] })

/-- A number between a given beginning and a given end, as written. -/
def numberedAt? (lead close t : Text) : Option Text :=
  (lead.isPrefixOf? t).bind fun rest =>
    match spanWhile Text.isDigit rest with
    | ([], _) => none
    | (digits, rest) => if close.isPrefixOf rest then some (lead ++ digits ++ close) else none

def blockTokenAt? (nonce t : Text) : Option Text := numberedAt? (blockLead nonce) "-->".toList t

def inlineTokenAt? (nonce t : Text) : Option Text := numberedAt? (inlineLead nonce) ['x'] t

/-- A paragraph that holds nothing but a token of a fence, with the token. -/
def paragraphAt? (nonce t : Text) : Option (Text.Hit Text) :=
  ("<p>".toList.isPrefixOf? t).bind fun rest =>
    let (blanks, rest) := spanWhile Text.isBlank rest
    (blockTokenAt? nonce rest).bind fun token =>
      let (more, rest) := spanWhile Text.isBlank (rest.drop token.length)
      if "</p>".toList.isPrefixOf rest then
        some ⟨token, 3 + blanks.length + token.length + more.length + 4⟩
      else none

/-- Finds tokens; the paragraph around a lone token of a fence counts as part of it. -/
def findToken (nonce : Text) : Text.Finder Text := fun _ after =>
  paragraphAt? nonce after <|>
  (blockTokenAt? nonce after <|> inlineTokenAt? nonce after).map fun token => ⟨token, token.length⟩

/-- Puts the stored HTML back. Stored HTML is not looked at again. -/
def restore (table : RawTable) (html : Text) : Text :=
  if table.entries.isEmpty then html
  else Text.substitute (findToken table.nonce) (fun token => (table.entries.lookup token).getD token) html

/-- Masks the raw fences among the parts of a body. -/
def maskFences (table : RawTable) : List (Text.Piece Region) → Text × RawTable
  | [] => ([], table)
  | .plain p :: ps =>
    let (rest, table) := maskFences table ps
    (p ++ rest, table)
  | .found (.raw _ html) :: ps =>
    let (token, table) := table.add html false
    let (rest, table) := maskFences table ps
    ("\n\n".toList ++ token ++ "\n\n".toList ++ rest, table)
  | .found (.code s) :: ps =>
    let (rest, table) := maskFences table ps
    (s ++ rest, table)

def maskLinks (table : RawTable) : List (Text.Piece Hypermedia.Link) → Text × RawTable
  | [] => ([], table)
  | .plain p :: ps =>
    let (rest, table) := maskLinks table ps
    (p ++ rest, table)
  | .found link :: ps =>
    let (token, table) := table.add link.html true
    let (rest, table) := maskLinks table ps
    (token ++ rest, table)

/-- Masks the links in the plain stretches of a body and copies its regions. -/
def maskProse (table : RawTable) : List (Text.Piece Region) → Text × RawTable
  | [] => ([], table)
  | .plain p :: ps =>
    let (masked, table) := maskLinks table (Text.pieces Hypermedia.Link.find p)
    let (rest, table) := maskProse table ps
    (masked ++ rest, table)
  | .found r :: ps =>
    let (rest, table) := maskProse table ps
    (r.source ++ rest, table)

/-- The nonce of a body: the first twelve digits of its digest. -/
def nonceOf (body : Text) : Text := (Digest.sha1 body).take 12

/-- The body with its raw fences and hypermedia links masked, and the table that restores them.
Links are looked for in the text that already holds the tokens of the fences. -/
def protect (body : Text) : Text × RawTable :=
  let (fenced, table) := maskFences ⟨nonceOf body, []⟩ (Text.pieces Region.find body)
  maskProse table (Text.pieces Region.find fenced)

end RawTable
end Sitewright
