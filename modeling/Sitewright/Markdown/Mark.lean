import Sitewright.Text.Digit

/-!
Marks that stand in the text of a document for something kept elsewhere. A mark lies between two
control characters that no source text holds, since they are dropped before anything is read.
-/
namespace Sitewright.Markdown.Mark

/-- The control character that opens a mark. -/
def opening : Char := '\x02'

/-- The control character that closes a mark. -/
def closing : Char := '\x03'

/-- The mark of the `n`-th kept piece of HTML. -/
def html (n : Nat) : Text := opening :: 'h' :: Text.ofNat n ++ [closing]

/-- The mark of the `n`-th inline node. -/
def node (n : Nat) : Text := opening :: 'n' :: Text.ofNat n ++ [closing]

/-- The mark of a character that a backslash protects. -/
def escaped (c : Char) : Text := opening :: Text.ofNat c.toNat ++ [closing]

/-- The mark of an ampersand that must not be escaped. -/
def ampersand : Text := [opening, 'a', closing]

/-- A number between a beginning and the closing character, with the size of the whole. -/
def numbered? (lead t : Text) : Option (Nat × Nat) :=
  (lead.isPrefixOf? t).bind fun rest =>
    match Text.spanWhile Char.isDigit rest with
    | ([], _) => none
    | (digits, c :: _) =>
      if c = closing then
        some (Text.natOfDigits 10 (digits.filterMap Text.digitValue?), lead.length + digits.length + 1)
      else none
    | _ => none

/-- A mark of kept HTML that starts here: its number and its size. -/
def html? (t : Text) : Option (Nat × Nat) := numbered? [opening, 'h'] t

/-- A mark of an inline node that starts here. -/
def node? (t : Text) : Option (Nat × Nat) := numbered? [opening, 'n'] t

/-- A mark of a protected character that starts here. -/
def escaped? (t : Text) : Option (Nat × Nat) := numbered? [opening] t

/-- The text with marks of protected characters turned back into the characters; `skip`
characters of the last mark are still to be passed over. -/
def unescapeFrom : Nat → Text → Text
  | _, [] => []
  | skip + 1, _ :: cs => unescapeFrom skip cs
  | 0, c :: cs =>
    match escaped? (c :: cs) with
    | some (n, size) => Char.ofNat n :: unescapeFrom (size - 1) cs
    | none => c :: unescapeFrom 0 cs

/-- The text with marks of protected characters turned back into the characters. -/
def unescape (t : Text) : Text := unescapeFrom 0 t

end Sitewright.Markdown.Mark
