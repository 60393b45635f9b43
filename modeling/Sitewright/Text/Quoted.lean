import Sitewright.Text.Printable

/-!
Text in quotes, as it is shown in messages and inside lists: single quotes, or double quotes where
the text holds single ones only, and escapes for what cannot be printed.
-/
namespace Sitewright.Text

def hexDigit (n : Nat) : Char := "0123456789abcdef".toList.getD n '0'

/-- A number in hexadecimal with at least the given number of digits. -/
def ofHex (width n : Nat) : Text := padLeft width '0' (Nat.toDigits 16 n)

/-- The quote that goes around a text. -/
def quoteFor (t : Text) : Char := if t.contains '\'' && !t.contains '"' then '"' else '\''

def quotedChar (quote c : Char) : Text :=
  if c = quote || c = '\\' then ['\\', c]
  else if c = '\n' then ['\\', 'n']
  else if c = '\r' then ['\\', 'r']
  else if c = '\t' then ['\\', 't']
  else if isPrintable c then [c]
  else if c.toNat < 0x100 then '\\' :: 'x' :: ofHex 2 c.toNat
  else if c.toNat < 0x10000 then '\\' :: 'u' :: ofHex 4 c.toNat
  else '\\' :: 'U' :: ofHex 8 c.toNat

def quoted (t : Text) : Text := quoteFor t :: t.flatMap (quotedChar (quoteFor t)) ++ [quoteFor t]

def quotedByte (quote : Char) (b : UInt8) : Text :=
  let c := Char.ofNat b.toNat
  if 127 ≤ b.toNat then '\\' :: 'x' :: ofHex 2 b.toNat else quotedChar quote c

/-- Bytes in quotes, those of printable ASCII characters as the characters. -/
def quotedBytes (bs : List UInt8) : Text :=
  let quote := quoteFor (bs.map fun b => Char.ofNat b.toNat)
  'b' :: quote :: bs.flatMap (quotedByte quote) ++ [quote]

end Sitewright.Text
