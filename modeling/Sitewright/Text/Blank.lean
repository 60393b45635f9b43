import Sitewright.Text.Basic

/-!
White space. One set serves for trimming and for splitting into words; it is wider than the
ASCII blanks.
-/
namespace Sitewright.Text

/-- The white space characters: ASCII blanks and separators, and the Unicode spaces. -/
def isBlank (c : Char) : Bool :=
  let n := c.toNat
  (9 ≤ n && n ≤ 13) || (28 ≤ n && n ≤ 32) || n == 0x85 || n == 0xA0 || n == 0x1680 ||
  (0x2000 ≤ n && n ≤ 0x200A) || n == 0x2028 || n == 0x2029 || n == 0x202F || n == 0x205F ||
  n == 0x3000

/-- The text without white space at either end. -/
def strip (t : Text) : Text := trim isBlank t

/-- Is the text empty or white space only? -/
def isBlankText (t : Text) : Bool := t.all isBlank

/-- A space or a tab. -/
def isSpaceTab (c : Char) : Bool := c = ' ' || c = '\t'

/-- The words of a text: its longest runs without white space. -/
def words (t : Text) : List Text := go [] t
where
  go (word : Text) : Text → List Text
    | [] => if word.isEmpty then [] else [word.reverse]
    | c :: cs =>
      if isBlank c then
        if word.isEmpty then go [] cs else word.reverse :: go [] cs
      else go (c :: word) cs

theorem isBlank_of_isWhitespace {c : Char} (h : c.isWhitespace = true) : isBlank c = true := by
  delta Char.isWhitespace at h
  simp only [Bool.or_eq_true, decide_eq_true_eq] at h
  rcases h with ((rfl | rfl) | rfl) | rfl <;> decide

end Sitewright.Text
