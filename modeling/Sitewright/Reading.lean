import Sitewright.Text.Blank

/-!
How long a page takes to read, by the number of its words outside tags.
-/
namespace Sitewright.Reading

/-- The text with each complete tag replaced by a space. `inTag` says that the text starts inside
a tag. Only the text up to its last closing bracket is to be given, so that all tags are complete. -/
def spaceTags (inTag : Bool) : Text → Text
  | [] => []
  | c :: cs =>
    if inTag then (if c = '>' then ' ' :: spaceTags false cs else spaceTags true cs)
    else if c = '<' then spaceTags true cs
    else c :: spaceTags false cs

/-- The text without its tags. What follows the last closing bracket has none. -/
def withoutTags (html : Text) : Text :=
  let tail := (html.reverse.takeWhile (· ≠ '>')).reverse
  spaceTags false (html.take (html.length - tail.length)) ++ tail

def wordsPerMinute : Nat := 200

/-- Whole minutes, the nearest number and at least one. -/
def minutes (html : Text) : Nat :=
  max 1 (((Text.words (withoutTags html)).length + wordsPerMinute / 2) / wordsPerMinute)

/-- The reading time in words. -/
def text (html : Text) : Text := Text.ofNat (minutes html) ++ " min read".toList

end Sitewright.Reading
