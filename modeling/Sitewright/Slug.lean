import Sitewright.Text.Blank
import Sitewright.Text.Casing

/-!
Slugs: the lower case ASCII letters and digits of a title, with one hyphen for every run of other
characters between them. A label's address and a page's generated identifier use the same slug.
-/
namespace Sitewright

/-- A character that a slug keeps: `a` to `z` or `0` to `9`. -/
def isSlugChar (c : Char) : Bool := ('a' ≤ c && c ≤ 'z') || ('0' ≤ c && c ≤ '9')

/-- Writes one hyphen for each run of characters that are not kept; `inGap` says that the hyphen
of the current run is already written. -/
def hyphenateGaps (inGap : Bool) : Text → Text
  | [] => []
  | c :: cs =>
    if isSlugChar c then c :: hyphenateGaps false cs
    else if inGap then hyphenateGaps true cs
    else '-' :: hyphenateGaps true cs

/-- The slug of a text; it is empty when the text has no ASCII letter or digit. -/
def slug (t : Text) : Text :=
  Text.trim (· = '-') (hyphenateGaps false (Text.strip (Text.lower t)))

/-- The `k`-th candidate for an identifier: the slug itself, then `slug-2`, `slug-3` and so on. -/
def slugCandidate (base : Text) : Nat → Text
  | 0 => base
  | k + 1 => base ++ '-' :: Text.ofNat (k + 2)

/-- The first candidate that is not taken. One candidate more than there are taken identifiers is
always enough. -/
def freshSlug (title : Text) (taken : List Text) : Text :=
  let base := slug title
  match (List.range (taken.length + 1)).find? fun k => !taken.contains (slugCandidate base k) with
  | some k => slugCandidate base k
  | none => base

end Sitewright
