/-!
Text as its list of characters, with the few operations every other module uses: cutting at a
separator, searching, replacing, and trimming by a predicate.
-/
namespace Sitewright

/-- Text is the list of its characters, so that scanners recurse on it directly. -/
abbrev Text := List Char

namespace Text

/-- The text of a natural number in decimal. -/
def ofNat (n : Nat) : Text := (Nat.toDigits 10 n)

/-- The text of an integer in decimal, with a minus sign when negative. -/
def ofInt (i : Int) : Text :=
  match i with
  | .ofNat n => ofNat n
  | .negSucc n => '-' :: ofNat (n + 1)

/-- The pieces between separators; there is always one more piece than separators. -/
def splitOn (sep : Char) : Text → List Text
  | [] => [[]]
  | c :: cs =>
    if c = sep then [] :: splitOn sep cs
    else match splitOn sep cs with
      | [] => [[c]]
      | p :: ps => (c :: p) :: ps

/-- The pieces joined by a separator text. -/
def join (sep : Text) : List Text → Text
  | [] => []
  | [p] => p
  | p :: q :: ps => p ++ sep ++ join sep (q :: ps)

/-- The text before and after the first occurrence of `needle`. -/
def breakAt? (needle : Text) : Text → Option (Text × Text)
  | [] => if needle.isEmpty then some ([], []) else none
  | c :: cs =>
    match needle.isPrefixOf? (c :: cs) with
    | some rest => some ([], rest)
    | none => (breakAt? needle cs).map fun (before, after) => (c :: before, after)

/-- Does `needle` occur anywhere in the text? -/
def has (needle t : Text) : Bool := (breakAt? needle t).isSome

/-- Replaces occurrences from left to right; `skip` counts characters already consumed. -/
def replaceFrom (old new : Text) : Nat → Text → Text
  | _, [] => []
  | skip + 1, _ :: cs => replaceFrom old new skip cs
  | 0, c :: cs =>
    if old.isPrefixOf (c :: cs) then new ++ replaceFrom old new (old.length - 1) cs
    else c :: replaceFrom old new 0 cs

/-- Every non-overlapping occurrence of `old`, from the left, replaced by `new`. -/
def replace (old new t : Text) : Text :=
  if old.isEmpty then new ++ t.flatMap (fun c => c :: new) else replaceFrom old new 0 t

/-- Drops characters that satisfy `p` from the end. -/
def dropEndWhile (p : Char → Bool) (t : Text) : Text := (t.reverse.dropWhile p).reverse

/-- Drops characters that satisfy `p` from both ends. -/
def trim (p : Char → Bool) (t : Text) : Text := dropEndWhile p (t.dropWhile p)

/-- The given number of copies of a character. -/
def fill (n : Nat) (c : Char) : Text := List.replicate n c

/-- The text after `lead`, or the text itself when it does not begin with `lead`. -/
def dropLead (lead t : Text) : Text := (lead.isPrefixOf? t).getD t

/-- Pads with a character on the left up to a width. -/
def padLeft (width : Nat) (c : Char) (t : Text) : Text := fill (width - t.length) c ++ t

/-- Cuts the text into the longest beginning that satisfies `p` and the rest. -/
def spanWhile (p : Char → Bool) (t : Text) : Text × Text := (t.takeWhile p, t.dropWhile p)

end Text
end Sitewright
