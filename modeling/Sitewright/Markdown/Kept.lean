import Sitewright.Markdown.Element
import Sitewright.Markdown.Mark

/-!
Putting kept HTML back in place of its marks. A paragraph that holds nothing but the mark of a
block is replaced as a whole.
-/
namespace Sitewright.Markdown.Kept

/-- A mark at a place, alone in a paragraph or not. -/
structure Placed where
  number : Nat
  wrapped : Bool
  size : Nat

/-- A mark that starts here; one alone in a paragraph starts with the paragraph. -/
def placed? (t : Text) : Option Placed :=
  let wrapped := ("<p>".toList.isPrefixOf? t).bind fun rest =>
    (Mark.html? rest).bind fun (n, size) =>
      if "</p>".toList.isPrefixOf (rest.drop size) then some ⟨n, true, size + 7⟩ else none
  wrapped <|> (Mark.html? t).map fun (n, size) => ⟨n, false, size⟩

/-- Is the HTML a block: does it start with the tag of one, or with a declaration? -/
def isBlock (html : Text) : Bool :=
  match html with
  | '<' :: rest =>
    let name (t : Text) : Text := t.takeWhile fun c => c ≠ ' ' && c ≠ '>'
    let tag := match rest with
      | '/' :: cs => if (name cs).isEmpty then name rest else name cs
      | _ => name rest
    match tag with
    | [] => false
    | c :: _ => c = '!' || c = '?' || c = '@' || c = '%' || isBlockTag tag
  | _ => false

/-- Puts kept HTML back, also the HTML that kept HTML refers to; `skip` characters of the last
mark are still to be passed over. -/
def restoreFrom (kept : List Text) : Nat → Nat → Text → Text
  | 0, _, t => t
  | _, _, [] => []
  | fuel + 1, skip + 1, _ :: cs => restoreFrom kept fuel skip cs
  | fuel + 1, 0, c :: cs =>
    match placed? (c :: cs) with
    | some ⟨n, wrapped, size⟩ =>
      let written := match kept[n]? with
        | none => (c :: cs).take size
        | some html =>
          let html := if wrapped && !isBlock html then "<p>".toList ++ html ++ "</p>".toList else html
          restoreFrom (kept.take n) fuel 0 html
      written ++ restoreFrom kept fuel (size - 1) cs
    | none => c :: restoreFrom kept fuel 0 cs

/-- The text with all kept HTML put back. -/
def restore (kept : List Text) (t : Text) : Text :=
  restoreFrom kept (kept.foldl (fun n html => n + html.length + 8) (t.length + 1)) 0 t

end Sitewright.Markdown.Kept
