import Sitewright.Text.Lines
import Sitewright.Yaml.Load

/-!
A document is an optional header between two fence lines, and a body. The header is a map of
fields.
-/
namespace Sitewright

/-- The fields of a header, or of any other map with keys. -/
abbrev Fields := List (Value × Value)

/-- The value of a field with a name, none when absent. -/
def Fields.get? (fields : Fields) (name : String) : Option Value :=
  Value.lookup? (.text name.toList) fields

/-- Why a header cannot be read. -/
inductive HeaderError where
  | yaml (e : Yaml.Error)
  | notMap
  deriving DecidableEq

namespace HeaderError

/-- Is only the document to blame, so that a build leaves it out and goes on? -/
def isMalformed : HeaderError → Bool
  | yaml .malformed => true
  | notMap => true
  | yaml _ => false

/-- What a reader is told. -/
def message : HeaderError → Text
  | yaml _ => "Malformed front matter".toList
  | notMap => "Front matter must be a mapping of field names to values.".toList

end HeaderError

/-- A document cut into its header fields and its body. -/
structure SplitDocument where
  fields : Fields
  body : Text

namespace Header

/-- The line that opens and closes a header. -/
def fence : Text := "---".toList

/-- Is the line a fence? White space around it does not count. -/
def isFence (line : Text) : Bool := Text.strip line = fence

/-- The lines of the header and of the body, if the document has a header. -/
def cut? (t : Text) : Option (List Text × List Text) :=
  match Text.lines t with
  | first :: rest =>
    if isFence first then
      match rest.dropWhile fun line => !isFence line with
      | _ :: body => some (rest.takeWhile (fun line => !isFence line), body)
      | [] => none
    else none
  | [] => none

/-- The fields that the text of a header writes. -/
def fields (t : Text) : Except HeaderError Fields :=
  if Text.isBlankText t then .ok []
  else match Yaml.load t with
    | .error e => .error (.yaml e)
    | .ok none => .ok []
    | .ok (some .null) => .ok []
    | .ok (some (.map entries)) => .ok entries
    | .ok (some _) => .error .notMap

/-- Cuts a document. Without a header the whole text is the body, untouched; behind a header the
body starts with its first line that is not empty. -/
def split (t : Text) : Except HeaderError SplitDocument :=
  match cut? t with
  | none => .ok ⟨[], t⟩
  | some (header, body) =>
    (fields (Text.join ['\n'] header)).map fun fs =>
      ⟨fs, (Text.join ['\n'] body).dropWhile (· = '\n')⟩

end Header
end Sitewright
