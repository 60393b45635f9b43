import Sitewright.Place
import Sitewright.Text.Casing

/-!
A directory tree by its files. A directory exists as long as some file lies below it.
-/
namespace Sitewright

inductive FileContent where
  /-- Text in UTF-8. -/
  | text (t : Text)
  /-- Bytes that are no text. -/
  | bytes (bs : List UInt8)
  deriving DecidableEq

def FileContent.ofBytes (bs : List UInt8) : FileContent :=
  match String.fromUTF8? (ByteArray.mk bs.toArray) with
  | some s => .text s.toList
  | none => .bytes bs

/-- A file by its segments from the top of the tree. -/
abbrev FileName := List Text

/-- The files of a directory tree. -/
structure FileTree where
  files : List (FileName × FileContent)

/-- Why a file cannot be written. -/
inductive WriteError where
  /-- Its directory is a file. -/
  | directoryIsFile
  /-- A directory farther up is a file. -/
  | ancestorIsFile
  /-- It is a directory itself. -/
  | isDirectory
  deriving DecidableEq

namespace FileTree

/-- The tree without files. -/
def empty : FileTree := ⟨[]⟩

/-- The content of a file. -/
def read? (name : FileName) (t : FileTree) : Option FileContent := t.files.lookup name

/-- The files below a directory, named from there. -/
def under (directory : FileName) (t : FileTree) : List (FileName × FileContent) :=
  t.files.filterMap fun (name, content) =>
    match directory.isPrefixOf? name with
    | some [] => none
    | some rest => some (rest, content)
    | none => none

/-- Is there a directory of this name? The top of the tree always is one. -/
def isDirectory (name : FileName) (t : FileTree) : Bool := name.isEmpty || !(t.under name).isEmpty

/-- Sets the content of a file among others. -/
def setFile (name : FileName) (content : FileContent) :
    List (FileName × FileContent) → List (FileName × FileContent)
  | [] => [(name, content)]
  | (n, c) :: fs => if n = name then (n, content) :: fs else (n, c) :: setFile name content fs

/-- Sets a file, whatever else there is. -/
def set (name : FileName) (content : FileContent) (t : FileTree) : FileTree :=
  ⟨setFile name content t.files⟩

/-- The directories that a file lies in, the nearest first. -/
def ancestors (name : FileName) : List FileName :=
  ((List.range name.length).drop 1).reverse.map name.take

/-- Writes a file, with the directories it needs. -/
def write (name : FileName) (content : FileContent) (t : FileTree) : Except WriteError FileTree :=
  let isFile (n : FileName) : Bool := (t.read? n).isSome
  match ancestors name with
  | [] => if t.isDirectory name then .error .isDirectory else .ok (t.set name content)
  | parent :: above =>
    if isFile parent then .error .directoryIsFile
    else if above.any isFile then .error .ancestorIsFile
    else if t.isDirectory name then .error .isDirectory
    else .ok (t.set name content)

/-- Removes a file, or a directory with everything below it. -/
def remove (name : FileName) (t : FileTree) : FileTree :=
  ⟨t.files.filter fun (n, _) => !name.isPrefixOf n⟩

/-- The order of file names: segment by segment. -/
def nameLt : FileName → FileName → Bool
  | [], [] => false
  | [], _ :: _ => true
  | _ :: _, [] => false
  | a :: as, b :: bs => Text.lt a b || (a = b && nameLt as bs)

/-- The files below a directory, sorted by name. -/
def sortedUnder (directory : FileName) (t : FileTree) : List (FileName × FileContent) :=
  (t.under directory).mergeSort fun a b => !nameLt b.1 a.1

end FileTree
end Sitewright
