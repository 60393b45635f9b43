import Sitewright.Text.Basic

/-!
Where a document is published: the output file and the public address of a path relative to the
content directory, and which navigation links cover it.
-/
namespace Sitewright.Path

/-- The path up to and including its last slash, and the file name after it. -/
def splitName (path : Text) : Text × Text :=
  let name := (path.reverse.takeWhile (· ≠ '/')).reverse
  (path.take (path.length - name.length), name)

/-- The file name before its last dot. A dot that only dots precede starts no extension. -/
def nameStem (name : Text) : Text :=
  match (name.reverse.dropWhile (· ≠ '.')) with
  | [] => name
  | _ :: before => if before.all (· = '.') then name else before.reverse

/-- The file name from its last dot on, empty when it has no extension. -/
def nameExtension (name : Text) : Text := name.drop (nameStem name).length

/-- A path with forward slashes and without the extension of its file name. -/
def stem (path : Text) : Text :=
  let (directory, name) := splitName (path.map fun c => if c = '\\' then '/' else c)
  directory ++ nameStem name

/-- The path of a directory's own page. -/
def indexName : Text := "index".toList

/-- The output file of a document: an index page keeps its directory, every other document
becomes the index page of a directory of its own. -/
def output (path : Text) : Text :=
  let base := stem path
  if base = indexName || ('/' :: indexName).isSuffixOf base then base ++ ".html".toList
  else base ++ "/index.html".toList

/-- The address of a document below the site's base path. -/
def url (path basePath : Text) : Text :=
  let base := stem path
  if base = indexName then basePath ++ ['/']
  else
    let page := if ('/' :: indexName).isSuffixOf base
      then base.take (base.length - (indexName.length + 1)) else base
    basePath ++ (if ['/'].isPrefixOf page then page else '/' :: page)

/-- The link without the base path it may carry; what is left of a bare base path is the root. -/
def withoutBase (href basePath : Text) : Text :=
  if basePath.isEmpty then href
  else match basePath.isPrefixOf? href with
    | some [] => ['/']
    | some rest => rest
    | none => href

/-- Does the navigation link cover the page at `path`? The root link covers the root page only,
any other link the page itself and every page whose address continues it by a whole segment. -/
def isActive (href path basePath : Text) : Bool :=
  let target := withoutBase href basePath
  let page := url path []
  if target = ['/'] then page = ['/']
  else
    let target := Text.dropEndWhile (· = '/') target
    page = target || (target ++ ['/']).isPrefixOf page

end Sitewright.Path
