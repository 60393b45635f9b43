import Sitewright.CommandLine

/-!
The program. It reads the directories that a build needs into a tree, builds there, and writes what
has changed.
-/
namespace Sitewright.Program

/-- The files at a place, be it a file or a directory. -/
partial def load (place : String) (name : FileName) : IO (List (FileName × FileContent)) := do
  let path := (← IO.currentDir) / place
  if ← path.isDir then
    let mut files := []
    for entry in ← path.readDir do
      files := files ++ (← load (place ++ "/" ++ entry.fileName) (name ++ [entry.fileName.toList]))
    return files
  else if ← path.pathExists then
    return [(name, .ofBytes (← IO.FS.readBinFile path).toList)]
  else return []

/-- Adds the files at a place to a tree. -/
def addPlace (working : Text) (tree : FileTree) (place : Text) : IO FileTree := do
  let files ← load (String.ofList place) (Place.locate working place)
  return files.foldl (fun tree (name, content) => tree.set name content) tree

def bytesOf (content : FileContent) : ByteArray :=
  match content with
  | .text t => (String.ofList t).toUTF8
  | .bytes bs => ⟨bs.toArray⟩

/-- Writes the files of a tree that are not in an earlier one in the same way. -/
def writeChanges (before after : FileTree) : IO Unit := do
  for (name, content) in after.files do
    if before.read? name ≠ some content then
      let path := (← IO.currentDir) / String.ofList (Place.ofLocated name)
      if let some parent := path.parent then IO.FS.createDirAll parent
      IO.FS.writeBinFile path (bytesOf content)

def fail (e : CommandLine.Failure) : IO UInt32 := do
  IO.eprintln (String.ofList e.message)
  return 1

/-- Runs a request that has been read from the arguments. -/
def runRequest (args : List Text) (request : CommandLine.Request) : IO UInt32 := do
  let working := (← IO.currentDir).toString.toList
  let mut given : List (String × Text) := []
  for name in ["FLINT_CONFIG", "BASE_PATH", "SITE_URL"] do
    if let some v ← IO.getEnv name then given := (name, v.toList) :: given
  let environment (name : String) : Option Text := given.lookup name
  let configPlace := (request.value? environment .config).getD Config.usualFile
  let tree ← addPlace working .empty configPlace
  match request.configOf working environment tree with
  | .error e => fail (.config e)
  | .ok config =>
    let places := config.contentDir :: (config.templatesDir.toList ++ config.staticDir.toList)
    let tree ← places.foldlM (addPlace working) tree
    let (after, outcome) := CommandLine.run working environment args tree
    writeChanges tree after
    match outcome with
    | .error e => fail e
    | .ok lines =>
      lines.forM fun line => IO.println (String.ofList line)
      return 0

end Sitewright.Program

/-- The program: builds the site that the arguments describe. -/
def main (args : List String) : IO UInt32 := do
  let args := args.map String.toList
  match Sitewright.CommandLine.read? args with
  | none => Sitewright.Program.fail .usage
  | some request => Sitewright.Program.runRequest args request
