import Sitewright.Site.Render

/-!
Building a site: from the documents in the content directory to the files in the output directory.
Nothing is written before all documents are loaded and the index is made; what is written before a
later failure stays.
-/
namespace Sitewright

inductive BuildError where
  /-- A source that is no text. -/
  | notText
  | load (e : LoadError)
  | index (e : PageError)
  | render (e : RenderError)
  | write (e : WriteError)
  /-- Some files of the static directory could not be copied. -/
  | copy

/-- What a reader is told. -/
def BuildError.message : BuildError → Text
  | notText => "A document is no text in UTF-8.".toList
  | load e => e.message
  | index e => e.message
  | render e => e.message
  | write .directoryIsFile => "The directory of an output file is a file.".toList
  | write .ancestorIsFile => "A directory above an output file is a file.".toList
  | write .isDirectory => "An output file is a directory.".toList
  | copy => "Some static files could not be copied.".toList

/-- A file that is to be written, below the output directory. -/
structure Artifact where
  path : Text
  content : Text

/-- What a build has done: the files written, in that order, and the documents left out, with the
reasons. -/
structure BuildReport where
  written : List Text
  skipped : List (Text × Text)

namespace Site

/-- Where the stylesheet for highlighted code is published. -/
def stylesheetPath : Text := "assets/pygments.css".toList

def catalogPath : Text := "fragments/page-index.json".toList

def documentSuffix : Text := ".md".toList

def isDocumentName (name : FileName) : Bool := name.getLast?.any fun file => documentSuffix.isSuffixOf file

/-- The documents in a content directory, sorted by name. -/
def documentFiles (directory : FileName) (tree : FileTree) : List (FileName × FileContent) :=
  (tree.sortedUnder directory).filter fun (name, _) => isDocumentName name

def pathOf (name : FileName) : Text := Text.join ['/'] name

/-- The paths of the documents of a site. -/
def scan (working : Text) (tree : FileTree) (site : Site) : List Text :=
  (documentFiles (Place.locate working site.config.contentDir) tree).map fun (name, _) => pathOf name

/-- Loads files as documents. Those with a malformed header are left out and listed with the
reason. -/
def loadFiles : List (FileName × FileContent) → Except BuildError (List Document × List (Text × Text))
  | [] => .ok ([], [])
  | (name, content) :: rest => do
    match content with
    | .bytes _ => throw .notText
    | .text t =>
      let path := pathOf name
      match Document.load (Text.unifyReturns t) path with
      | .ok d =>
        let (documents, skipped) ← loadFiles rest
        return (d :: documents, skipped)
      | .error (.header e) =>
        if e.isMalformed then do
          let (documents, skipped) ← loadFiles rest
          return (documents, (path, e.message) :: skipped)
        else throw (.load (.header e))
      | .error e => throw (.load e)

def loadAll (working : Text) (tree : FileTree) (site : Site) :
    Except BuildError (List Document × List (Text × Text)) :=
  loadFiles (documentFiles (Place.locate working site.config.contentDir) tree)

def indexOf (site : Site) (documents : List Document) : Except PageError Index :=
  Index.ofDocuments site.config.basePath site.config.boosted documents

def documentArtifact (site : Site) (index : Index) (d : Document) : Except RenderError Artifact :=
  (site.render index d).map fun html => ⟨Path.output d.path, html⟩

def stylesheet (site : Site) : Except RenderError Artifact :=
  if CodeStyle.isKnown site.config.codeStyle then .ok ⟨stylesheetPath, CodeStyle.stylesheet⟩
  else .error .unknownStyle

def listingArtifact (site : Site) (index : Index) (l : Listing) : Except RenderError Artifact :=
  (site.renderListing index l.heading l.description l.entries).map fun html => ⟨l.path, html⟩

/-- What is written for search engines, if the address of the site is known. -/
def searchArtifacts (site : Site) (index : Index) : List Artifact :=
  match site.config.siteUrl with
  | none => []
  | some url =>
    if url.isEmpty then []
    else [⟨"robots.txt".toList, Sitemap.robots url site.config.basePath⟩,
      ⟨"sitemap.xml".toList, Sitemap.xml url site.config.basePath index.catalog⟩]

/-- Everything that is generated, in the order in which it is written. -/
def artifacts (site : Site) (index : Index) (documents : List Document) : List (Except RenderError Artifact) :=
  documents.map (site.documentArtifact index) ++
    [site.stylesheet, .ok ⟨catalogPath, Catalog.json index.catalog⟩] ++
    (listings index).map (site.listingArtifact index) ++
    (site.searchArtifacts index).map .ok

def outputPlace (site : Site) (path : Text) : Text := Place.join site.config.outputDir path

/-- Writes what is generated, up to the first failure. -/
def writeAll (working : Text) (site : Site) :
    List (Except RenderError Artifact) → FileTree → FileTree × Except BuildError (List Text)
  | [], tree => (tree, .ok [])
  | .error e :: _, tree => (tree, .error (.render e))
  | .ok a :: rest, tree =>
    let place := site.outputPlace a.path
    match tree.write (Place.locate working place) (.text a.content) with
    | .error e => (tree, .error (.write e))
    | .ok tree =>
      let (tree, written) := writeAll working site rest tree
      (tree, written.map (place :: ·))

/-- Copies files below a directory. Gives the tree, and whether all of them could be copied. -/
def copyFiles (directory : FileName) (tree : FileTree) (files : List (FileName × FileContent)) :
    FileTree × Bool :=
  files.foldl (fun (tree, all) (name, content) =>
    match tree.write (directory ++ name) content with
    | .ok tree => (tree, all)
    | .error _ => (tree, false)) (tree, true)

/-- Copies the files of one directory to another one and lists them, sorted. -/
def copyDirectory (working source target : Text) (tree : FileTree) :
    FileTree × Except BuildError (List Text) :=
  let files := tree.sortedUnder (Place.locate working source)
  let (tree, all) := copyFiles (Place.locate working target) tree files
  (tree, if all then .ok (files.map fun (name, _) => Place.join target (pathOf name)) else .error .copy)

/-- Copies the static files of a site. -/
def copyStatic (working : Text) (site : Site) (tree : FileTree) : FileTree × Except BuildError (List Text) :=
  match site.config.staticDir with
  | none => (tree, .ok [])
  | some source => copyDirectory working source site.config.outputDir tree

def build (working : Text) (site : Site) (tree : FileTree) : FileTree × Except BuildError BuildReport :=
  match site.loadAll working tree with
  | .error e => (tree, .error e)
  | .ok (documents, skipped) =>
    match site.indexOf documents with
    | .error e => (tree, .error (.index e))
    | .ok index =>
      match writeAll working site (site.artifacts index documents) tree with
      | (tree, .error e) => (tree, .error e)
      | (tree, .ok written) =>
        match site.copyStatic working tree with
        | (tree, .error e) => (tree, .error e)
        | (tree, .ok copied) => (tree, .ok ⟨written ++ copied, skipped⟩)

/-- The site of a configuration. Its layouts are read from its directory of templates if it has one;
none if a template is no text. -/
def ofConfig? (working : Text) (tree : FileTree) (components : Components) (config : Config) : Option Site :=
  let layouts := match config.templatesDir with
    | some directory => Layouts.ofDirectory? (Place.locate working directory) tree
    | none => some Layouts.builtin
  layouts.map fun layouts => { config, components, layouts }

end Site
end Sitewright
