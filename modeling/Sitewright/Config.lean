import Sitewright.FileTree
import Sitewright.Header

/-!
The configuration of a site: its defaults, reading it from a file, and settings that override it.
-/
namespace Sitewright

/-- The configuration of a site. -/
structure Config where
  contentDir : Text := "content".toList
  outputDir : Text := "dist".toList
  /-- The directory of the layouts; without one the library's own are used. -/
  templatesDir : Option Text := none
  /-- The directory whose files are copied to the output. -/
  staticDir : Option Text := none
  basePath : Text := []
  siteUrl : Option Text := none
  defaultTitle : Text := "Untitled".toList
  codeStyle : Text := "monokai".toList
  styles : List Text := []
  scripts : List Text := []
  /-- Are the links of the navigation followed without loading whole new pages? -/
  boosted : Bool := false

inductive ConfigError where
  | missingFile (path : Text)
  | isDirectory
  | notText
  | malformed (path : Text)
  /-- A fault of the file that is no fault of its grammar. -/
  | yaml (e : Yaml.Error)
  | notMap
  | keyNotText
  | unknownKeys (path : Text) (keys : List Text)
  | badSiteUrl (url : Text)
  | notTexts (field : Text)
  | notFlag (field : Text)
  /-- An integer with more digits than one is written with, in place of a text. -/
  | tooLong

namespace ConfigError

/-- What a reader is told. -/
def message : ConfigError → Text
  | missingFile path => "Configuration file '".toList ++ path ++ "' not found.".toList
  | isDirectory => "The configuration file is a directory.".toList
  | notText => "The configuration file is no text.".toList
  | malformed path => "Configuration file '".toList ++ path ++ "' is not valid YAML".toList
  | yaml _ => "The configuration file holds a value that cannot be read.".toList
  | notMap => "Top-level YAML structure must be a mapping.".toList
  | keyNotText => "The keys of the configuration must be texts.".toList
  | unknownKeys path keys => "Unknown configuration keys in '".toList ++ path ++ "': ".toList ++
      Text.join ", ".toList keys
  | badSiteUrl url => "site_url must start with http:// or https://, got ".toList ++ Text.quoted url
  | notTexts field => '\'' :: field ++ "' must be a list of strings.".toList
  | notFlag field => '\'' :: field ++ "' must be true or false.".toList
  | tooLong => "A number in the configuration is too long.".toList

end ConfigError

namespace Config

/-- A value as text, without white space at either end. -/
def valueText (v : Value) : Except ConfigError Text :=
  match v.stripped? with
  | some t => .ok t
  | none => .error .tooLong

/-- The text of a setting, none when it is absent or blank. -/
def optionalText (v : Option Value) : Except ConfigError (Option Text) :=
  match v with
  | none => .ok none
  | some .null => .ok none
  | some v => (valueText v).map fun t => if t.isEmpty then none else some t

/-- A base path: empty, or a slash and the path without slashes at either end. -/
def basePathOf (v : Option Value) : Except ConfigError Text := do
  match ← optionalText v with
  | none => return []
  | some t =>
    let path := Text.trim (· = '/') t
    return if path.isEmpty then [] else '/' :: path

/-- The beginnings of absolute addresses. -/
def schemes : List Text := ["http://", "https://"].map String.toList

/-- The address of a site, without slashes at its end. -/
def siteUrlOf (v : Option Value) : Except ConfigError (Option Text) := do
  match ← optionalText v with
  | none => return none
  | some t =>
    if schemes.any fun s => s.isPrefixOf t then return some (Text.dropEndWhile (· = '/') t)
    else throw (.badSiteUrl t)

def textsOf (field : String) (v : Option Value) : Except ConfigError (List Text) :=
  match v with
  | none => .ok []
  | some .null => .ok []
  | some (.text t) => .ok (if Text.isBlankText t then [] else [t])
  | some (.list items) =>
    (items.mapM valueText).map fun ts => ts.filter fun t => !t.isEmpty
  | some _ => .error (.notTexts field.toList)

/-- A truth value, false when absent. -/
def flagOf (field : String) (v : Option Value) : Except ConfigError Bool :=
  match v with
  | none => .ok false
  | some .null => .ok false
  | some (.bool b) => .ok b
  | some _ => .error (.notFlag field.toList)

/-- The names of the settings. -/
def keys : List Text := ["content_dir", "output_dir", "templates_dir", "static_dir", "base_path",
  "site_url", "default_title", "pygments_style", "css_files", "js_files", "nav_hx_boost"].map
  String.toList

/-- The keys of a map that are no settings, sorted. -/
def unknownKeys (fields : Fields) : Except ConfigError (List Text) := do
  let unknown := fields.filter fun (key, _) => !keys.any fun k => key.same (.text k)
  let texts ← unknown.mapM fun
    | (.text t, _) => .ok t
    | _ => .error .keyNotText
  return texts.mergeSort fun a b => !Text.lt b a

/-- The configuration that a map describes. Directories are seen from `root`. -/
def ofFields (path root : Text) (fields : Fields) : Except ConfigError Config := do
  let unknown ← unknownKeys fields
  if !unknown.isEmpty then throw (.unknownKeys path unknown)
  let field := fields.get?
  let usual : Config := {}
  let directory (name : String) : Except ConfigError (Option Text) :=
    (optionalText (field name)).map fun place => place.map (Place.join root)
  let contentDir ← directory "content_dir"
  let outputDir ← directory "output_dir"
  let templatesDir ← directory "templates_dir"
  let staticDir ← directory "static_dir"
  let basePath ← basePathOf (field "base_path")
  let siteUrl ← siteUrlOf (field "site_url")
  let defaultTitle ← optionalText (field "default_title")
  let codeStyle ← optionalText (field "pygments_style")
  let styles ← textsOf "css_files" (field "css_files")
  let scripts ← textsOf "js_files" (field "js_files")
  let boosted ← flagOf "nav_hx_boost" (field "nav_hx_boost")
  return {
    templatesDir, staticDir, basePath, siteUrl, styles, scripts, boosted
    contentDir := contentDir.getD (Place.join root usual.contentDir)
    outputDir := outputDir.getD (Place.join root usual.outputDir)
    defaultTitle := defaultTitle.getD usual.defaultTitle
    codeStyle := codeStyle.getD usual.codeStyle }

/-- The configuration that the text of a file describes. A value that counts as false is as good
as an empty map. -/
def ofText (path root text : Text) : Except ConfigError Config :=
  match Yaml.load text with
  | .error .malformed => .error (.malformed path)
  | .error e => .error (.yaml e)
  | .ok v =>
    match v.filter Value.isTrue with
    | none => ofFields path root []
    | some (.map fields) => ofFields path root fields
    | some _ => .error .notMap

/-- The configuration in a file. Its directories are seen from the file's own directory. -/
def ofFile (working : Text) (tree : FileTree) (path : Text) : Except ConfigError Config :=
  let path := Place.clean path
  let name := Place.locate working path
  match tree.read? name with
  | some (.text t) => ofText path (Place.parent working path) (Text.unifyReturns t)
  | some (.bytes _) => .error .notText
  | none => if tree.isDirectory name then .error .isDirectory else .error (.missingFile path)

/-- The configuration file that is used if none is named. -/
def usualFile : Text := "flint.yaml".toList

/-- The configuration of a working directory: the file that is named, else the usual one if it
exists, else the defaults. -/
def find (working : Text) (tree : FileTree) (path : Option Text) : Except ConfigError Config :=
  match path with
  | some path => ofFile working tree path
  | none =>
    let name := Place.locate working usualFile
    if (tree.read? name).isSome || tree.isDirectory name then ofFile working tree usualFile
    else .ok {}

/-- Settings that take precedence over a configuration file. -/
structure Overrides where
  contentDir : Option Text := none
  outputDir : Option Text := none
  templatesDir : Option Text := none
  staticDir : Option Text := none
  basePath : Option Value := none
  siteUrl : Option Value := none
  defaultTitle : Option Text := none
  codeStyle : Option Text := none
  styles : Option (List Text) := none
  scripts : Option (List Text) := none
  boosted : Option Bool := none

/-- The configuration with settings overridden. Directories stay as they are given. -/
def override (o : Overrides) (c : Config) : Except ConfigError Config := do
  let basePath ← match o.basePath with
    | some v => basePathOf (some v)
    | none => .ok c.basePath
  let siteUrl ← match o.siteUrl with
    | some v => siteUrlOf (some v)
    | none => .ok c.siteUrl
  return {
    contentDir := (o.contentDir.map Place.clean).getD c.contentDir
    outputDir := (o.outputDir.map Place.clean).getD c.outputDir
    templatesDir := (o.templatesDir.map Place.clean) <|> c.templatesDir
    staticDir := (o.staticDir.map Place.clean) <|> c.staticDir
    basePath, siteUrl
    defaultTitle := o.defaultTitle.getD c.defaultTitle
    codeStyle := o.codeStyle.getD c.codeStyle
    styles := o.styles.getD c.styles
    scripts := o.scripts.getD c.scripts
    boosted := o.boosted.getD c.boosted }

end Config
end Sitewright
