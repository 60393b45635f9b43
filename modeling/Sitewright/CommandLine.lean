import Sitewright.Site.Build

/-!
The command line: one command, `build`, with options that take a value and one flag. Options that
are not given may come from the environment.
-/
namespace Sitewright.CommandLine

/-- The options that take a value. -/
inductive Setting where
  | config
  | contentDir
  | outputDir
  | templatesDir
  | staticDir
  | basePath
  | siteUrl
  deriving DecidableEq

namespace Setting

def names : List (String × Setting) := [("--config", config), ("--content-dir", contentDir),
  ("--output-dir", outputDir), ("--templates-dir", templatesDir), ("--static-dir", staticDir),
  ("--base-path", basePath), ("--site-url", siteUrl)]

def ofName? (t : Text) : Option Setting := (names.find? fun (n, _) => n.toList = t).map (·.2)

/-- The environment variable that stands in for an option. -/
def environmentName? : Setting → Option String
  | config => some "FLINT_CONFIG"
  | basePath => some "BASE_PATH"
  | siteUrl => some "SITE_URL"
  | _ => none

end Setting

/-- What the command line asks for. -/
structure Request where
  values : List (Setting × Text) := []
  /-- Is the flag for more messages given, and how? -/
  verbose : Option Bool := none

def buildCommand : Text := "build".toList

def verboseFlag : Text := "--verbose".toList

/-- The flag against more messages. -/
def quietFlag : Text := "--no-verbose".toList

/-- Does the argument look like an option? A negative number does not. -/
def isOption (arg : Text) : Bool :=
  match arg with
  | '-' :: rest => !rest.isEmpty && (Binary64.read? arg).isNone
  | _ => false

/-- The truth value that a word stands for. -/
def flagValue? (t : Text) : Option Bool :=
  let word := Text.lower t
  let isOneOf (words : List String) : Bool := words.any fun w => w.toList = word
  if isOneOf ["yes", "y", "1", "true", "t"] then some true
  else if isOneOf ["no", "n", "0", "false", "f"] then some false
  else none

/-- An option and the value that is joined to it by an equals sign. -/
def splitOption (arg : Text) : Text × Option Text :=
  match arg.dropWhile (· ≠ '=') with
  | '=' :: value => (arg.takeWhile (· ≠ '='), some value)
  | _ => (arg, none)

/-- Sets the value of an option, which may be given once. -/
def Request.set? (setting : Setting) (value : Text) (r : Request) : Option Request :=
  if (r.values.lookup setting).isSome then none
  else some { r with values := (setting, value) :: r.values }

/-- Sets the flag, which may be given once. -/
def Request.setVerbose? (b : Bool) (r : Request) : Option Request :=
  if r.verbose.isSome then none else some { r with verbose := some b }

/-- Reads the arguments behind the command; none if they do not fit it. -/
def readOptions? (r : Request) : List Text → Option Request
  | [] => some r
  | arg :: args =>
    let (name, joined) := splitOption arg
    if name = verboseFlag then
      match joined with
      | none => (r.setVerbose? true).bind fun r => readOptions? r args
      | some v => (flagValue? v).bind fun b => (r.setVerbose? b).bind fun r => readOptions? r args
    else if arg = quietFlag then (r.setVerbose? false).bind fun r => readOptions? r args
    else (Setting.ofName? name).bind fun setting =>
      match joined, args with
      | some value, args => (r.set? setting value).bind fun r => readOptions? r args
      | none, value :: args =>
        if isOption value then none else (r.set? setting value).bind fun r => readOptions? r args
      | none, [] => none

/-- Reads the arguments of the program; none if they ask for nothing it can do. -/
def read? : List Text → Option Request
  | command :: args => if command = buildCommand then readOptions? {} args else none
  | [] => none

/-- The value of an option, or of the environment variable that stands in for it. -/
def Request.value? (environment : String → Option Text) (setting : Setting) (r : Request) : Option Text :=
  r.values.lookup setting <|> setting.environmentName?.bind environment

/-- The settings that override the configuration file. -/
def Request.overrides (environment : String → Option Text) (r : Request) : Config.Overrides :=
  let value (s : Setting) := r.value? environment s
  { contentDir := value .contentDir
    outputDir := value .outputDir
    templatesDir := value .templatesDir
    staticDir := value .staticDir
    basePath := (value .basePath).map .text
    siteUrl := (value .siteUrl).map .text }

inductive Failure where
  /-- Arguments that do not fit. -/
  | usage
  | config (e : ConfigError)
  /-- A template that is no text. -/
  | template
  | build (e : BuildError)

/-- What a reader is told. -/
def Failure.message : Failure → Text
  | usage => "Usage: build [--config FILE] [--content-dir DIR] [--output-dir DIR] [--templates-dir DIR] [--static-dir DIR] [--base-path PATH] [--site-url URL] [--verbose]".toList
  | config e => e.message
  | template => "A template is no text in UTF-8.".toList
  | build e => e.message

/-- What is printed after a build: a line for each file written and each document left out. -/
def lines (working : Text) (report : BuildReport) : List Text :=
  report.written.map (fun path => "wrote ".toList ++ Place.shown working path) ++
    report.skipped.map fun (path, reason) => "skipped ".toList ++ path ++ ": ".toList ++ reason

def Request.configOf (working : Text) (environment : String → Option Text) (tree : FileTree)
    (r : Request) : Except ConfigError Config := do
  let config ← Config.find working tree (r.value? environment .config)
  Config.override (r.overrides environment) config

/-- Runs the program in a working directory, which is the top of the tree. Gives the tree as it is
left, and the lines that are printed. -/
def run (working : Text) (environment : String → Option Text) (args : List Text) (tree : FileTree) :
    FileTree × Except Failure (List Text) :=
  match read? args with
  | none => (tree, .error .usage)
  | some request =>
    match request.configOf working environment tree with
    | .error e => (tree, .error (.config e))
    | .ok config =>
      match Site.ofConfig? working tree Component.builtin config with
      | none => (tree, .error .template)
      | some site =>
        let (tree, result) := site.build working tree
        (tree, (result.mapError .build).map (lines working))

end Sitewright.CommandLine
