import Sitewright.Text.Basic

/-!
Names of files and directories. A place is written with slashes; segments that are empty or a
single dot do not count, and one that starts with a slash is absolute.
-/
namespace Sitewright.Place

/-- Does the place start at the root of the file system? -/
def isAbsolute (p : Text) : Bool := p.head? = some '/'

def segments (p : Text) : List Text := (Text.splitOn '/' p).filter fun s => !s.isEmpty && s ≠ ['.']

/-- Segments as a place relative to some directory, which is a dot itself. -/
def ofSegments (ss : List Text) : Text := if ss.isEmpty then ['.'] else Text.join ['/'] ss

/-- The place without the segments that do not count. Exactly two slashes in front are kept. -/
def clean (p : Text) : Text :=
  let ss := segments p
  match p with
  | '/' :: '/' :: c :: _ => (if c = '/' then ['/'] else "//".toList) ++ Text.join ['/'] ss
  | ['/', '/'] => p
  | '/' :: _ => '/' :: Text.join ['/'] ss
  | _ => ofSegments ss

/-- The directory with the slash that parts it from what is in it. -/
def withSlash (directory : Text) : Text :=
  if directory.isEmpty || directory.getLast? = some '/' then directory else directory ++ ['/']

/-- A place as seen from a directory; an absolute one stays. -/
def join (directory p : Text) : Text :=
  if isAbsolute p then clean p else clean (withSlash directory ++ p)

/-- The segments with every step up taken, as far as there is something to leave. -/
def stepUp (left : List Text) : List Text → List Text
  | [] => left.reverse
  | s :: ss =>
    if s = "..".toList then
      match left with
      | [] => stepUp [s] ss
      | l :: ls => if l = "..".toList then stepUp (s :: left) ss else stepUp ls ss
    else stepUp (s :: left) ss

/-- The segments from the working directory to a place. An absolute place that does not lie below
that directory has a slash as its first segment. -/
def locate (working p : Text) : List Text :=
  match working.isPrefixOf? p with
  | some [] => []
  | some ('/' :: rest) => stepUp [] (segments rest)
  | _ => if isAbsolute p then ['/'] :: stepUp [] (segments p) else stepUp [] (segments p)

/-- The place that segments from the working directory lead to. -/
def ofLocated (name : List Text) : Text :=
  match name with
  | ['/'] :: rest => '/' :: Text.join ['/'] rest
  | name => ofSegments name

/-- The directory that a file lies in, seen from the working directory. -/
def parent (working p : Text) : Text := join working (ofLocated (locate working p).dropLast)

/-- A place shown as short as possible: without the working directory it lies in. -/
def shown (working p : Text) : Text := Text.dropLead (working ++ ['/']) p

end Sitewright.Place
