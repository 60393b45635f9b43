import Sitewright.Yaml.Timestamp

/-!
The kinds of YAML nodes, and which kind a plain scalar has by its text.
-/
namespace Sitewright.Yaml

/-- The kind of a node. -/
inductive Tag where
  | null
  | bool
  | int
  | float
  | timestamp
  | binary
  | str
  | seq
  | map
  | set
  | omap
  | pairs
  | merge
  | value
  | other
  deriving DecidableEq

namespace Tag

/-- What the names of the common kinds start with. -/
def commonLead : Text := "tag:yaml.org,2002:".toList

def names : List (String × Tag) := [
  ("null", null), ("bool", bool), ("int", int), ("float", float), ("timestamp", timestamp),
  ("binary", binary), ("str", str), ("seq", seq), ("map", map), ("set", set), ("omap", omap),
  ("pairs", pairs), ("merge", merge), ("value", value)]

def ofName (t : Text) : Tag :=
  match commonLead.isPrefixOf? t with
  | some name => ((names.find? fun (n, _) => n.toList = name).map (·.2)).getD other
  | none => other

/-- The text without a sign in front. -/
def unsigned (t : Text) : Text :=
  match t with
  | '+' :: cs => cs
  | '-' :: cs => cs
  | cs => cs

def isDigitOrBar (c : Char) : Bool := c.isDigit || c = '_'

/-- Is the text empty or an exponent? The sign may be required. -/
def isExponent (signed : Bool) (t : Text) : Bool :=
  match t with
  | [] => true
  | c :: cs =>
    let ds := unsigned cs
    (c = 'e' || c = 'E') && !ds.isEmpty && ds.all Char.isDigit && (!signed || ds.length < cs.length)

/-- Are the parts of a text between colons after the first one numbers below sixty? -/
def areSixtieths (parts : List Text) : Bool :=
  !parts.isEmpty && parts.all fun p =>
    match p with
    | [d] => d.isDigit
    | [c, d] => '0' ≤ c && c ≤ '5' && d.isDigit
    | _ => false

/-- Does the text write a number in base sixty, with the last part as given? -/
def isSixties (t : Text) (last : Text → Bool) : Bool :=
  match Text.splitOn ':' t with
  | first :: rest =>
    match first, rest.reverse with
    | c :: cs, final :: others =>
      c.isDigit && cs.all isDigitOrBar && last final && (others.isEmpty || areSixtieths others)
    | _, _ => false
  | [] => false

/-- Does the text write a number with a fraction or an exponent, or one of the words for such? -/
def isFloat (older : Bool) (t : Text) : Bool :=
  let u := unsigned t
  let words := [".inf", ".Inf", ".INF"].map String.toList
  if words.contains u || [".nan", ".NaN", ".NAN"].any fun w => w.toList = t then true
  else match u with
    | '.' :: cs =>
      let (ds, rest) := Text.spanWhile isDigitOrBar cs
      !ds.isEmpty && isExponent true rest && !(older && u.length < t.length)
    | c :: cs =>
      if c.isDigit then
        let rest := cs.dropWhile isDigitOrBar
        match rest with
        | '.' :: more => isExponent false (more.dropWhile isDigitOrBar)
        | [] => false
        | _ => isExponent false rest || (older && isSixties u fun p =>
            match Text.spanWhile (· ≠ '.') p with
            | (whole, '.' :: part) => areSixtieths [whole] && part.all isDigitOrBar
            | _ => false)
      else false
    | [] => false

/-- Does the text write an integer? -/
def isInt (older : Bool) (t : Text) : Bool :=
  let u := unsigned t
  let digits (p : Char → Bool) (ds : Text) : Bool := !ds.isEmpty && ds.all fun c => p c || c = '_'
  let octal := digits fun c => '0' ≤ c && c ≤ '7'
  t.head? ≠ some '_' && match u with
    | '0' :: 'b' :: ds => digits (fun c => c = '0' || c = '1') ds
    | '0' :: 'x' :: ds => digits (fun c => (Text.hexValue? c).isSome) ds
    | '0' :: 'o' :: ds => !older && octal ds
    | _ =>
      if older then
        octal u || (match u with
          | c :: cs => '1' ≤ c && c ≤ '9' && (cs.all isDigitOrBar ||
              isSixties u fun p => areSixtieths [p])
          | [] => false)
      else digits Char.isDigit u

/-- The words for truth values. The older version of the language knows more of them. -/
def truthWords (older : Bool) : List String :=
  ["true", "True", "TRUE", "false", "False", "FALSE"] ++
    if older then ["y", "Y", "yes", "Yes", "YES", "n", "N", "no", "No", "NO", "on", "On", "ON",
      "off", "Off", "OFF"] else []

/-- The kind of a plain scalar by its text. -/
def ofPlain (older : Bool) (t : Text) : Tag :=
  let isOneOf (words : List String) : Bool := words.any fun w => w.toList = t
  if isOneOf (truthWords older) then bool
  else if isFloat older t then float
  else if isInt older t then int
  else if isOneOf ["<<"] then merge
  else if isOneOf ["", "~", "null", "Null", "NULL"] then null
  else if (Stamp.ofText? t).any Stamp.isImplicit then timestamp
  else if isOneOf ["="] then value
  else str

end Tag
end Sitewright.Yaml
