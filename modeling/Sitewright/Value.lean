import Sitewright.Binary64.Shortest
import Sitewright.Calendar.Moment
import Sitewright.Text.Number
import Sitewright.Text.Quoted

/-!
Values of a document's header or of a configuration: what a field can hold, how it is shown as
text, and when two values are the same key.
-/
namespace Sitewright

/-- A value. Maps keep their order. -/
inductive Value where
  | null
  | bool (b : Bool)
  | int (i : Int)
  | float (x : Binary64)
  | text (t : Text)
  | bytes (bs : List UInt8)
  | date (d : Date)
  | moment (m : Moment)
  | list (items : List Value)
  | tuple (items : List Value)
  | set (items : List Value)
  | map (entries : List (Value × Value))
  deriving Inhabited

namespace Value

/-- A whole number of microseconds as days, seconds and microseconds, the latter two not
negative. -/
def spanText (micros : Int) : Text :=
  let days := micros.fdiv dayMicros
  let rest := (micros.fmod dayMicros).toNat
  let parts := [("days".toList, days), ("seconds".toList, ((rest / secondMicros : Nat) : Int)),
    ("microseconds".toList, ((rest % secondMicros : Nat) : Int))].filter fun p => p.2 ≠ 0
  let inner := if parts.isEmpty then ['0']
    else Text.join ", ".toList (parts.map fun (name, n) => name ++ '=' :: Text.ofInt n)
  "datetime.timedelta(".toList ++ inner ++ [')']

/-- An offset from UTC as it is shown inside a list. -/
def zoneText (offset : Int) : Text :=
  if offset = 0 then "datetime.timezone.utc".toList
  else "datetime.timezone(".toList ++ spanText offset ++ [')']

/-- A date as it is shown inside a list. -/
def dateText (d : Date) : Text :=
  "datetime.date(".toList ++
    Text.join ", ".toList ([d.year, d.month, d.day].map Text.ofNat) ++ [')']

/-- A moment as it is shown inside a list: the seconds and their fraction only if there are any. -/
def momentText (m : Moment) : Text :=
  let seconds := m.time / secondMicros
  let micros := m.time % secondMicros
  let parts := [m.date.year, m.date.month, m.date.day, seconds / 3600, seconds / 60 % 60] ++
    (if seconds % 60 = 0 && micros = 0 then [] else [seconds % 60]) ++
    (if micros = 0 then [] else [micros])
  let zone := m.offset.toList.map fun o => "tzinfo=".toList ++ zoneText o
  "datetime.datetime(".toList ++ Text.join ", ".toList (parts.map Text.ofNat ++ zone) ++ [')']

/-- Items between two brackets. -/
def bracketed (opening closing : Char) (items : List Text) : Text :=
  opening :: Text.join ", ".toList items ++ [closing]

mutual
/-- A value as it is shown inside a list. -/
def inner : Value → Text
  | null => "None".toList
  | bool b => (if b then "True" else "False").toList
  | int i => Text.ofInt i
  | float x => x.text
  | text t => Text.quoted t
  | bytes bs => Text.quotedBytes bs
  | date d => dateText d
  | moment m => momentText m
  | list items => bracketed '[' ']' (inners items)
  | tuple items =>
    match items with
    | [item] => '(' :: inner item ++ ",)".toList
    | items => bracketed '(' ')' (inners items)
  | set items =>
    if items.isEmpty then "set()".toList else bracketed '\x7b' '\x7d' (inners items)
  | map entries => bracketed '\x7b' '\x7d' (innerEntries entries)

/-- Values as they are shown inside a list. -/
def inners : List Value → List Text
  | [] => []
  | v :: vs => inner v :: inners vs

def innerEntries : List (Value × Value) → List Text
  | [] => []
  | e :: es => innerEntry e :: innerEntries es

def innerEntry : Value × Value → Text
  | (k, v) => inner k ++ ": ".toList ++ inner v
end

/-- A value as text. -/
def shown : Value → Text
  | text t => t
  | date d => d.iso
  | moment m => m.text ' '
  | v => v.inner

mutual
/-- Can the value be written as text: has no integer in it more digits than one is written with? -/
def isWritable : Value → Bool
  | int i => i.natAbs < Nat.pow 10 Text.maxIntDigits
  | list items => areWritable items
  | tuple items => areWritable items
  | set items => areWritable items
  | map entries => areEntriesWritable entries
  | _ => true

def areWritable : List Value → Bool
  | [] => true
  | v :: vs => isWritable v && areWritable vs

def areEntriesWritable : List (Value × Value) → Bool
  | [] => true
  | e :: es => isEntryWritable e && areEntriesWritable es

def isEntryWritable : Value × Value → Bool
  | (k, v) => isWritable k && isWritable v
end

/-- A value as text without white space at either end, none if it cannot be written. -/
def stripped? (v : Value) : Option Text := if v.isWritable then some (Text.strip v.shown) else none

/-- Does the value count as true: is it neither absent, nor zero, nor empty? -/
def isTrue : Value → Bool
  | null => false
  | bool b => b
  | int i => i ≠ 0
  | float x => !x.isZero
  | text t => !t.isEmpty
  | bytes bs => !bs.isEmpty
  | date _ => true
  | moment _ => true
  | list items => !items.isEmpty
  | tuple items => !items.isEmpty
  | set items => !items.isEmpty
  | map entries => !entries.isEmpty

/-- The integer that a value counts as among keys. -/
def asInt? : Value → Option Int
  | bool b => some (if b then 1 else 0)
  | int i => some i
  | float x => x.toInt?
  | _ => none

/-- Do two moments denote the same time? One with an offset never is the same as one without. -/
def sameMoment (a b : Moment) : Bool :=
  match a.instant?, b.instant? with
  | some i, some j => i = j
  | none, none => a.date = b.date && a.time = b.time
  | _, _ => false

mutual
/-- Are two values the same key? Numbers and truth values are compared as numbers. -/
def same : Value → Value → Bool
  | null, null => true
  | text s, text t => s = t
  | bytes a, bytes b => a = b
  | date a, date b => a = b
  | moment a, moment b => sameMoment a b
  | tuple a, tuple b => sameAll a b
  | float x, float y => x.equal y || (x = .nan && y = .nan)
  | a, b =>
    match a.asInt?, b.asInt? with
    | some i, some j => i = j
    | _, _ => false

/-- Are two lists the same key, item by item? -/
def sameAll : List Value → List Value → Bool
  | [], [] => true
  | a :: as, b :: bs => same a b && sameAll as bs
  | _, _ => false
end

mutual
/-- Can the value be a key: does it hold no list, set or map? -/
def isKey : Value → Bool
  | list _ => false
  | set _ => false
  | map _ => false
  | tuple items => areKeys items
  | _ => true

def areKeys : List Value → Bool
  | [] => true
  | v :: vs => isKey v && areKeys vs
end

/-- The value of a key. -/
def lookup? (key : Value) : List (Value × Value) → Option Value
  | [] => none
  | (k, v) :: es => if same k key then some v else lookup? key es

/-- The entries with the value of a key set; a new key goes to the end. -/
def insert (key value : Value) : List (Value × Value) → List (Value × Value)
  | [] => [(key, value)]
  | (k, v) :: es => if same k key then (k, value) :: es else (k, v) :: insert key value es

end Value
end Sitewright
