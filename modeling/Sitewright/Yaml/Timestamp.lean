import Sitewright.Calendar.Moment
import Sitewright.Text.Digit

/-!
Timestamps as YAML writes them: a date, and behind it, after a `T` or blanks, a time of day with an
optional fraction and offset.
-/
namespace Sitewright.Yaml

structure StampTime where
  hour : Nat
  minute : Nat
  second : Nat
  fraction : List Nat
  /-- Microseconds ahead of UTC. -/
  offset : Option Int

/-- A timestamp as written, its numbers not yet checked. -/
structure Stamp where
  year : Nat
  month : Nat
  day : Nat
  time : Option StampTime
  /-- Have month and day two digits each? -/
  full : Bool

namespace Stamp

/-- The digits at the start of a text, at most `most` and at least `least`, and what follows. -/
def digits? (least most : Nat) (t : Text) : Option (List Nat × Text) :=
  let ds := (t.take most).takeWhile Char.isDigit
  if ds.length < least then none else some (ds.filterMap Text.digitValue?, t.drop ds.length)

/-- The rest after a given character. -/
def after? (c : Char) (t : Text) : Option Text := [c].isPrefixOf? t

/-- The number that digits write. -/
def number (ds : List Nat) : Nat := Text.natOfDigits 10 ds

/-- A space or a tab. -/
def isGap (c : Char) : Bool := c = ' ' || c = '\t'

/-- The hours and minutes of an offset, and what follows. -/
def zone? (t : Text) : Option (Nat × Text) :=
  (digits? 1 2 t).bind fun (hours, rest) =>
    match (after? ':' rest).bind (digits? 2 2) with
    | some (minutes, rest) => some (number hours * 60 + number minutes, rest)
    | none => some (number hours * 60, rest)

def minuteMicros : Int := 60 * secondMicros

def offset? (t : Text) : Option (Option Int × Text) :=
  match t.dropWhile isGap with
  | 'Z' :: rest => some (some 0, rest)
  | '+' :: rest => (zone? rest).map fun (m, rest) => (some (m * minuteMicros), rest)
  | '-' :: rest => (zone? rest).map fun (m, rest) => (some (-(m * minuteMicros)), rest)
  | _ => none

/-- The time of day at the end of a timestamp. -/
def time? (t : Text) : Option StampTime := do
  let (hour, t) ← digits? 1 2 t
  let (minute, t) ← (after? ':' t).bind (digits? 2 2)
  let (second, t) ← (after? ':' t).bind (digits? 2 2)
  let (fraction, t) := match after? '.' t with
    | some t => ((t.takeWhile Char.isDigit).filterMap Text.digitValue?, t.dropWhile Char.isDigit)
    | none => ([], t)
  let (offset, t) := (offset? t).getD (none, t)
  if t.isEmpty then
    some ⟨number hour, number minute, number second, fraction, offset⟩
  else none

/-- Reads a timestamp. -/
def ofText? (t : Text) : Option Stamp := do
  let (year, t) ← digits? 4 4 t
  let (month, t) ← (after? '-' t).bind (digits? 1 2)
  let (day, t) ← (after? '-' t).bind (digits? 1 2)
  let full := month.length = 2 && day.length = 2
  match t with
  | [] => some ⟨number year, number month, number day, none, full⟩
  | c :: rest =>
    let rest := if c = 'T' || c = 't' then rest else t.dropWhile isGap
    if c = 'T' || c = 't' || isGap c then
      (time? rest).map fun time => ⟨number year, number month, number day, some time, full⟩
    else none

/-- Is a scalar of this form a timestamp by itself? A date alone must have all its digits. -/
def isImplicit (s : Stamp) : Bool := s.full || s.time.isSome

/-- A fraction in microseconds, rounded by the seventh digit; it may come to a whole second. -/
def micros (fraction : List Nat) : Nat :=
  let ds := fraction.take 6
  number (ds ++ List.replicate (6 - ds.length) 0) + (if 4 < fraction.getD 6 0 then 1 else 0)

/-- Why a timestamp names no moment. -/
inductive Fault where
  | notInCalendar
  | beyondCalendar

/-- The date a timestamp names, or the moment if it has a time. -/
def value (s : Stamp) : Except Fault (Date ⊕ Moment) :=
  match Date.of? s.year s.month s.day, s.time with
  | none, _ => .error .notInCalendar
  | some d, none => .ok (.inl d)
  | some d, some t =>
    let micro := micros t.fraction
    let whole := micro = secondMicros
    match (Moment.timeOf? t.hour t.minute t.second (if whole then 0 else micro)).bind
        fun time => Moment.of? d time t.offset with
    | none => .error .notInCalendar
    | some m =>
      if whole then
        match m.later? secondMicros with
        | some m => .ok (.inr m)
        | none => .error .beyondCalendar
      else .ok (.inr m)

end Stamp
end Sitewright.Yaml
