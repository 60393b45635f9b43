import Sitewright.Calendar.Date

/-!
Moments: a date and a time of day in microseconds, with or without an offset from UTC.
-/
namespace Sitewright

def secondMicros : Nat := 1000000

def dayMicros : Nat := 24 * 60 * 60 * secondMicros

/-- A date and time. An offset says how far the clock is ahead of UTC; without one the moment is
local to wherever it is read. -/
structure Moment where
  date : Date
  /-- Microseconds since midnight. -/
  time : Nat
  offset : Option Int := none
  time_lt : time < dayMicros
  offset_lt : ∀ o ∈ offset, o.natAbs < dayMicros
  deriving DecidableEq

namespace Moment

/-- The moment with the given parts, if the time lies within a day and the offset is shorter than
a day. -/
def of? (date : Date) (time : Nat) (offset : Option Int) : Option Moment :=
  if h : time < dayMicros ∧ ∀ o ∈ offset, o.natAbs < dayMicros then
    some ⟨date, time, offset, h.1, h.2⟩
  else none

/-- The time of day of hours, minutes, seconds and microseconds, if there is one. -/
def timeOf? (hour minute second micro : Nat) : Option Nat :=
  if hour < 24 && minute < 60 && second < 60 then
    some (((hour * 60 + minute) * 60 + second) * secondMicros + micro)
  else none

/-- The calendar day in UTC of a moment with an offset, the moment's own day without one. It is
none when it lies beyond the calendar. -/
def utcDate? (m : Moment) : Option Date :=
  match m.offset with
  | none => some m.date
  | some offset =>
    let time : Int := m.time - offset
    if time < 0 then m.date.previous?
    else if time < dayMicros then some m.date
    else m.date.next?

/-- The moment a number of microseconds, less than a day, later. -/
def later? (m : Moment) (micros : Nat) : Option Moment :=
  if m.time + micros < dayMicros then of? m.date (m.time + micros) m.offset
  else m.date.next?.bind fun date => of? date (m.time + micros - dayMicros) m.offset

def twoDigits (n : Nat) : Text := Text.padLeft 2 '0' (Text.ofNat n)

/-- Microseconds behind a point, nothing when there are none. -/
def fraction (micros : Nat) : Text :=
  if micros = 0 then [] else '.' :: Text.padLeft 6 '0' (Text.ofNat micros)

/-- A time of day: hours, minutes and seconds between colons, and a fraction if there is one. -/
def clock (time : Nat) : Text :=
  let seconds := time / secondMicros
  twoDigits (seconds / 3600) ++ ':' :: twoDigits (seconds / 60 % 60) ++
    ':' :: twoDigits (seconds % 60) ++ fraction (time % secondMicros)

/-- An offset: its sign, hours and minutes; seconds and a fraction only if there are any. -/
def offsetText (offset : Int) : Text :=
  let micros := offset.natAbs
  let seconds := micros / secondMicros
  let rest := if seconds % 60 = 0 && micros % secondMicros = 0 then []
    else ':' :: twoDigits (seconds % 60) ++ fraction (micros % secondMicros)
  (if offset < 0 then '-' else '+') :: twoDigits (seconds / 3600) ++
    ':' :: twoDigits (seconds / 60 % 60) ++ rest

/-- The moment as date, separator, time and offset. -/
def text (separator : Char) (m : Moment) : Text :=
  m.date.iso ++ separator :: clock m.time ++ (m.offset.map offsetText).getD []

def iso (m : Moment) : Text := m.text 'T'

/-- Microseconds from the start of the calendar to a moment with an offset, in UTC. -/
def instant? (m : Moment) : Option Int :=
  m.offset.map fun offset =>
    let days := Date.daysBeforeYear m.date.year + Date.daysBeforeMonth m.date.year m.date.month +
      m.date.day
    (days * dayMicros + m.time : Int) - offset

end Moment
end Sitewright
