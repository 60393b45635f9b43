import Sitewright.Text.Basic
import Sitewright.Text.Digit

/-!
Dates of the Gregorian calendar, years 1 to 9999.
-/
namespace Sitewright

/-- The leap years: every fourth, but of the centuries only every fourth. -/
def isLeapYear (year : Nat) : Bool := year % 4 = 0 && (year % 100 ≠ 0 || year % 400 = 0)

/-- The number of days in a month, 31 for a number that is no month. -/
def daysInMonth (year month : Nat) : Nat :=
  if month = 2 then (if isLeapYear year then 29 else 28)
  else if month = 4 || month = 6 || month = 9 || month = 11 then 30
  else 31

/-- A year, a month and a day that occur in the calendar. -/
def IsDate (year month day : Nat) : Prop :=
  1 ≤ year ∧ year ≤ 9999 ∧ 1 ≤ month ∧ month ≤ 12 ∧ 1 ≤ day ∧ day ≤ daysInMonth year month

instance (year month day : Nat) : Decidable (IsDate year month day) :=
  inferInstanceAs (Decidable (_ ∧ _ ∧ _ ∧ _ ∧ _ ∧ _))

/-- A day of the calendar. -/
structure Date where
  year : Nat
  month : Nat
  day : Nat
  isDate : IsDate year month day
  deriving DecidableEq

namespace Date

/-- The date with the given year, month and day, if there is one. -/
def of? (year month day : Nat) : Option Date :=
  if h : IsDate year month day then some ⟨year, month, day, h⟩ else none

/-- The day after, none at the end of the calendar. -/
def next? (d : Date) : Option Date :=
  if d.day < daysInMonth d.year d.month then of? d.year d.month (d.day + 1)
  else if d.month < 12 then of? d.year (d.month + 1) 1
  else of? (d.year + 1) 1 1

/-- The day before, none at the start of the calendar. -/
def previous? (d : Date) : Option Date :=
  if 1 < d.day then of? d.year d.month (d.day - 1)
  else if 1 < d.month then of? d.year (d.month - 1) (daysInMonth d.year (d.month - 1))
  else of? (d.year - 1) 12 31

/-- The day a number of days later, none beyond the calendar. -/
def later? : Nat → Date → Option Date
  | 0, d => some d
  | n + 1, d => d.next?.bind (later? n)

/-- Year, month and day in four, two and two digits between hyphens. -/
def iso (d : Date) : Text :=
  Text.padLeft 4 '0' (Text.ofNat d.year) ++ '-' :: Text.padLeft 2 '0' (Text.ofNat d.month) ++
    '-' :: Text.padLeft 2 '0' (Text.ofNat d.day)

def monthNames : List String := ["January", "February", "March", "April", "May", "June", "July",
  "August", "September", "October", "November", "December"]

/-- The date in words: month, day and year. -/
def inWords (d : Date) : Text :=
  (monthNames.getD (d.month - 1) "").toList ++ ' ' :: Text.ofNat d.day ++ ", ".toList ++
    Text.ofNat d.year

/-- The order of dates, by year, month and day. -/
def before (a b : Date) : Bool :=
  a.year < b.year || (a.year = b.year && (a.month < b.month ||
    (a.month = b.month && a.day < b.day)))

/-- The days before the first of January of a year, from the start of the calendar. -/
def daysBeforeYear (year : Nat) : Nat :=
  let y := year - 1
  y * 365 + y / 4 - y / 100 + y / 400

/-- The days before a month, from the start of its year. -/
def daysBeforeMonth (year : Nat) : Nat → Nat
  | 0 => 0
  | 1 => 0
  | month + 2 => daysBeforeMonth year (month + 1) + daysInMonth year (month + 1)

/-- The day of the week on which a year starts, Monday being 0. -/
def yearStart (year : Nat) : Nat := daysBeforeYear year % 7

/-- Has the year 53 weeks of the ISO calendar? -/
def hasLongYear (year : Nat) : Bool :=
  yearStart year = 3 || (yearStart year = 2 && isLeapYear year)

/-- The date of a day of a week of the ISO calendar. Week 1 holds the first Thursday of the year. -/
def ofWeek? (year week day : Nat) : Option Date :=
  if 1 ≤ week && (week ≤ 52 || (week = 53 && hasLongYear year)) && 1 ≤ day && day ≤ 7 then
    (of? year 1 1).bind fun first =>
      let start := yearStart year
      let offset := (week - 1) * 7 + (day - 1)
      if 3 < start then later? (offset + 7 - start) first
      else if start ≤ offset then later? (offset - start) first
      else if offset + 1 = start then previous? first
      else if offset + 2 = start then (previous? first).bind previous?
      else ((previous? first).bind previous?).bind previous?
  else none

end Date
end Sitewright
