import Sitewright.Calendar.Moment
import Sitewright.Text.Digit

/-!
Reading dates and times in the ISO forms: calendar dates and week dates, with or without hyphens,
then any one character and a time of day, with or without colons, then an offset.
-/
namespace Sitewright.Iso

/-- A number of exactly `n` decimal digits at the start of a text, and what follows it. -/
def digits? (n : Nat) (t : Text) : Option (Nat × Text) :=
  let ds := t.take n
  if ds.length = n && ds.all Char.isDigit then
    some (Text.natOfDigits 10 (ds.filterMap Text.digitValue?), t.drop n)
  else none

/-- The rest after a given character. -/
def skip? (c : Char) (t : Text) : Option Text :=
  match t with
  | d :: rest => if d = c then some rest else none
  | [] => none

/-- The rest after a hyphen, which is expected only if `hyphens` is set. -/
def skipHyphen? (hyphens : Bool) (t : Text) : Option Text := if hyphens then skip? '-' t else some t

/-- A date of a week calendar after its `W`; the day may be missing at the end of the date, which
has `left` characters left after the week. -/
def weekDate? (hyphens : Bool) (year left : Nat) (t : Text) : Option Date :=
  (digits? 2 t).bind fun (week, rest) =>
    if left = 0 then Date.ofWeek? year week 1
    else (skipHyphen? hyphens rest).bind fun rest =>
      (digits? 1 rest).bind fun (day, _) => Date.ofWeek? year week day

/-- The date at the start of a text; the place where the time's separator was found is given by
`size`. -/
def date? (size : Nat) (t : Text) : Option Date :=
  (digits? 4 t).bind fun (year, rest) =>
    let hyphens := rest.head? == some '-'
    (skipHyphen? hyphens rest).bind fun rest =>
      match rest with
      | 'W' :: rest => weekDate? hyphens year (size - (if hyphens then 8 else 7)) rest
      | _ =>
        (digits? 2 rest).bind fun (month, rest) =>
          (skipHyphen? hyphens rest).bind fun rest =>
            (digits? 2 rest).bind fun (day, _) => Date.of? year month day

def digitAt (t : Text) (n : Nat) : Bool := t[n]?.any Char.isDigit

/-- The size of the date at the start of a text of at least seven characters, which is where the
separator of the time stands. Of the readings of a hyphen or digit behind a week the likelier is
taken. -/
def dateSize? (t : Text) : Option Nat :=
  if t.length = 7 then some 7
  else if t[4]? = some '-' then
    if t[5]? = some 'W' then
      if t[8]? = some '-' then
        if t.length = 9 then none else some (if digitAt t 10 then 8 else 10)
      else some 8
    else some 10
  else if t[4]? = some 'W' then
    let n := 7 + ((t.drop 7).takeWhile Char.isDigit).length
    some (if n < 9 then n else if n % 2 = 0 then 7 else 8)
  else some 8

/-- Hours, minutes, seconds and microseconds. -/
structure Clock where
  hour : Nat := 0
  minute : Nat := 0
  second : Nat := 0
  micro : Nat := 0

/-- The digits of a fraction of a second as microseconds: at most six count, and what stands
behind six digits and further ones is left over. -/
def fraction? (t : Text) : Option (Nat × Text) :=
  let n := min 6 t.length
  if n = 0 then none
  else (digits? n t).map fun (value, rest) =>
    (value * Nat.pow 10 (6 - n), rest.dropWhile Char.isDigit)

/-- The part of a clock that is read next. -/
inductive Part where
  | hour
  | minute
  | second

def Clock.set (c : Clock) (part : Part) (n : Nat) : Clock :=
  match part with
  | .hour => { c with hour := n }
  | .minute => { c with minute := n }
  | .second => { c with second := n }

def Part.next? : Part → Option Part
  | .hour => some .minute
  | .minute => some .second
  | .second => none

/-- Reads the parts of a clock; `colons` says whether they stand between them, which shows after
the hour. Gives the clock and whether the text ends with it: one further ASCII character at most
may be left. -/
def clockFrom? (colons : Bool) (c : Clock) : Nat → Part → Text → Option (Clock × Bool)
  | 0, _, _ => none
  | fuel + 1, part, t =>
    (digits? 2 t).bind fun (n, rest) =>
      let c := c.set part n
      match rest with
      | [] => some (c, true)
      | [d] => if d.val < 128 then some (c, false) else none
      | d :: more =>
        let colons := match part with
          | .hour => d = ':'
          | _ => colons
        let onward (t : Text) : Option (Clock × Bool) :=
          match part.next? with
          | some next => clockFrom? colons c fuel next t
          | none => (fraction? t).map fun (micro, left) => ({ c with micro }, left.isEmpty)
        if colons && d = ':' then onward more
        else if d = '.' || d = ',' then
          (fraction? more).map fun (micro, left) => ({ c with micro }, left.isEmpty)
        else if !colons then onward rest
        else none

def clock? (t : Text) : Option (Clock × Bool) := clockFrom? false {} 4 .hour t

/-- An offset without its sign, in microseconds. One of less than a second counts as none at all. -/
def offset? (t : Text) : Option Nat :=
  (clock? t).bind fun (c, ends) =>
    let seconds := (c.hour * 60 + c.minute) * 60 + c.second
    if ends then some (if seconds = 0 then 0 else seconds * secondMicros + c.micro) else none

/-- A time of day with or without an offset. One ASCII character may stand before the offset. -/
def time? (t : Text) : Option (Nat × Option Int) :=
  let (clock, zone) := Text.spanWhile (fun c => c ≠ '+' && c ≠ '-' && c ≠ 'Z') t
  (clock? clock).bind fun (c, ends) =>
    (Moment.timeOf? c.hour c.minute c.second c.micro).bind fun time =>
      match zone with
      | [] => if ends then some (time, none) else none
      | ['Z'] => some (time, some 0)
      | '+' :: rest => (offset? rest).map fun o => (time, some (o : Int))
      | '-' :: rest => (offset? rest).map fun o => (time, some (-(o : Int)))
      | _ => none

/-- Reads a moment; a date alone is its midnight. -/
def moment? (t : Text) : Option Moment :=
  if t.length < 7 then none
  else (dateSize? t).bind fun size =>
    (date? size t).bind fun date =>
      match t.drop size with
      | [] => Moment.of? date 0 none
      | _ :: rest => (time? rest).bind fun (time, offset) => Moment.of? date time offset

end Sitewright.Iso
