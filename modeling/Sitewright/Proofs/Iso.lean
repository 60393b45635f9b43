import Sitewright.Page
import Sitewright.Proofs.Number
import Sitewright.Proofs.PageFields

/-!
Dates in ISO form. The text of a date is read back as that date, by itself and as the field of a
header.
-/
namespace Sitewright

namespace Iso
open Text (padLeft ofNat)

variable {width n : ℕ}

/-- A number in so many digits is read as it was written. -/
lemma digits?_padLeft (hwidth : 0 < width) (h : n < 10 ^ width) (rest : Text) :
    digits? width (padLeft width '0' (ofNat n) ++ rest) = some (n, rest) := by
  have hlength : (padLeft width '0' (ofNat n)).length = width :=
    Text.length_padLeft (Text.length_ofNat_le hwidth h)
  have htake : (padLeft width '0' (ofNat n) ++ rest).take width = padLeft width '0' (ofNat n) :=
    List.take_left' hlength
  have hdrop : (padLeft width '0' (ofNat n) ++ rest).drop width = rest := List.drop_left' hlength
  have hdigits : (padLeft width '0' (ofNat n)).all Char.isDigit = true :=
    List.all_eq_true.mpr (Text.all_isDigit_padLeft width n)
  rw [digits?, htake, hdrop, hlength, hdigits, Text.natOfDigits_padLeft]
  simp

end Iso

lemma daysInMonth_le (year month : ℕ) : daysInMonth year month ≤ 31 := by
  unfold daysInMonth
  split_ifs <;> omega

namespace Date
open Text (padLeft ofNat)

variable (d : Date)

lemma day_lt : d.day < 10 ^ 2 := by
  obtain ⟨-, -, -, -, -, hday⟩ := d.isDate
  have := daysInMonth_le d.year d.month
  omega

lemma month_lt : d.month < 10 ^ 2 := by
  obtain ⟨-, -, -, hmonth, -⟩ := d.isDate
  omega

lemma year_lt : d.year < 10 ^ 4 := by
  obtain ⟨-, hyear, -⟩ := d.isDate
  omega

lemma of?_parts : of? d.year d.month d.day = some d := dif_pos d.isDate

lemma length_iso : d.iso.length = 10 := by
  have hyear := Text.length_padLeft (c := '0') (Text.length_ofNat_le (by decide) d.year_lt)
  have hmonth := Text.length_padLeft (c := '0') (Text.length_ofNat_le (by decide) d.month_lt)
  have hday := Text.length_padLeft (c := '0') (Text.length_ofNat_le (by decide) d.day_lt)
  simp [iso, hyear, hmonth, hday]

/-- The first digit of the month, which tells a calendar date from a week date. -/
lemma exists_monthDigit : ∃ c more, padLeft 2 '0' (ofNat d.month) = c :: more ∧ c ≠ 'W' := by
  have hlength := Text.length_padLeft (c := '0') (Text.length_ofNat_le (by decide) d.month_lt)
  have hdigits := Text.all_isDigit_padLeft 2 d.month
  cases h : padLeft 2 '0' (ofNat d.month) with
  | nil =>
    rw [h] at hlength
    cases hlength
  | cons c more =>
    refine ⟨c, more, rfl, ?_⟩
    rintro rfl
    have hdigit := hdigits 'W' (h ▸ List.mem_cons_self)
    revert hdigit
    decide

end Date

namespace Iso
open Text (padLeft ofNat)

variable (d : Date) (rest : Text)

lemma dateSize?_iso : dateSize? (d.iso ++ rest) = some 10 := by
  have hlength : (d.iso ++ rest).length ≠ 7 := by
    rw [List.length_append, d.length_iso]
    omega
  have hyear : (padLeft 4 '0' (ofNat d.year)).length = 4 :=
    Text.length_padLeft (Text.length_ofNat_le (by decide) d.year_lt)
  obtain ⟨c, more, hmonth, hc⟩ := d.exists_monthDigit
  have hhyphen : (d.iso ++ rest)[4]? = some '-' := by
    simp [Date.iso, hyear]
  have hdigit : (d.iso ++ rest)[5]? = some c := by
    simp [Date.iso, List.getElem?_append, hyear, hmonth]
  rw [dateSize?, if_neg hlength, hhyphen, hdigit, if_pos rfl, if_neg (by simpa using hc)]

lemma date?_iso (size : ℕ) : date? size (d.iso ++ rest) = some d := by
  have htext : d.iso ++ rest = padLeft 4 '0' (ofNat d.year) ++ ('-' :: (padLeft 2 '0' (ofNat d.month) ++
      ('-' :: (padLeft 2 '0' (ofNat d.day) ++ rest)))) := by
    simp [Date.iso]
  have hmonth := digits?_padLeft (by decide) d.month_lt ('-' :: (padLeft 2 '0' (ofNat d.day) ++ rest))
  have hday := digits?_padLeft (by decide) d.day_lt rest
  obtain ⟨c, more, hdigit, hc⟩ := d.exists_monthDigit
  rw [htext, date?, digits?_padLeft (by decide) d.year_lt, Option.bind_some]
  rw [hdigit, List.cons_append] at hmonth ⊢
  simp only [List.head?_cons, BEq.rfl, skipHyphen?, skip?, if_true, Option.bind_some]
  split
  · rename_i heq
    exact absurd (List.cons.inj heq).1 hc
  · rw [hmonth, Option.bind_some]
    simp only [if_true, Option.bind_some, hday, Date.of?_parts]

/-- A date is read back from its text, as its midnight. -/
lemma moment?_iso : moment? d.iso = Moment.of? d 0 none := by
  have hsize := dateSize?_iso d []
  have hdate := date?_iso d [] 10
  rw [List.append_nil] at hsize hdate
  have hdrop : d.iso.drop 10 = [] := List.drop_eq_nil_of_le (Nat.le_of_eq d.length_iso)
  rw [moment?, d.length_iso, if_neg (by decide), hsize, Option.bind_some, hdate, Option.bind_some, hdrop]

end Iso

/-- Every character of a date's text is a digit or a hyphen. -/
lemma Date.mem_iso {d : Date} {c : Char} (h : c ∈ d.iso) : c.isDigit = true ∨ c = '-' := by
  simp only [iso, List.mem_append, List.mem_cons, or_assoc] at h
  have hdigits := Text.all_isDigit_padLeft
  rcases h with h | rfl | h | rfl | h
  · exact .inl (hdigits 4 d.year c h)
  · exact .inr rfl
  · exact .inl (hdigits 2 d.month c h)
  · exact .inr rfl
  · exact .inl (hdigits 2 d.day c h)

/-- As the field of a header, the text of a date is that date. -/
lemma Page.fieldDate_iso (d : Date) : Page.fieldDate (some (.text d.iso)) = .ok (some d) := by
  have hchars : ∀ c ∈ d.iso, isIdChar c = true := by
    intro c hc
    rcases Date.mem_iso hc with hdigit | rfl
    · simp [isIdChar, Char.isAlphanum, hdigit]
    · rfl
  have hstrip : Text.strip d.iso = d.iso := Text.strip_of_trimmed (trimmed_of_idChars hchars)
  have hlast : d.iso.getLast? ≠ some 'Z' := by
    intro hz
    rcases Date.mem_iso (List.mem_of_getLast? hz) with hdigit | hhyphen
    · revert hdigit
      decide
    · revert hhyphen
      decide
  have hmoment : Page.textMoment? d.iso = Moment.of? d 0 none := by
    rw [textMoment?, hstrip, if_neg hlast, Iso.moment?_iso]
  have hmidnight : Moment.of? d 0 none = some ⟨d, 0, none, by decide, by simp⟩ :=
    dif_pos ⟨by decide, by simp⟩
  simp only [fieldDate, hmoment, hmidnight]
  rfl

end Sitewright
