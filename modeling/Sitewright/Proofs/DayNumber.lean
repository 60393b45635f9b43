import Mathlib.Order.Monotone.Basic
import Sitewright.Proofs.UtcDay

/-!
The days of the calendar in a row. Each has a number, one more than that of the day before it, and holds
the instants of one day's length; so the day in UTC of a moment is the one that holds its instant.
-/
namespace Sitewright

lemma dayMicros_eq : dayMicros = 86400000000 := rfl

lemma dayMicros_pos : 0 < dayMicros := by decide

namespace Date

/-- The number of a day, that of the first day of the calendar being 1. -/
def number (d : Date) : ℕ := daysBeforeYear d.year + daysBeforeMonth d.year d.month + d.day

lemma daysBeforeMonth_succ {year month : ℕ} (h : 1 ≤ month) :
    daysBeforeMonth year (month + 1) = daysBeforeMonth year month + daysInMonth year month := by
  obtain ⟨month, rfl⟩ : ∃ n, month = n + 1 := ⟨month - 1, by omega⟩
  rfl

lemma daysBeforeMonth_mono (year : ℕ) : Monotone (daysBeforeMonth year) := by
  refine monotone_nat_of_le_succ fun month => ?_
  rcases month with _ | month
  · exact le_rfl
  · exact Nat.le_add_right _ _

lemma daysBeforeYear_add_one (y : ℕ) : daysBeforeYear (y + 1) = y * 365 + y / 4 - y / 100 + y / 400 := rfl

lemma isLeapYear_iff (year : ℕ) :
    isLeapYear year = true ↔ year % 4 = 0 ∧ (year % 100 ≠ 0 ∨ year % 400 = 0) := by
  simp [isLeapYear]

/-- The days of the twelve months make a year. -/
lemma daysBeforeYear_succ {year : ℕ} (h : 1 ≤ year) :
    daysBeforeYear (year + 1) = daysBeforeYear year + daysBeforeMonth year 13 := by
  have hlength : daysBeforeMonth year 13 = if isLeapYear year then 366 else 365 := by
    cases hleap : isLeapYear year <;> simp [daysBeforeMonth, daysInMonth, hleap]
  obtain ⟨y, rfl⟩ : ∃ y, year = y + 1 := ⟨year - 1, by omega⟩
  have hquotient : ∀ b, (y + 1) / b = y / b + if (y + 1) % b = 0 then 1 else 0 := fun b => by
    rw [Nat.succ_div]
    simp only [Nat.dvd_iff_mod_eq_zero]
  rw [hlength, daysBeforeYear_add_one, daysBeforeYear_add_one, hquotient 4, hquotient 100, hquotient 400]
  by_cases hleap : isLeapYear (y + 1) = true
  · rw [if_pos hleap]
    rw [isLeapYear_iff] at hleap
    split_ifs <;> omega
  · rw [if_neg hleap]
    rw [isLeapYear_iff] at hleap
    split_ifs <;> omega

lemma daysBeforeYear_mono : Monotone daysBeforeYear := by
  refine monotone_nat_of_le_succ fun year => ?_
  rcases year with _ | year
  · exact le_rfl
  · rw [daysBeforeYear_succ (Nat.succ_le_succ (Nat.zero_le year))]
    exact Nat.le_add_right _ _

section Order

variable (d : Date)

lemma daysBeforeMonth_add_day_le :
    daysBeforeMonth d.year d.month + d.day ≤ daysBeforeMonth d.year (d.month + 1) := by
  obtain ⟨-, -, hmonth, -, -, hday⟩ := d.isDate
  rw [daysBeforeMonth_succ hmonth]
  omega

lemma daysBeforeYear_lt_number : daysBeforeYear d.year < d.number := by
  obtain ⟨-, -, -, -, hday, -⟩ := d.isDate
  unfold number
  omega

lemma number_le_daysBeforeYear : d.number ≤ daysBeforeYear (d.year + 1) := by
  obtain ⟨hyear, -, -, hmonth, -⟩ := d.isDate
  have hwithin := d.daysBeforeMonth_add_day_le
  have hyearEnd := daysBeforeMonth_mono d.year (show d.month + 1 ≤ 13 by omega)
  rw [daysBeforeYear_succ hyear, number]
  omega

variable {d} {e : Date}

lemma number_lt_of_year (h : d.year < e.year) : d.number < e.number :=
  (d.number_le_daysBeforeYear.trans (daysBeforeYear_mono h)).trans_lt e.daysBeforeYear_lt_number

lemma number_lt_of_month (hyear : d.year = e.year) (h : d.month < e.month) : d.number < e.number := by
  obtain ⟨-, -, -, -, hday, -⟩ := e.isDate
  have hwithin := d.daysBeforeMonth_add_day_le
  have hnext := daysBeforeMonth_mono d.year (Nat.succ_le_of_lt h)
  rw [Nat.succ_eq_add_one] at hnext
  unfold number
  rw [← hyear]
  omega

/-- Different days have different numbers. -/
lemma number_injective : Function.Injective number := by
  intro d e h
  have hyear : d.year = e.year := by
    rcases Nat.lt_trichotomy d.year e.year with hlt | heq | hlt
    · exact absurd h (number_lt_of_year hlt).ne
    · exact heq
    · exact absurd h (number_lt_of_year hlt).ne'
  have hmonth : d.month = e.month := by
    rcases Nat.lt_trichotomy d.month e.month with hlt | heq | hlt
    · exact absurd h (number_lt_of_month hyear hlt).ne
    · exact heq
    · exact absurd h (number_lt_of_month hyear.symm hlt).ne'
  have hday : d.day = e.day := by
    unfold number at h
    rw [hyear, hmonth] at h
    exact Nat.add_left_cancel h
  cases d
  cases e
  cases hyear
  cases hmonth
  cases hday
  rfl

/-- The numbers go from the first day of the calendar to its last. -/
lemma first_le_number (d : Date) : first.number ≤ d.number := by
  have hyear := daysBeforeYear_mono d.isDate.1
  exact Nat.lt_of_le_of_lt hyear d.daysBeforeYear_lt_number

lemma number_le_last (d : Date) : d.number ≤ last.number := by
  have hyear := daysBeforeYear_mono (Nat.succ_le_succ d.isDate.2.1)
  exact d.number_le_daysBeforeYear.trans hyear

lemma of?_eq_some_iff {year month day : ℕ} :
    of? year month day = some d ↔ d.year = year ∧ d.month = month ∧ d.day = day := by
  constructor
  · intro h
    obtain ⟨hdate, heq⟩ := Option.dite_none_right_eq_some.mp h
    obtain rfl := Option.some.inj heq
    exact ⟨rfl, rfl, rfl⟩
  · rintro ⟨rfl, rfl, rfl⟩
    exact dif_pos d.isDate

/-- The day after has the next number. -/
lemma number_of_next? (h : d.next? = some e) : e.number = d.number + 1 := by
  obtain ⟨hyear, -, hmonth, hmonth', -, hday⟩ := d.isDate
  unfold next? at h
  split at h
  · obtain ⟨hy, hm, hd⟩ := of?_eq_some_iff.mp h
    rw [number, hy, hm, hd, number]
    omega
  · -- the month is over
    have hend : daysBeforeMonth d.year (d.month + 1) = daysBeforeMonth d.year d.month + d.day := by
      rw [daysBeforeMonth_succ hmonth]
      omega
    split at h
    · obtain ⟨hy, hm, hd⟩ := of?_eq_some_iff.mp h
      rw [number, hy, hm, hd, hend, number]
      omega
    · obtain ⟨hy, hm, hd⟩ := of?_eq_some_iff.mp h
      have hdecember : d.month = 12 := by omega
      have hjanuary : daysBeforeMonth (d.year + 1) 1 = 0 := rfl
      rw [hdecember] at hend
      rw [number, hy, hm, hd, daysBeforeYear_succ hyear, hend, hjanuary, number, hdecember]
      omega

lemma number_of_previous? (h : d.previous? = some e) : d.number = e.number + 1 := by
  obtain ⟨hyear, -, hmonth, -, hday, -⟩ := d.isDate
  unfold previous? at h
  split at h
  · obtain ⟨hy, hm, hd⟩ := of?_eq_some_iff.mp h
    rw [number, number, hy, hm, hd]
    omega
  · have hfirst : d.day = 1 := by omega
    split at h
    · obtain ⟨hy, hm, hd⟩ := of?_eq_some_iff.mp h
      have hbefore : daysBeforeMonth d.year d.month = daysBeforeMonth d.year (d.month - 1) +
          daysInMonth d.year (d.month - 1) := by
        rw [← daysBeforeMonth_succ (by omega), Nat.sub_add_cancel hmonth]
      rw [number, number, hy, hm, hd, hbefore, hfirst]
      omega
    · obtain ⟨hy, hm, hd⟩ := of?_eq_some_iff.mp h
      have hjanuary : d.month = 1 := by omega
      have hbefore : daysBeforeYear d.year = daysBeforeYear e.year + daysBeforeMonth e.year 13 := by
        rw [← daysBeforeYear_succ e.isDate.1, hy, Nat.sub_add_cancel hyear]
      have hend : daysBeforeMonth e.year 13 = daysBeforeMonth e.year 12 + 31 := rfl
      have hstart : daysBeforeMonth d.year 1 = 0 := rfl
      rw [number, number, hbefore, hm, hd, hfirst, hjanuary, hend, hstart]
      omega

/-- An instant, in microseconds from the start of the calendar, lies on the day. -/
def Holds (d : Date) (i : ℤ) : Prop := (d.number : ℤ) * dayMicros ≤ i ∧ i < (d.number + 1 : ℤ) * dayMicros

/-- An instant lies on one day only. -/
lemma Holds.unique {i : ℤ} (hd : d.Holds i) (he : e.Holds i) : d = e := by
  unfold Holds at hd he
  rw [dayMicros_eq] at hd he
  apply number_injective
  omega

end Order

end Date

/-- The instant lies in the years of the calendar. -/
def InCalendar (i : ℤ) : Prop :=
  (Date.first.number : ℤ) * dayMicros ≤ i ∧ i < (Date.last.number + 1 : ℤ) * dayMicros

lemma Date.Holds.inCalendar {d : Date} {i : ℤ} (h : d.Holds i) : InCalendar i := by
  have hfirst := d.first_le_number
  have hlast := d.number_le_last
  unfold Date.Holds at h
  unfold InCalendar
  rw [dayMicros_eq] at h ⊢
  omega

/-- The calendar has a day of every number from that of its first day to that of its last. -/
lemma Date.exists_number {k : ℕ} (h : first.number ≤ k) (hlast : k ≤ last.number) :
    ∃ d : Date, d.number = k := by
  induction k, h using Nat.le_induction with
  | base => exact ⟨first, rfl⟩
  | succ k _ ih =>
    obtain ⟨d, rfl⟩ := ih (Nat.le_of_succ_le hlast)
    have hnext : d.next? ≠ none := by
      rw [ne_eq, next?_eq_none_iff]
      rintro rfl
      exact Nat.not_succ_le_self _ hlast
    obtain ⟨e, he⟩ := Option.ne_none_iff_exists'.mp hnext
    exact ⟨e, number_of_next? he⟩

/-- Every instant in the calendar lies on one of its days. -/
lemma InCalendar.exists_holds {i : ℤ} (h : InCalendar i) : ∃ d : Date, d.Holds i := by
  unfold InCalendar at h
  rw [dayMicros_eq] at h
  obtain ⟨d, hd⟩ := Date.exists_number (k := (i / 86400000000).toNat) (by omega) (by omega)
  refine ⟨d, ?_⟩
  unfold Date.Holds
  rw [hd, dayMicros_eq]
  omega

namespace Moment

variable {m : Moment} {d : Date} {i o : ℤ}

/-- The day in UTC holds the instant. -/
lemma holds_utcDate? (h : m.offset = some o) (hday : m.utcDate? = some d) :
    d.Holds ((m.date.number : ℤ) * dayMicros + m.time - o) := by
  have htime := m.time_lt
  have hshort := m.offset_lt o h
  unfold Date.Holds
  unfold utcDate? at hday
  rw [h] at hday
  dsimp only at hday
  rw [dayMicros_eq] at *
  split at hday
  · have hnumber := Date.number_of_previous? hday
    omega
  · split at hday
    · obtain rfl := Option.some.inj hday
      omega
    · have hnumber := Date.number_of_next? hday
      omega

/-- A moment whose instant lies in the calendar has a day in UTC. -/
lemma exists_utcDate? (h : m.offset = some o)
    (hin : InCalendar ((m.date.number : ℤ) * dayMicros + m.time - o)) : ∃ d, m.utcDate? = some d := by
  rw [← Option.ne_none_iff_exists', ne_eq, utcDate?_eq_none_iff]
  rintro ⟨o', ho', hleaves⟩
  obtain rfl := Option.some.inj (h.symm.trans ho')
  unfold InCalendar at hin
  rw [dayMicros_eq] at hin hleaves
  rcases hleaves with ⟨hfirst, hbefore⟩ | ⟨hlast, hbehind⟩
  · rw [hfirst] at hin
    omega
  · rw [hlast] at hin
    omega

/-- The day in UTC of a moment with an offset is the day on which its instant lies. -/
lemma utcDate?_eq_some_iff (h : m.instant? = some i) : m.utcDate? = some d ↔ d.Holds i := by
  obtain ⟨o, ho, rfl⟩ := Option.map_eq_some_iff.mp h
  constructor
  · exact holds_utcDate? ho
  · intro hholds
    obtain ⟨d', hd'⟩ := exists_utcDate? ho hholds.inCalendar
    rw [hd', hholds.unique (holds_utcDate? ho hd')]

end Moment

end Sitewright
