import Mathlib.Data.Nat.Basic
import Sitewright.Calendar.Moment

/-!
The ends of the calendar. Only its first day has none before it and only its last day none after it,
so the day of a moment in UTC is missing exactly where the offset leads beyond one of the two.
-/
namespace Sitewright

lemma daysInMonth_pos (year month : ℕ) : 1 ≤ daysInMonth year month := by
  unfold daysInMonth
  split_ifs <;> decide

namespace Date

def first : Date := ⟨1, 1, 1, by decide⟩

def last : Date := ⟨9999, 12, 31, by decide⟩

lemma of?_eq_none_iff {year month day : ℕ} : of? year month day = none ↔ ¬ IsDate year month day := by
  simp [of?]

variable (d : Date)

lemma eq_first_iff : d = first ↔ d.year = 1 ∧ d.month = 1 ∧ d.day = 1 := by
  cases d
  simp [first]

lemma eq_last_iff : d = last ↔ d.year = 9999 ∧ d.month = 12 ∧ d.day = 31 := by
  cases d
  simp [last]

lemma previous?_eq_none_iff : d.previous? = none ↔ d = first := by
  obtain ⟨hyear, hyear', hmonth, hmonth', hday, hday'⟩ := d.isDate
  rw [eq_first_iff, previous?]
  split
  · rw [of?_eq_none_iff, IsDate]
    omega
  · split
    · have hlast := daysInMonth_pos d.year (d.month - 1)
      rw [of?_eq_none_iff, IsDate]
      omega
    · have hlast : daysInMonth (d.year - 1) 12 = 31 := rfl
      rw [of?_eq_none_iff, IsDate]
      omega

lemma next?_eq_none_iff : d.next? = none ↔ d = last := by
  obtain ⟨hyear, hyear', hmonth, hmonth', hday, hday'⟩ := d.isDate
  have hdecember : d.month = 12 → daysInMonth d.year d.month = 31 := fun h => h ▸ rfl
  rw [eq_last_iff, next?]
  split
  · rw [of?_eq_none_iff, IsDate]
    omega
  · split
    · have hfirst := daysInMonth_pos d.year (d.month + 1)
      rw [of?_eq_none_iff, IsDate]
      omega
    · have hfirst := daysInMonth_pos (d.year + 1) 1
      rw [of?_eq_none_iff, IsDate]
      omega

end Date

namespace Moment

/-- The offset leads from the first day of the calendar to a day before it, or from the last one to a
day behind it. -/
def LeavesCalendar (m : Moment) : Prop :=
  ∃ o ∈ m.offset, m.date = Date.first ∧ m.time < o ∨ m.date = Date.last ∧ dayMicros ≤ m.time - o

instance (m : Moment) : Decidable m.LeavesCalendar :=
  inferInstanceAs (Decidable (∃ o ∈ m.offset, _))

lemma utcDate?_eq_none_iff (m : Moment) : m.utcDate? = none ↔ m.LeavesCalendar := by
  unfold utcDate? LeavesCalendar
  cases hoffset : m.offset with
  | none => simp
  | some o =>
    have htime := m.time_lt
    have hshort := m.offset_lt o hoffset
    simp only [Option.mem_def, Option.some.injEq, exists_eq_left']
    split
    · -- the day in UTC is the one before
      have hback : (m.time : ℤ) < o := by omega
      have hnot : ¬ (dayMicros : ℤ) ≤ m.time - o := by omega
      rw [Date.previous?_eq_none_iff, and_iff_left hback, or_iff_left fun h => hnot h.2]
    · have hnot : ¬ (m.time : ℤ) < o := by omega
      split
      · have hsame : ¬ (dayMicros : ℤ) ≤ m.time - o := by omega
        simp [hnot, hsame]
      · have hon : (dayMicros : ℤ) ≤ m.time - o := by omega
        rw [Date.next?_eq_none_iff, and_iff_left hon, or_iff_right fun h => hnot h.2]

end Moment

end Sitewright
