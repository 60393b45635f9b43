import Sitewright.Proofs.DayNumber
import Sitewright.Proofs.HeaderDay
import Sitewright.Proofs.MomentText
import Sitewright.Proofs.PageFailure

/-!
One day for every instant. A date is read from a value and from its ISO text, and it is put in words;
all of these give the day in UTC on which the instant lies. Only the ISO text of an offset of less than
a second misses it, since such an offset is not read.
-/
namespace Sitewright

namespace Moment
open Text (Trimmed)

variable (m : Moment)

/-- The ISO text up to the offset. -/
def wallIso : Text := m.date.iso ++ 'T' :: clock m.time

/-- The ISO text of a moment in UTC with a `Z` for its offset. -/
def zulu : Text := m.wallIso ++ ['Z']

lemma iso_eq_wallIso : m.iso = m.wallIso ++ (m.offset.map offsetText).getD [] := rfl

/-- The characters of ISO texts that are no digits. -/
def isoSigns : List Char := ['-', 'T', ':', '.', '+']

lemma mem_iso {c : Char} (h : c ∈ m.iso) : c.isDigit = true ∨ c ∈ isoSigns := by
  rw [iso_eq_wallIso, wallIso, List.append_assoc, List.cons_append, List.mem_append, List.mem_cons,
    List.mem_append] at h
  rcases h with h | rfl | h | h
  · exact (Date.mem_iso h).imp_right fun hc => by rw [hc]; decide
  · exact .inr (by decide)
  · exact (Iso.mem_clock h).imp_right fun hc => by rcases hc with rfl | rfl <;> decide
  · cases ho : m.offset with
    | none =>
      rw [ho] at h
      cases h
    | some o =>
      rw [ho] at h
      exact (Iso.mem_offsetText h).imp_right fun hc => by rcases hc with rfl | rfl | rfl | rfl <;> decide

/-- None of these characters is white space. -/
lemma trimmed_of_isoSigns {t : Text} (h : ∀ c ∈ t, c.isDigit = true ∨ c ∈ isoSigns ∨ c = 'Z') :
    Trimmed t := by
  refine Text.trimmed_of_forall fun c hc => ?_
  have hsigns : ∀ c ∈ isoSigns, Text.isBlank c = false := by simp [isoSigns, Text.isBlank]
  rcases h c hc with hdigit | hsign | rfl
  · exact Page.isBlank_of_isIdChar (by simp [Page.isIdChar, Char.isAlphanum, hdigit])
  · exact hsigns c hsign
  · rfl

lemma trimmed_iso : Trimmed m.iso := trimmed_of_isoSigns fun _ hc => (m.mem_iso hc).imp_right .inl

lemma getLast?_iso : m.iso.getLast? ≠ some 'Z' := by
  intro h
  have hz := m.mem_iso (List.mem_of_getLast? h)
  revert hz
  decide

lemma trimmed_zulu : Trimmed m.zulu := by
  refine trimmed_of_isoSigns fun c hc => ?_
  rcases List.mem_append.mp hc with hc | hc
  · have hmem : c ∈ m.iso := m.iso_eq_wallIso ▸ List.mem_append_left _ hc
    exact (m.mem_iso hmem).imp_right .inl
  · exact .inr (.inr (List.mem_singleton.mp hc))

/-- An offset that is not zero but less than a second. -/
def IsBrief : Prop := ∃ o ∈ m.offset, o ≠ 0 ∧ o.natAbs < secondMicros

instance : Decidable m.IsBrief := inferInstanceAs (Decidable (∃ o ∈ m.offset, _))

variable {m} {d : Date}

lemma utcDate?_naive (h : m.offset = none) : m.utcDate? = some m.date := by
  rw [utcDate?, h]

lemma utcDate?_utc (h : m.offset = some 0) : m.utcDate? = some m.date := by
  have htime := m.time_lt
  have hnot : ¬ (m.time : ℤ) - 0 < 0 := by omega
  have hwithin : (m.time : ℤ) - 0 < dayMicros := by omega
  rw [utcDate?, h]
  dsimp only
  rw [if_neg hnot, if_pos hwithin]

/-- The day in UTC of a moment as its ISO text is read. -/
lemma utcDate?_reread (h : m.utcDate? = some d) :
    m.reread.utcDate? = some (if m.IsBrief then m.date else d) := by
  cases ho : m.offset with
  | none =>
    have hbrief : ¬ m.IsBrief := by simp [IsBrief, ho]
    have hread : m.reread.offset = none := congrArg (Option.map Iso.readOffset) ho
    rw [if_neg hbrief, utcDate?_naive hread, ← h, utcDate?_naive ho]
    rfl
  | some o =>
    have hread : m.reread.offset = some (Iso.readOffset o) := congrArg (Option.map Iso.readOffset) ho
    have hbrief : m.IsBrief ↔ o ≠ 0 ∧ o.natAbs < secondMicros := by simp [IsBrief, ho]
    by_cases hshort : o.natAbs < secondMicros
    · rw [Iso.readOffset, if_pos hshort] at hread
      rw [utcDate?_utc hread]
      split
      · rfl
      · rename_i hnot
        have hzero : o = 0 := by
          by_contra hne
          exact hnot (hbrief.mpr ⟨hne, hshort⟩)
        rw [hzero] at ho
        rw [← h, utcDate?_utc ho]
        rfl
    · rw [Iso.readOffset, if_neg hshort, ← ho] at hread
      have hsame : m.reread.utcDate? = m.utcDate? := by
        unfold utcDate?
        rw [hread]
        rfl
      rw [if_neg fun hb => hshort (hbrief.mp hb).2, ← h, hsame]

end Moment

namespace Page

variable {m : Moment} {d : Date}

lemma textMoment?_iso : textMoment? m.iso = some m.reread := by
  rw [textMoment?, Text.strip_of_trimmed m.trimmed_iso, if_neg m.getLast?_iso, Iso.moment?_momentIso]

lemma textMoment?_zulu (h : m.offset = some 0) : textMoment? m.zulu = some m.reread := by
  have hiso : m.zulu.dropLast ++ "+00:00".toList = m.iso := by
    rw [Moment.zulu, List.dropLast_concat, Moment.iso_eq_wallIso, h]
    rfl
  have hlast : m.zulu.getLast? = some 'Z' := List.getLast?_concat
  rw [textMoment?, Text.strip_of_trimmed m.trimmed_zulu, if_pos hlast, hiso, Iso.moment?_momentIso]

lemma fieldDate_moment (h : m.utcDate? = some d) : fieldDate (some (.moment m)) = .ok (some d) := by
  simp only [fieldDate, h]

/-- A moment with a day in UTC gives that day, as a value, in words and as ISO text, with the offset `Z` as
well, but for the ISO text of a brief offset. -/
lemma fieldDate_forms (h : m.utcDate? = some d) :
    fieldDate (some (.moment m)) = .ok (some d) ∧ Day.inWords (.inr m) = .ok d.inWords ∧
      fieldDate (some (.text m.iso)) = .ok (some (if m.IsBrief then m.date else d)) ∧
      (m.offset = some 0 → fieldDate (some (.text m.zulu)) = .ok (some d)) := by
  have htext := fieldDate_moment (Moment.utcDate?_reread h)
  refine ⟨fieldDate_moment h, Day.inWords_of_utc? h, ?_, fun hzero => ?_⟩
  · rw [fieldDate_text textMoment?_iso, htext]
  · have hbrief : ¬ m.IsBrief := by simp [Moment.IsBrief, hzero]
    rw [fieldDate_text (textMoment?_zulu hzero), htext, if_neg hbrief]

/-- A date is read as itself, and a moment without an offset as its own day. The instant of any other
moment, if it lies in the calendar, lies on exactly one of its days, and the moment is read as that day,
whatever its offset. Values and ISO texts are read alike and the words are those of the same day, but the ISO
text of a brief offset is read as the day that it writes. -/
theorem fieldDate_instant (d : Date) (m : Moment) :
    (fieldDate (some (.date d)) = .ok (some d) ∧ fieldDate (some (.text d.iso)) = .ok (some d) ∧
      Day.inWords (.inl d) = .ok d.inWords) ∧
    (m.offset = none → fieldDate (some (.moment m)) = .ok (some m.date) ∧
      fieldDate (some (.text m.iso)) = .ok (some m.date) ∧ Day.inWords (.inr m) = .ok m.date.inWords) ∧
    ∀ i, m.instant? = some i → InCalendar i → ∃ day : Date, (∀ e : Date, e.Holds i ↔ e = day) ∧
      fieldDate (some (.moment m)) = .ok (some day) ∧ Day.inWords (.inr m) = .ok day.inWords ∧
      fieldDate (some (.text m.iso)) = .ok (some (if m.IsBrief then m.date else day)) ∧
      (m.offset = some 0 → fieldDate (some (.text m.zulu)) = .ok (some day)) := by
  refine ⟨⟨rfl, fieldDate_iso d, rfl⟩, fun hnaive => ?_, fun i hm hi => ?_⟩
  · obtain ⟨hvalue, hwords, htext, -⟩ := fieldDate_forms (Moment.utcDate?_naive hnaive)
    have hbrief : ¬ m.IsBrief := by simp [Moment.IsBrief, hnaive]
    rw [if_neg hbrief] at htext
    exact ⟨hvalue, htext, hwords⟩
  · obtain ⟨day, hday⟩ := hi.exists_holds
    refine ⟨day, fun e => ⟨fun he => he.unique hday, fun he => he ▸ hday⟩, ?_⟩
    exact fieldDate_forms ((Moment.utcDate?_eq_some_iff hm).mpr hday)

/-- The first midnight of 2020 as clocks show it that are a microsecond ahead of UTC. -/
def newYear : Moment := ⟨⟨2020, 1, 1, by decide⟩, 0, some 1, dayMicros_pos, by rintro _ ⟨⟩; decide⟩

theorem fieldDate_instant_newYear :
    fieldDate (some (.moment newYear)) = .ok (some ⟨2019, 12, 31, by decide⟩) ∧
      fieldDate (some (.text "2020-01-01T00:00:00+00:00:00.000001".toList)) =
        .ok (some ⟨2020, 1, 1, by decide⟩) := by
  have hiso : newYear.iso = "2020-01-01T00:00:00+00:00:00.000001".toList := by decide +kernel
  obtain ⟨i, hi⟩ : ∃ i, newYear.instant? = some i := ⟨_, rfl⟩
  have hholds : (⟨2019, 12, 31, by decide⟩ : Date).Holds i :=
    (Moment.utcDate?_eq_some_iff hi).mp (by decide)
  obtain ⟨-, -, hinstant⟩ := fieldDate_instant Date.first newYear
  obtain ⟨day, hday, hvalue, -, htext, -⟩ := hinstant i hi hholds.inCalendar
  rw [← (hday _).mp hholds] at hvalue
  rw [hiso] at htext
  exact ⟨hvalue, htext⟩

end Page

end Sitewright
