import Sitewright.Proofs.Iso
import Sitewright.Proofs.Scan

/-!
The ISO text of a moment, read back. Its date, its time of day and its offset are read as they were
written, but for an offset of less than a second, which is read as none at all.
-/
namespace Sitewright

namespace Iso
open Moment (clock fraction offsetText twoDigits)
open Text (ofNat padLeft)

section Clock

variable {c : Clock} {colons : Bool} {part next : Part} {n fuel micro hour minute second : ℕ} {rest : Text}

lemma digits?_twoDigits (h : n < 100) (rest : Text) : digits? 2 (twoDigits n ++ rest) = some (n, rest) :=
  digits?_padLeft (by decide) h rest

/-- A part of a clock with a colon behind it: the next part follows. -/
lemma clockFrom?_colon (hn : n < 100) (hnext : part.next? = some next) (hcolons : part = .hour ∨ colons = true)
    (hrest : rest ≠ []) : clockFrom? colons c (fuel + 1) part (twoDigits n ++ ':' :: rest) =
      clockFrom? true (c.set part n) fuel next rest := by
  obtain ⟨d, more, rfl⟩ := List.exists_cons_of_ne_nil hrest
  rw [clockFrom?, digits?_twoDigits hn, Option.bind_some]
  cases part with
  | hour => simp [hnext]
  | minute =>
    obtain rfl := hcolons.resolve_left Part.noConfusion
    simp [hnext]
  | second => cases hnext

lemma clockFrom?_end (hn : n < 100) :
    clockFrom? colons c (fuel + 1) part (twoDigits n) = some (c.set part n, true) := by
  have hread := digits?_twoDigits hn []
  rw [List.append_nil] at hread
  rw [clockFrom?, hread, Option.bind_some]

lemma length_sixDigits (h : micro < secondMicros) : (padLeft 6 '0' (ofNat micro)).length = 6 :=
  Text.length_padLeft (Text.length_ofNat_le (by decide) (show micro < 10 ^ 6 from h))

lemma fraction?_sixDigits (h : micro < secondMicros) :
    fraction? (padLeft 6 '0' (ofNat micro)) = some (micro, []) := by
  have hread := digits?_padLeft (by decide) (show micro < 10 ^ 6 from h) []
  rw [List.append_nil] at hread
  rw [fraction?, length_sixDigits h]
  simp [hread]

/-- The seconds, with a fraction if there is one, end a clock. -/
lemma clockFrom?_fraction (hn : n < 100) (hmicro : micro < secondMicros) (hc : c.micro = 0) :
    clockFrom? true c (fuel + 1) .second (twoDigits n ++ fraction micro) =
      some ({ c with second := n, micro }, true) := by
  by_cases h : micro = 0
  · subst h
    rw [fraction, if_pos rfl, List.append_nil, clockFrom?_end hn, Clock.set, hc]
  · obtain ⟨d, more, hdigits⟩ := List.exists_cons_of_length_pos
      (show 0 < (padLeft 6 '0' (ofNat micro)).length by rw [length_sixDigits hmicro]; decide)
    have hread := fraction?_sixDigits hmicro
    rw [fraction, if_neg h, clockFrom?, digits?_twoDigits hn, Option.bind_some]
    rw [hdigits] at hread ⊢
    simp [hread, Clock.set]

lemma twoDigits_ne_nil : twoDigits n ≠ [] := by
  simp [twoDigits, padLeft, ofNat]

lemma clock?_seconds (hhour : hour < 100) (hminute : minute < 100) (hsecond : second < 100)
    (hmicro : micro < secondMicros) :
    clock? (twoDigits hour ++ ':' :: (twoDigits minute ++ ':' :: (twoDigits second ++ fraction micro))) =
      some (⟨hour, minute, second, micro⟩, true) := by
  have hbehind : ∀ n rest, twoDigits n ++ rest ≠ [] := fun n rest =>
    List.append_ne_nil_of_left_ne_nil twoDigits_ne_nil rest
  rw [clock?, clockFrom?_colon hhour rfl (.inl rfl) (hbehind _ _),
    clockFrom?_colon hminute rfl (.inr rfl) (hbehind _ _), clockFrom?_fraction hsecond hmicro rfl]
  rfl

lemma clock?_minutes (hhour : hour < 100) (hminute : minute < 100) :
    clock? (twoDigits hour ++ ':' :: twoDigits minute) = some (⟨hour, minute, 0, 0⟩, true) := by
  rw [clock?, clockFrom?_colon hhour rfl (.inl rfl) twoDigits_ne_nil, clockFrom?_end hminute]
  rfl

end Clock

section Time

variable {m : Moment} {time : ℕ} {o : ℤ}

/-- The parts of a time of day. -/
def clockOf (time : ℕ) : Clock := ⟨time / secondMicros / 3600, time / secondMicros / 60 % 60,
  time / secondMicros % 60, time % secondMicros⟩

lemma hour_clockOf_lt (h : time < dayMicros) : (clockOf time).hour < 24 := by
  dsimp only [clockOf]
  unfold dayMicros secondMicros at *
  omega

lemma mod_sixty_lt (n : ℕ) : n % 60 < 100 := by omega

/-- The seconds of a time of day, put together from its parts. -/
lemma seconds_clockOf (time : ℕ) : ((clockOf time).hour * 60 + (clockOf time).minute) * 60 +
    (clockOf time).second = time / secondMicros := by
  dsimp only [clockOf]
  omega

/-- The time of day is read from its clock. -/
lemma clock?_clock (h : time < dayMicros) : clock? (clock time) = some (clockOf time, true) := by
  have hhour : (clockOf time).hour < 100 := (hour_clockOf_lt h).trans (by decide)
  have hclock := clock?_seconds hhour (mod_sixty_lt (time / secondMicros / 60))
    (mod_sixty_lt (time / secondMicros)) (Nat.mod_lt time (by decide))
  refine Eq.trans ?_ hclock
  simp only [clock, clockOf, List.append_assoc, List.cons_append]

lemma timeOf?_clockOf (h : time < dayMicros) : Moment.timeOf? (clockOf time).hour (clockOf time).minute
    (clockOf time).second (clockOf time).micro = some time := by
  have hsum := seconds_clockOf time
  have hhour := hour_clockOf_lt h
  have hminute : (clockOf time).minute < 60 := Nat.mod_lt _ (by decide)
  have hsecond : (clockOf time).second < 60 := Nat.mod_lt _ (by decide)
  have hmicro : (clockOf time).micro = time % secondMicros := rfl
  rw [Moment.timeOf?, hsum, hmicro, Nat.div_add_mod']
  simp [hhour, hminute, hsecond]

/-- An offset without its sign is read from its clock, in which seconds may be missing. -/
lemma clock?_offsetText (h : o.natAbs < dayMicros) :
    clock? (offsetText o).tail = some (clockOf o.natAbs, true) := by
  have hhour : (clockOf o.natAbs).hour < 100 := (hour_clockOf_lt h).trans (by decide)
  have hminute := mod_sixty_lt (o.natAbs / secondMicros / 60)
  rw [offsetText, List.cons_append, List.cons_append, List.tail_cons]
  split
  · rename_i hzero
    obtain ⟨hsecond, hmicro⟩ : o.natAbs / secondMicros % 60 = 0 ∧ o.natAbs % secondMicros = 0 := by
      simpa using hzero
    rw [List.append_nil, clockOf, hsecond, hmicro]
    exact clock?_minutes hhour hminute
  · have hclock := clock?_seconds hhour hminute (mod_sixty_lt (o.natAbs / secondMicros))
      (Nat.mod_lt o.natAbs (by decide))
    refine Eq.trans ?_ hclock
    simp only [clockOf, List.append_assoc, List.cons_append]

/-- What is read of an offset: nothing of one that is less than a second. -/
def readOffset (o : ℤ) : ℤ := if o.natAbs < secondMicros then 0 else o

lemma offset?_offsetText (h : o.natAbs < dayMicros) :
    offset? (offsetText o).tail = some (readOffset o).natAbs := by
  have hmicro : (clockOf o.natAbs).micro = o.natAbs % secondMicros := rfl
  have hbrief : o.natAbs / secondMicros = 0 ↔ o.natAbs < secondMicros := by
    rw [Nat.div_eq_zero_iff]
    exact or_iff_right (by decide)
  rw [offset?, clock?_offsetText h, Option.bind_some]
  simp only [seconds_clockOf, hmicro, if_true, hbrief, Nat.div_add_mod', readOffset, Option.some.injEq]
  split <;> rfl

lemma mem_fraction {c : Char} (h : c ∈ fraction micro) : c.isDigit = true ∨ c = '.' := by
  unfold fraction at h
  split at h
  · cases h
  · rcases List.mem_cons.mp h with rfl | h
    · exact .inr rfl
    · exact .inl (Text.all_isDigit_padLeft 6 micro c h)

/-- Every character of a time of day is a digit, a colon or a point. -/
lemma mem_clock {c : Char} (h : c ∈ clock time) : c.isDigit = true ∨ c = ':' ∨ c = '.' := by
  have hdigits := Text.all_isDigit_padLeft 2
  simp only [clock, twoDigits, List.mem_append, List.mem_cons, or_assoc] at h
  rcases h with h | rfl | h | rfl | h | h
  · exact .inl (hdigits _ c h)
  · exact .inr (.inl rfl)
  · exact .inl (hdigits _ c h)
  · exact .inr (.inl rfl)
  · exact .inl (hdigits _ c h)
  · exact (mem_fraction h).imp_right .inr

lemma offsetText_eq (o : ℤ) : offsetText o = (if o < 0 then '-' else '+') :: (offsetText o).tail := by
  rw [offsetText, List.cons_append, List.cons_append, List.tail_cons]

/-- Every character of an offset is a digit, a colon, a point or a sign. -/
lemma mem_offsetText {c : Char} (h : c ∈ offsetText o) :
    c.isDigit = true ∨ c = ':' ∨ c = '.' ∨ c = '+' ∨ c = '-' := by
  have hdigits := Text.all_isDigit_padLeft 2
  simp only [offsetText, twoDigits, List.mem_append, List.mem_cons, or_assoc] at h
  rcases h with rfl | h | rfl | h | h
  · split <;> simp
  · exact .inl (hdigits _ c h)
  · exact .inr (.inl rfl)
  · exact .inl (hdigits _ c h)
  · split at h
    · cases h
    · simp only [List.mem_append, List.mem_cons, or_assoc] at h
      rcases h with rfl | h | h
      · exact .inr (.inl rfl)
      · exact .inl (hdigits _ c h)
      · exact (mem_fraction h).imp_right fun hc => .inr (.inl hc)

/-- Where a time of day ends and an offset begins, if there is one. -/
lemma spanWhile_clock (time : ℕ) {zone : Text} (h : ∀ c ∈ zone.head?, c = '+' ∨ c = '-') :
    Text.spanWhile (fun c => c ≠ '+' && c ≠ '-' && c ≠ 'Z') (clock time ++ zone) = (clock time, zone) := by
  have hnot : ∀ d ∈ ['+', '-', 'Z'], ¬ (d.isDigit = true ∨ d = ':' ∨ d = '.') := by simp
  refine Text.spanWhile_of_head (fun c hc => ?_) fun c hc => ?_
  · have hne : ∀ d ∈ ['+', '-', 'Z'], c ≠ d := fun d hd heq => hnot d hd (heq ▸ mem_clock hc)
    simp [hne]
  · rcases h c hc with rfl | rfl <;> rfl

lemma time?_clock (h : time < dayMicros) : time? (clock time) = some (time, none) := by
  have hempty : ∀ c ∈ ([] : Text).head?, c = '+' ∨ c = '-' := fun _ hc => by cases hc
  have hspan := spanWhile_clock time hempty
  rw [List.append_nil] at hspan
  rw [time?, hspan]
  simp only [clock?_clock h, Option.bind_some, timeOf?_clockOf h, if_true]

lemma time?_offset (h : time < dayMicros) (ho : o.natAbs < dayMicros) :
    time? (clock time ++ offsetText o) = some (time, some (readOffset o)) := by
  have hoffset := offset?_offsetText ho
  have hbegin : ∀ c ∈ (offsetText o).head?, c = '+' ∨ c = '-' := fun c hc => by
    rw [offsetText_eq, List.head?_cons] at hc
    obtain rfl := Option.some.inj hc
    split <;> simp
  rw [time?, spanWhile_clock time hbegin]
  simp only [clock?_clock h, Option.bind_some, timeOf?_clockOf h]
  by_cases hsign : o < 0
  · have hread : -((readOffset o).natAbs : ℤ) = readOffset o := by
      unfold readOffset
      split <;> omega
    rw [offsetText_eq, if_pos hsign]
    simp only [hoffset]
    exact congrArg (fun p => some (time, some p)) hread
  · have hread : ((readOffset o).natAbs : ℤ) = readOffset o := by
      unfold readOffset
      split <;> omega
    rw [offsetText_eq, if_neg hsign]
    simp only [hoffset]
    exact congrArg (fun p => some (time, some p)) hread

end Time

end Iso

namespace Moment

/-- The moment as its ISO text is read: an offset of less than a second is read as none. -/
def reread (m : Moment) : Moment where
  date := m.date
  time := m.time
  offset := m.offset.map Iso.readOffset
  time_lt := m.time_lt
  offset_lt := by
    intro o ho
    obtain ⟨p, hp, rfl⟩ := Option.map_eq_some_iff.mp ho
    have hshort := m.offset_lt p hp
    unfold Iso.readOffset
    split <;> omega

end Moment

namespace Iso

variable (m : Moment)

/-- The time of a moment is read with its offset. -/
lemma time?_moment : time? (Moment.clock m.time ++ (m.offset.map Moment.offsetText).getD []) =
    some (m.time, m.offset.map readOffset) := by
  cases ho : m.offset with
  | none =>
    rw [Option.map_none, Option.getD_none, List.append_nil]
    exact time?_clock m.time_lt
  | some o => exact time?_offset m.time_lt (m.offset_lt o ho)

/-- A moment is read from its ISO text, but for an offset of less than a second. -/
lemma moment?_momentIso : moment? m.iso = some m.reread := by
  obtain ⟨rest, hrest⟩ : ∃ rest, rest = Moment.clock m.time ++ (m.offset.map Moment.offsetText).getD [] :=
    ⟨_, rfl⟩
  have htext : m.iso = m.date.iso ++ 'T' :: rest := by
    rw [Moment.iso, Moment.text, List.append_assoc, List.cons_append, hrest]
  have hlength : ¬ (m.date.iso ++ 'T' :: rest).length < 7 := by
    rw [List.length_append, m.date.length_iso]
    omega
  have hdrop : (m.date.iso ++ 'T' :: rest).drop 10 = 'T' :: rest := List.drop_left' m.date.length_iso
  rw [htext, moment?, if_neg hlength, dateSize?_iso, Option.bind_some, date?_iso, Option.bind_some, hdrop]
  simp only [hrest, time?_moment, Option.bind_some]
  exact dif_pos ⟨m.reread.time_lt, m.reread.offset_lt⟩

end Iso

end Sitewright
