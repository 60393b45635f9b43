import Sitewright.Proofs.PageFields
import Sitewright.Proofs.UtcDay
import Sitewright.Proofs.Writable

/-!
Headers that make no page though they have no fault of a page. Reading one fails in that way only
where a text is wanted and the value holds an integer that is too long to be written, or where the
offset of its date leads beyond the calendar; and there it always fails.
-/
namespace Sitewright.Page

section Fields

variable {v : Option Value} {e : PageFailure}

/-- A field that cannot be written as text. -/
def FieldTooLong (v : Option Value) : Prop := ∃ w ∈ v, w.IsTooLong

/-- A field that gives a moment whose offset leads beyond the calendar. -/
def FieldBeyond (v : Option Value) : Prop :=
  ∃ m : Moment, (v = some (.moment m) ∨ ∃ t, v = some (.text t) ∧ textMoment? t = some m) ∧
    m.LeavesCalendar

lemma valueText_eq_error {w : Value} : valueText w = .error e ↔ e = .tooLong ∧ w.IsTooLong := by
  rw [← Value.stripped?_eq_none, valueText]
  cases w.stripped? <;> simp [eq_comm]

lemma fieldTooLong_some {w : Value} : FieldTooLong (some w) ↔ w.IsTooLong := by
  simp [FieldTooLong]

lemma fieldText_eq_error : fieldText v = .error e ↔ e = .tooLong ∧ FieldTooLong v := by
  unfold fieldText
  split
  · simp [FieldTooLong]
  · simp [fieldTooLong_some, Value.not_isTooLong_null]
  · rw [valueText_eq_error, fieldTooLong_some]

lemma fieldTexts_eq_error : fieldTexts v = .error e ↔ e = .tooLong ∧ FieldTooLong v := by
  have hitems : ∀ items : List Value,
      ((items.mapM valueText).map fun ts => ts.filter fun t => !t.isEmpty) = .error e ↔
        e = .tooLong ∧ ∃ w ∈ items, w.IsTooLong := by
    intro items
    rw [except_map_eq_error, mapM_eq_error fun _ _ h => (valueText_eq_error.mp h).1]
    simp only [valueText_eq_error, true_and]
  unfold fieldTexts
  dsimp only
  split
  · simp [FieldTooLong]
  · simp [fieldTooLong_some, Value.not_isTooLong_null]
  · rw [hitems, fieldTooLong_some, Value.isTooLong_iff fun _ => Value.noConfusion]
    rfl
  · rw [hitems, fieldTooLong_some, Value.isTooLong_iff fun _ => Value.noConfusion]
    rfl
  · rw [hitems, fieldTooLong_some]
    simp

lemma fieldDate_moment_eq_error {m : Moment} :
    fieldDate (some (.moment m)) = .error e ↔ e = .beyondCalendar ∧ m.LeavesCalendar := by
  rw [← Moment.utcDate?_eq_none_iff]
  unfold fieldDate
  dsimp only
  cases m.utcDate? <;> simp [eq_comm]

/-- A text that writes a moment stands for it. -/
lemma fieldDate_text {t : Text} {m : Moment} (h : textMoment? t = some m) :
    fieldDate (some (.text t)) = fieldDate (some (.moment m)) := by
  simp only [fieldDate, h]

lemma fieldDate_eq_error : fieldDate v = .error e ↔ e = .beyondCalendar ∧ FieldBeyond v := by
  constructor
  · intro h
    rcases v with _ | v
    · cases h
    cases v
    case moment m =>
      obtain ⟨he, hleaves⟩ := fieldDate_moment_eq_error.mp h
      exact ⟨he, m, .inl rfl, hleaves⟩
    case text t =>
      cases hread : textMoment? t with
      | none =>
        simp only [fieldDate, hread] at h
        cases h
      | some m =>
        obtain ⟨he, hleaves⟩ := fieldDate_moment_eq_error.mp (fieldDate_text hread ▸ h)
        exact ⟨he, m, .inr ⟨t, rfl, hread⟩, hleaves⟩
    all_goals cases h
  · rintro ⟨rfl, m, rfl | ⟨t, rfl, hread⟩, hleaves⟩
    · exact fieldDate_moment_eq_error.mpr ⟨rfl, hleaves⟩
    · rw [fieldDate_text hread]
      exact fieldDate_moment_eq_error.mpr ⟨rfl, hleaves⟩

lemma not_fieldTooLong_of_text {t : Text} (h : fieldText v = .ok t) : ¬ FieldTooLong v := fun hlong => by
  cases h.symm.trans (fieldText_eq_error.mpr ⟨rfl, hlong⟩)

lemma not_fieldTooLong_of_texts {ts : List Text} (h : fieldTexts v = .ok ts) : ¬ FieldTooLong v :=
  fun hlong => by cases h.symm.trans (fieldTexts_eq_error.mpr ⟨rfl, hlong⟩)

end Fields

section Stages

variable {fields : Fields} {e : PageFailure}

/-- The fields that are wanted as texts once the identifier and the kind are known. -/
def laterTexts : List String :=
  ["Parent", "title", "Category", "Labels", "Author", "Description", "Keywords", "Template"]

/-- Why a header makes no page though it has no fault of a page. -/
inductive Stray (fields : Fields) : PageFailure → Prop
  | id (h : FieldTooLong (fields.get? "Short-URI")) : Stray fields .tooLong
  | kind {id : Text} (hid : idOf fields = .ok id) (h : FieldTooLong (fields.get? "Type")) :
      Stray fields .tooLong
  | text {id : Text} {kind : PageKind} {name : String} (hid : idOf fields = .ok id)
      (hkind : kindOf fields id = .ok kind) (hname : name ∈ laterTexts)
      (h : FieldTooLong (fields.get? name)) : Stray fields .tooLong
  /-- The second spelling of the title counts where the first one is blank. -/
  | title {id : Text} {kind : PageKind} (hid : idOf fields = .ok id)
      (hkind : kindOf fields id = .ok kind) (hblank : fieldText (fields.get? "title") = .ok [])
      (h : FieldTooLong (fields.get? "Title")) : Stray fields .tooLong
  | date {id : Text} {kind : PageKind} (hid : idOf fields = .ok id)
      (hkind : kindOf fields id = .ok kind) (h : FieldBeyond (fields.get? "Date")) :
      Stray fields .beyondCalendar

lemma idOf_error (h : idOf fields = .error e) :
    (∃ fault, e = .invalid fault) ∨ Stray fields e := by
  unfold idOf at h
  rcases except_bind_eq_error.mp h with h | ⟨id, -, h⟩
  · obtain ⟨rfl, hlong⟩ := fieldText_eq_error.mp h
    exact .inr (.id hlong)
  · left
    split at h
    · exact ⟨.missingId, (Except.error.inj h).symm⟩
    · rcases except_bind_eq_error.mp h with h | ⟨u, -, h⟩
      · cases hcheck : checkId id with
        | error fault => rw [hcheck] at h; exact ⟨fault, (Except.error.inj h).symm⟩
        | ok u => rw [hcheck] at h; cases h
      · cases h

lemma kindOf_error {id : Text} (hid : idOf fields = .ok id) (h : kindOf fields id = .error e) :
    (∃ fault, e = .invalid fault) ∨ Stray fields e := by
  unfold kindOf at h
  rcases except_bind_eq_error.mp h with h | ⟨name, -, h⟩
  · obtain ⟨rfl, hlong⟩ := fieldText_eq_error.mp h
    exact .inr (.kind hid hlong)
  · left
    dsimp only at h
    split at h
    · cases h
    · exact ⟨_, (Except.error.inj h).symm⟩

lemma titleOf_error {id : Text} {kind : PageKind} (hid : idOf fields = .ok id)
    (hkind : kindOf fields id = .ok kind) (h : titleOf fields = .error e) : Stray fields e := by
  unfold titleOf at h
  obtain h | ⟨title, htitle, h⟩ := except_bind_eq_error.mp h
  · obtain ⟨rfl, hlong⟩ := fieldText_eq_error.mp h
    exact .text hid hkind (by decide) hlong
  · split at h
    · rename_i hempty
      obtain ⟨rfl, hlong⟩ := fieldText_eq_error.mp h
      exact .title hid hkind (List.isEmpty_iff.mp hempty ▸ htitle) hlong
    · cases h

lemma ofFields_of_idOf (h : idOf fields = .error e) : ofFields fields = .error e := by
  unfold ofFields
  rw [h]
  rfl

lemma ofFields_of_kindOf {id : Text} (hid : idOf fields = .ok id) (h : kindOf fields id = .error e) :
    ofFields fields = .error e := by
  unfold ofFields
  simp only [hid, h, bind, Except.bind]

/-- Once the identifier and the kind are known, no fault of a page is left to be found. -/
lemma ofFields_error_later {id : Text} {kind : PageKind} (hid : idOf fields = .ok id)
    (hkind : kindOf fields id = .ok kind) (h : ofFields fields = .error e) : Stray fields e := by
  have htext : ∀ {name : String}, name ∈ laterTexts → fieldText (fields.get? name) = .error e →
      Stray fields e := by
    intro name hname herror
    obtain ⟨rfl, hlong⟩ := fieldText_eq_error.mp herror
    exact .text hid hkind hname hlong
  have htexts : ∀ {name : String}, name ∈ laterTexts → fieldTexts (fields.get? name) = .error e →
      Stray fields e := by
    intro name hname herror
    obtain ⟨rfl, hlong⟩ := fieldTexts_eq_error.mp herror
    exact .text hid hkind hname hlong
  unfold ofFields at h
  dsimp only at h
  obtain h | ⟨id', hid', h⟩ := except_bind_eq_error.mp h
  · cases hid.symm.trans h
  obtain rfl := Except.ok.inj (hid.symm.trans hid')
  obtain h | ⟨kind', hkind', h⟩ := except_bind_eq_error.mp h
  · cases hkind.symm.trans h
  obtain h | ⟨parent, -, h⟩ := except_bind_eq_error.mp h
  · exact htext (by decide) h
  obtain h | ⟨title, -, h⟩ := except_bind_eq_error.mp h
  · exact titleOf_error hid hkind h
  obtain h | ⟨category, -, h⟩ := except_bind_eq_error.mp h
  · exact htext (by decide) h
  obtain h | ⟨labels, -, h⟩ := except_bind_eq_error.mp h
  · exact htexts (by decide) h
  obtain h | ⟨author, -, h⟩ := except_bind_eq_error.mp h
  · exact htext (by decide) h
  obtain h | ⟨date, -, h⟩ := except_bind_eq_error.mp h
  · obtain ⟨rfl, hbeyond⟩ := fieldDate_eq_error.mp h
    exact .date hid hkind hbeyond
  obtain h | ⟨description, -, h⟩ := except_bind_eq_error.mp h
  · exact htext (by decide) h
  obtain h | ⟨keywords, -, h⟩ := except_bind_eq_error.mp h
  · exact htexts (by decide) h
  obtain h | ⟨template, -, h⟩ := except_bind_eq_error.mp h
  · exact htext (by decide) h
  cases h

lemma not_fieldTooLong_title {t : Text} (h : titleOf fields = .ok t) :
    ¬ FieldTooLong (fields.get? "title") := by
  unfold titleOf at h
  obtain ⟨title, htitle, -⟩ := except_bind_ok h
  exact not_fieldTooLong_of_text htitle

lemma Describes.not_fieldTooLong {p : Page} (h : Describes fields p) :
    ∀ name ∈ laterTexts, ¬ FieldTooLong (fields.get? name) := by
  obtain ⟨parent, hparent, -⟩ := except_map_ok h.parent
  obtain ⟨title, htitle, -⟩ := except_map_ok h.title
  obtain ⟨template, htemplate, -⟩ := except_map_ok h.template
  intro name hname
  simp only [laterTexts, List.mem_cons, List.not_mem_nil, or_false] at hname
  rcases hname with rfl | rfl | rfl | rfl | rfl | rfl | rfl | rfl
  · exact not_fieldTooLong_of_text hparent
  · exact not_fieldTooLong_title htitle
  · exact not_fieldTooLong_of_text h.category
  · exact not_fieldTooLong_of_texts h.labels
  · exact not_fieldTooLong_of_text h.author
  · exact not_fieldTooLong_of_text h.description
  · exact not_fieldTooLong_of_texts h.keywords
  · exact not_fieldTooLong_of_text htemplate

lemma Stray.ne_invalid (h : Stray fields e) (fault : PageFault) : e ≠ .invalid fault := by
  cases h <;> exact PageFailure.noConfusion

/-- With an identifier and a kind, a header that describes no page has no fault of a page. -/
lemma exists_error_of_not_describes {id : Text} {kind : PageKind} (hid : idOf fields = .ok id)
    (hkind : kindOf fields id = .ok kind) (h : ∀ p, ¬ Describes fields p) :
    ∃ e, ofFields fields = .error e ∧ ∀ fault, e ≠ .invalid fault := by
  cases hof : ofFields fields with
  | ok p => exact absurd (describes_of_ofFields hof) (h p)
  | error e => exact ⟨e, rfl, (ofFields_error_later hid hkind hof).ne_invalid⟩

lemma Stray.exists_error (h : Stray fields e) :
    ∃ e', ofFields fields = .error e' ∧ ∀ fault, e' ≠ .invalid fault := by
  cases h with
  | id hlong =>
    have hid : idOf fields = .error .tooLong := by
      unfold idOf
      rw [fieldText_eq_error.mpr ⟨rfl, hlong⟩]
      rfl
    exact ⟨.tooLong, ofFields_of_idOf hid, fun _ => PageFailure.noConfusion⟩
  | @kind id hid hlong =>
    have hkind : kindOf fields id = .error .tooLong := by
      unfold kindOf
      rw [fieldText_eq_error.mpr ⟨rfl, hlong⟩]
      rfl
    exact ⟨.tooLong, ofFields_of_kindOf hid hkind, fun _ => PageFailure.noConfusion⟩
  | text hid hkind hname hlong =>
    exact exists_error_of_not_describes hid hkind fun p hp => hp.not_fieldTooLong _ hname hlong
  | title hid hkind hblank hlong =>
    refine exists_error_of_not_describes hid hkind fun p hp => ?_
    obtain ⟨title, htitle, -⟩ := except_map_ok hp.title
    unfold titleOf at htitle
    rw [hblank] at htitle
    exact not_fieldTooLong_of_text htitle hlong
  | date hid hkind hbeyond =>
    refine exists_error_of_not_describes hid hkind fun p hp => ?_
    cases hp.date.symm.trans (fieldDate_eq_error.mpr ⟨rfl, hbeyond⟩)

/-- A header makes a page, or it has a fault of a page, or it strays: it fails otherwise only at an
integer too long for a text and at a date led beyond the calendar, and wherever one of these is met
behind a sound identifier and kind it does fail. -/
theorem ofFields_reports (fields : Fields) :
    (∀ e, ofFields fields = .error e → (∃ fault, e = .invalid fault) ∨ Stray fields e) ∧
      ∀ e, Stray fields e → ∃ e', ofFields fields = .error e' ∧ ∀ fault, e' ≠ .invalid fault := by
  refine ⟨fun e h => ?_, fun e h => h.exists_error⟩
  cases hid : idOf fields with
  | error e' =>
    obtain rfl := Except.error.inj (h.symm.trans (ofFields_of_idOf hid))
    exact idOf_error hid
  | ok id =>
    cases hkind : kindOf fields id with
    | error e' =>
      obtain rfl := Except.error.inj (h.symm.trans (ofFields_of_kindOf hid hkind))
      exact kindOf_error hid hkind
    | ok kind => exact .inr (ofFields_error_later hid hkind h)

/-- A page of the first hour of the calendar, by a clock one hour ahead of UTC. -/
def firstHour : Fields := [
  (.text "Short-URI".toList, .text "a".toList),
  (.text "Date".toList, .moment ⟨Date.first, 0, some 3600000000, by decide, by decide⟩)]

/-- A page whose title is the smallest integer that is too long to be written. -/
def longTitle : Fields := [
  (.text "Short-URI".toList, .text "a".toList),
  (.text "title".toList, .int (Nat.pow 10 Text.maxIntDigits))]

theorem ofFields_reports_firstHour :
    ofFields firstHour = .error .beyondCalendar ∧ Stray firstHour .beyondCalendar ∧
      Stray longTitle .tooLong ∧
      ∃ e, ofFields longTitle = .error e ∧ ∀ fault, e ≠ .invalid fault := by
  have hfirst : ofFields firstHour = .error .beyondCalendar := by decide +kernel
  have hstray : Stray firstHour .beyondCalendar :=
    ((ofFields_reports firstHour).1 _ hfirst).resolve_left fun ⟨_, h⟩ => PageFailure.noConfusion h
  have hid : idOf longTitle = .ok "a".toList := rfl
  have hkind : kindOf longTitle "a".toList = .ok .page := rfl
  have hlong : Stray longTitle .tooLong :=
    .text hid hkind (List.mem_cons_of_mem _ List.mem_cons_self)
      ⟨_, rfl, Value.isTooLong_int.mpr (Int.natAbs_natCast _).ge⟩
  exact ⟨hfirst, hstray, hlong, (ofFields_reports longTitle).2 _ hlong⟩

end Stages

end Sitewright.Page
