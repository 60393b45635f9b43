import Sitewright.Config
import Sitewright.Proofs.FileTree
import Sitewright.Proofs.Ordering
import Sitewright.Proofs.Result
import Sitewright.Proofs.Writable

/-!
Which configuration files give a configuration, and what is said of the others. A file has a fault
that its author is told of, or it strays: a value that does not exist, a key that is no text, and an
integer that is too long for a text end the reading without such a word.
-/
namespace Sitewright

namespace Value

/-- Only a text is the same key as a text. -/
lemma same_text {key : Value} {t : Text} : key.same (.text t) = true ↔ key = .text t := by
  cases key <;> simp [same, asInt?]

end Value

namespace ConfigError

/-- Is it a fault of the configuration, which its author is told of? -/
def isFault : ConfigError → Bool
  | malformed _ => true
  | notMap => true
  | unknownKeys _ _ => true
  | badSiteUrl _ => true
  | notTexts _ => true
  | notFlag _ => true
  | _ => false

end ConfigError

namespace Config

/-- What is wanted of the value of a setting. -/
inductive SettingKind where
  | text
  | url
  | texts
  | flag

/-- The settings in the order in which they are read. -/
def settings : List (String × SettingKind) := [
  ("content_dir", .text), ("output_dir", .text), ("templates_dir", .text), ("static_dir", .text),
  ("base_path", .text), ("site_url", .url), ("default_title", .text), ("pygments_style", .text),
  ("css_files", .texts), ("js_files", .texts), ("nav_hx_boost", .flag)]

lemma keys_eq : keys = settings.map fun s => s.1.toList := rfl

section Values

variable {name : String} {kind : SettingKind} {v : Option Value} {w : Value} {e : ConfigError}

/-- A value that a setting refuses, and the error. -/
inductive SettingKind.Refuses (name : String) : SettingKind → Value → ConfigError → Prop
  | long {v : Value} (h : v.IsTooLong) : Refuses name .text v .tooLong
  | longUrl {v : Value} (h : v.IsTooLong) : Refuses name .url v .tooLong
  | scheme {v : Value} {t : Text} (hnull : v ≠ .null) (ht : v.stripped? = some t) (hne : t ≠ [])
      (h : ∀ s ∈ schemes, ¬ s <+: t) : Refuses name .url v (.badSiteUrl t)
  | item {items : List Value} {v : Value} (hv : v ∈ items) (h : v.IsTooLong) :
      Refuses name .texts (.list items) .tooLong
  | notTexts {v : Value} (hnull : v ≠ .null) (htext : ∀ t, v ≠ .text t)
      (hlist : ∀ items, v ≠ .list items) : Refuses name .texts v (.notTexts name.toList)
  | notFlag {v : Value} (hnull : v ≠ .null) (hbool : ∀ b, v ≠ .bool b) :
      Refuses name .flag v (.notFlag name.toList)

/-- A setting that is null is as good as one that is absent. -/
lemma SettingKind.not_refuses_null : ¬ kind.Refuses name .null e := by
  intro h
  cases h with
  | long h => exact Value.not_isTooLong_null h
  | longUrl h => exact Value.not_isTooLong_null h
  | scheme hnull => exact hnull rfl
  | notTexts hnull => exact hnull rfl
  | notFlag hnull => exact hnull rfl

/-- A setting read only for whether its value is refused. -/
def SettingKind.check (name : String) (v : Option Value) : SettingKind → Except ConfigError Unit
  | .text => (optionalText v).map fun _ => ()
  | .url => (siteUrlOf v).map fun _ => ()
  | .texts => (textsOf name v).map fun _ => ()
  | .flag => (flagOf name v).map fun _ => ()

lemma valueText_eq_error : valueText w = .error e ↔ e = .tooLong ∧ w.IsTooLong := by
  rw [← Value.stripped?_eq_none, valueText]
  cases w.stripped? <;> simp [eq_comm]

lemma valueText_eq_ok {t : Text} : valueText w = .ok t ↔ w.stripped? = some t := by
  rw [valueText]
  cases w.stripped? <;> simp

lemma optionalText_eq_error : optionalText v = .error e ↔ e = .tooLong ∧ ∃ w ∈ v, w.IsTooLong := by
  unfold optionalText
  split
  · simp
  · simp [Value.not_isTooLong_null]
  · rw [except_map_eq_error, valueText_eq_error]
    simp

lemma optionalText_eq_some {t : Text} : optionalText v = .ok (some t) ↔
    ∃ w ∈ v, w ≠ .null ∧ w.stripped? = some t ∧ t ≠ [] := by
  unfold optionalText
  split
  · simp
  · simp
  · rename_i w hnull
    cases hw : valueText w with
    | error e =>
      have hnone := Value.stripped?_eq_none.mpr (valueText_eq_error.mp hw).2
      simp [Except.map, hnone]
    | ok s =>
      have hsome := valueText_eq_ok.mp hw
      have hne : w ≠ .null := fun h => hnull h
      by_cases hs : s = []
      · simp [Except.map, hsome, hs, eq_comm]
      · simp only [Except.map, hsome, List.isEmpty_iff, hs, if_false, Option.mem_def,
          Except.ok.injEq, Option.some.injEq, exists_eq_left']
        exact ⟨fun h => ⟨hne, h, h ▸ hs⟩, fun h => h.2.1⟩

lemma siteUrlOf_eq_error : siteUrlOf v = .error e ↔ ∃ w ∈ v, SettingKind.Refuses name .url w e := by
  unfold siteUrlOf
  rw [except_bind_eq_error]
  constructor
  · rintro (h | ⟨place, hplace, h⟩)
    · obtain ⟨rfl, w, hw, hlong⟩ := optionalText_eq_error.mp h
      exact ⟨w, hw, .longUrl hlong⟩
    · cases place with
      | none => cases h
      | some t =>
        obtain ⟨w, hw, hnull, ht, hne⟩ := optionalText_eq_some.mp hplace
        dsimp only at h
        split at h
        · cases h
        · rename_i hscheme
          cases h
          refine ⟨w, hw, .scheme hnull ht hne fun s hs hlead => hscheme ?_⟩
          exact List.any_eq_true.mpr ⟨s, hs, List.isPrefixOf_iff_prefix.mpr hlead⟩
  · rintro ⟨w, hw, hrefused⟩
    cases hrefused with
    | longUrl hlong => exact .inl (optionalText_eq_error.mpr ⟨rfl, w, hw, hlong⟩)
    | @scheme _ t hnull ht hne h =>
      refine .inr ⟨some t, optionalText_eq_some.mpr ⟨w, hw, hnull, ht, hne⟩, if_neg ?_⟩
      intro hany
      obtain ⟨s, hs, hlead⟩ := List.any_eq_true.mp hany
      exact h s hs (List.isPrefixOf_iff_prefix.mp hlead)

lemma textsOf_eq_error : textsOf name v = .error e ↔
    ∃ w ∈ v, SettingKind.Refuses name .texts w e := by
  unfold textsOf
  split
  · simp
  · simp [SettingKind.not_refuses_null]
  · simp only [reduceCtorEq, Option.mem_def, Option.some.injEq, exists_eq_left', false_iff]
    intro h
    cases h with
    | notTexts _ htext => exact htext _ rfl
  · rename_i items
    rw [except_map_eq_error, mapM_eq_error fun _ _ h => (valueText_eq_error.mp h).1]
    simp only [valueText_eq_error, true_and, Option.mem_def, Option.some.injEq, exists_eq_left']
    constructor
    · rintro ⟨rfl, w, hw, hlong⟩
      exact .item hw hlong
    · intro h
      cases h with
      | item hw hlong => exact ⟨rfl, _, hw, hlong⟩
      | notTexts _ _ hlist => exact absurd rfl (hlist _)
  · rename_i w hnull htext hlist
    simp only [Except.error.injEq, Option.mem_def, Option.some.injEq, exists_eq_left']
    constructor
    · rintro rfl
      exact .notTexts hnull htext hlist
    · intro h
      cases h with
      | item => exact absurd rfl (hlist _)
      | notTexts => rfl

lemma flagOf_eq_error : flagOf name v = .error e ↔ ∃ w ∈ v, SettingKind.Refuses name .flag w e := by
  unfold flagOf
  split
  · simp
  · simp [SettingKind.not_refuses_null]
  · simp only [reduceCtorEq, Option.mem_def, Option.some.injEq, exists_eq_left', false_iff]
    intro h
    cases h with
    | notFlag _ hbool => exact hbool _ rfl
  · rename_i w hnull hbool
    simp only [Except.error.injEq, Option.mem_def, Option.some.injEq, exists_eq_left']
    constructor
    · rintro rfl
      exact .notFlag hnull hbool
    · intro h
      cases h
      rfl

/-- A setting fails at the values that it refuses. -/
lemma SettingKind.check_eq_error : kind.check name v = .error e ↔ ∃ w ∈ v, kind.Refuses name w e := by
  cases kind with
  | text =>
    rw [SettingKind.check, except_map_eq_error, optionalText_eq_error]
    constructor
    · rintro ⟨rfl, w, hw, hlong⟩
      exact ⟨w, hw, .long hlong⟩
    · rintro ⟨w, hw, hrefused⟩
      cases hrefused with
      | long hlong => exact ⟨rfl, w, hw, hlong⟩
  | url => rw [SettingKind.check, except_map_eq_error, siteUrlOf_eq_error]
  | texts => rw [SettingKind.check, except_map_eq_error, textsOf_eq_error]
  | flag => rw [SettingKind.check, except_map_eq_error, flagOf_eq_error]

lemma SettingKind.check_eq_ok : kind.check name v = .ok () ↔ ∀ w ∈ v, ∀ e, ¬ kind.Refuses name w e := by
  cases h : kind.check name v with
  | error e =>
    obtain ⟨w, hw, hrefused⟩ := check_eq_error.mp h
    simp only [reduceCtorEq, false_iff]
    exact fun hnone => hnone w hw e hrefused
  | ok u =>
    simp only [true_iff]
    intro w hw e hrefused
    cases h.symm.trans (check_eq_error.mpr ⟨w, hw, hrefused⟩)

lemma basePathOf_check : (basePathOf v).map (fun _ => ()) = SettingKind.check name v .text := by
  unfold basePathOf SettingKind.check
  cases optionalText v with
  | error e => rfl
  | ok place => cases place <;> rfl

end Values

section Keys

variable {fields : Fields} {key : Value}

/-- Is the key the name of a setting? -/
def isKnown : Value → Bool
  | .text t => settings.any fun s => s.1.toList = t
  | _ => false

lemma any_same_eq_isKnown : (keys.any fun k => key.same (.text k)) = isKnown key := by
  rw [keys_eq, List.any_map, Bool.eq_iff_iff, List.any_eq_true]
  simp only [Function.comp_apply, Value.same_text]
  cases key
  case text t =>
    simp only [isKnown, List.any_eq_true, decide_eq_true_eq, Value.text.injEq, @eq_comm _ t]
  all_goals simp [isKnown]

/-- The names that keys of a map have without being settings, as they are listed. -/
def AreUnknown (fields : Fields) (names : List Text) : Prop :=
  List.Forall₂ (fun f name => f.1 = .text name) (fields.filter fun f => !isKnown f.1) names

/-- The name that the key of an entry is. -/
def nameOf : Value × Value → Except ConfigError Text
  | (.text t, _) => .ok t
  | _ => .error .keyNotText

lemma nameOf_eq_ok {entry : Value × Value} {t : Text} : nameOf entry = .ok t ↔ entry.1 = .text t := by
  obtain ⟨key, w⟩ := entry
  cases key <;> simp [nameOf]

lemma nameOf_eq_error {entry : Value × Value} {e : ConfigError} :
    nameOf entry = .error e ↔ e = .keyNotText ∧ ∀ t, entry.1 ≠ .text t := by
  obtain ⟨key, w⟩ := entry
  cases key <;> simp [nameOf, eq_comm]

lemma unknownKeys_eq : unknownKeys fields =
    ((fields.filter fun f => !isKnown f.1).mapM nameOf).map fun names =>
      names.mergeSort fun a b => !Text.lt b a := by
  unfold unknownKeys
  simp only [any_same_eq_isKnown]
  change (List.mapM nameOf (fields.filter fun f => !isKnown f.1) >>= _) = _
  cases List.mapM nameOf (fields.filter fun f => !isKnown f.1) <;> rfl

lemma areUnknown_nil : AreUnknown fields [] ↔ ∀ f ∈ fields, isKnown f.1 = true := by
  rw [AreUnknown, List.forall₂_nil_right_iff, List.filter_eq_nil_iff]
  simp

/-- The test by which the keys are sorted is the one for their order. -/
lemma not_lt_iff_le {a b : Text} : (!Text.lt b a) = true ↔ id a ≤ id b := by
  rw [Bool.not_eq_true', ← Bool.not_eq_true, Text.lt_iff]
  exact not_lt

lemma unknownKeys_eq_ok {sorted : List Text} : unknownKeys fields = .ok sorted ↔
    ∃ names, AreUnknown fields names ∧ SortedBy id names sorted := by
  have hnames : ∀ names, (fields.filter fun f => !isKnown f.1).mapM nameOf = .ok names ↔
      AreUnknown fields names := by
    intro names
    rw [mapM_ok_iff, AreUnknown]
    simp only [nameOf_eq_ok]
  rw [unknownKeys_eq]
  constructor
  · intro h
    obtain ⟨names, h, hsort⟩ := except_map_ok h
    exact ⟨names, (hnames names).mp h, hsort ▸ sortedBy_mergeSort id (fun _ _ => not_lt_iff_le) names⟩
  · rintro ⟨names, h, hsorted⟩
    rw [(hnames names).mpr h,
      hsorted.unique (sortedBy_mergeSort id (fun _ _ => not_lt_iff_le) names)]
    rfl

lemma unknownKeys_eq_nil : unknownKeys fields = .ok [] ↔ ∀ f ∈ fields, isKnown f.1 = true := by
  rw [unknownKeys_eq_ok, ← areUnknown_nil]
  constructor
  · rintro ⟨names, h, hsorted⟩
    obtain rfl := hsorted.perm.nil_eq
    exact h
  · exact fun h => ⟨[], h, .refl [], .nil, fun _ => rfl⟩

lemma unknownKeys_eq_error {e : ConfigError} : unknownKeys fields = .error e ↔
    e = .keyNotText ∧ ∃ f ∈ fields, ∀ t, f.1 ≠ .text t := by
  rw [unknownKeys_eq, except_map_eq_error, mapM_eq_error fun _ _ h => (nameOf_eq_error.mp h).1]
  refine and_congr_right fun _ => ⟨?_, ?_⟩
  · rintro ⟨f, hf, h⟩
    exact ⟨f, (List.mem_filter.mp hf).1, (nameOf_eq_error.mp h).2⟩
  · rintro ⟨f, hf, h⟩
    have hunknown : isKnown f.1 = false := by
      unfold isKnown
      split
      · exact absurd ‹_› (h _)
      · rfl
    exact ⟨f, List.mem_filter.mpr ⟨hf, by rw [hunknown]; rfl⟩, nameOf_eq_error.mpr ⟨rfl, h⟩⟩

end Keys

section Files

variable {path root text : Text} {fields : Fields} {e : ConfigError}

/-- The settings of a map read only for whether their values are refused. -/
def check (fields : Fields) : Except ConfigError Unit :=
  settings.forM fun s => s.2.check s.1 (fields.get? s.1)

/-- Every setting takes the value that the map has for it. -/
def AllTaken (settings : List (String × SettingKind)) (fields : Fields) : Prop :=
  ∀ s ∈ settings, ∀ w ∈ fields.get? s.1, ∀ e, ¬ s.2.Refuses s.1 w e

/-- The first setting, in the order in which they are read, whose value is refused. -/
def FirstRefused (fields : Fields) (e : ConfigError) : Prop :=
  ∃ before name kind after, settings = before ++ (name, kind) :: after ∧ AllTaken before fields ∧
    ∃ w ∈ fields.get? name, SettingKind.Refuses name kind w e

lemma check_eq_ok : check fields = .ok () ↔ AllTaken settings fields := by
  rw [check, forM_eq_ok, AllTaken]
  simp only [SettingKind.check_eq_ok]

lemma check_eq_error : check fields = .error e ↔ FirstRefused fields e := by
  rw [check, forM_eq_error]
  simp only [SettingKind.check_eq_ok, SettingKind.check_eq_error, Prod.exists]
  rfl

/-- A map whose keys all are settings is read setting by setting. -/
lemma ofFields_check (h : unknownKeys fields = .ok []) :
    (ofFields path root fields).map (fun _ => ()) = check fields := by
  have hdirectory : ∀ v : Option Value,
      ((optionalText v).map fun place => place.map (Place.join root)).map (fun _ => ()) =
        (optionalText v).map fun _ => () := fun v => by cases optionalText v <;> rfl
  unfold ofFields
  rw [h]
  change Except.map _ ((optionalText (fields.get? "content_dir")).map _ >>= _) = _
  refine except_bind_forget (hdirectory _) fun contentDir => ?_
  refine except_bind_forget (hdirectory _) fun outputDir => ?_
  refine except_bind_forget (hdirectory _) fun templatesDir => ?_
  refine except_bind_forget (hdirectory _) fun staticDir => ?_
  refine except_bind_forget basePathOf_check fun basePath => ?_
  refine except_bind_forget rfl fun siteUrl => ?_
  refine except_bind_forget rfl fun defaultTitle => ?_
  refine except_bind_forget rfl fun codeStyle => ?_
  refine except_bind_forget rfl fun styles => ?_
  refine except_bind_forget rfl fun scripts => ?_
  exact except_bind_forget rfl fun boosted => rfl

lemma ofFields_of_unknownKeys (h : unknownKeys fields = .error e) :
    ofFields path root fields = .error e := by
  unfold ofFields
  rw [h]
  rfl

lemma ofFields_of_unknown {sorted : List Text} (h : unknownKeys fields = .ok sorted)
    (hne : sorted ≠ []) : ofFields path root fields = .error (.unknownKeys path sorted) := by
  unfold ofFields
  rw [h]
  cases sorted with
  | nil => exact absurd rfl hne
  | cons name names => rfl

lemma ofFields_eq_error : ofFields path root fields = .error e ↔ unknownKeys fields = .error e ∨
    (∃ sorted, unknownKeys fields = .ok sorted ∧ sorted ≠ [] ∧ e = .unknownKeys path sorted) ∨
    unknownKeys fields = .ok [] ∧ FirstRefused fields e := by
  cases h : unknownKeys fields with
  | error e' => simp [ofFields_of_unknownKeys h]
  | ok sorted =>
    by_cases hne : sorted = []
    · subst hne
      rw [← except_map_eq_error, ofFields_check h, check_eq_error]
      simp
    · simp [ofFields_of_unknown h hne, hne, eq_comm]

lemma ofFields_eq_ok : (∃ c, ofFields path root fields = .ok c) ↔
    (∀ f ∈ fields, isKnown f.1 = true) ∧ AllTaken settings fields := by
  rw [← unknownKeys_eq_nil, ← check_eq_ok]
  constructor
  · rintro ⟨c, hc⟩
    have hnil : unknownKeys fields = .ok [] := by
      cases h : unknownKeys fields with
      | error e => cases hc.symm.trans (ofFields_of_unknownKeys h)
      | ok sorted =>
        by_cases hne : sorted = []
        · rw [hne]
        · cases hc.symm.trans (ofFields_of_unknown h hne)
    have hcheck : (ofFields path root fields).map (fun _ => ()) = check fields := ofFields_check hnil
    rw [← hcheck, hc]
    exact ⟨hnil, rfl⟩
  · rintro ⟨hnil, htaken⟩
    have hcheck : (ofFields path root fields).map (fun _ => ()) = check fields := ofFields_check hnil
    obtain ⟨c, hc, -⟩ := except_map_ok (hcheck.trans htaken)
    exact ⟨c, hc⟩

/-- The map that a text is read as: its own, or an empty one where its value counts as false. -/
inductive Gives (text : Text) : Fields → Prop
  | map {fields : Fields} (h : Yaml.load text = .ok (some (.map fields))) : Gives text fields
  | blank {v : Option Value} (h : Yaml.load text = .ok v) (hfalse : ∀ w ∈ v, w.isTrue = false) :
      Gives text []

/-- What a text has wrong that its author is told of. -/
inductive Fault (path text : Text) : ConfigError → Prop
  | grammar (h : Yaml.load text = .error .malformed) : Fault path text (.malformed path)
  | shape {w : Value} (h : Yaml.load text = .ok (some w)) (htrue : w.isTrue = true)
      (hmap : ∀ fields, w ≠ .map fields) : Fault path text .notMap
  | unknown {fields : Fields} {names sorted : List Text} (h : Gives text fields)
      (hnames : AreUnknown fields names) (hne : names ≠ []) (hsorted : SortedBy id names sorted) :
      Fault path text (.unknownKeys path sorted)
  | setting {fields : Fields} {e : ConfigError} (h : Gives text fields)
      (hknown : ∀ f ∈ fields, isKnown f.1 = true) (hrefused : FirstRefused fields e)
      (hne : e ≠ .tooLong) : Fault path text e

/-- Why a text gives no configuration though nothing of that kind is wrong with it. -/
inductive Stray (text : Text) : ConfigError → Prop
  | yaml {err : Yaml.Error} (h : Yaml.load text = .error err) (hne : err ≠ .malformed) :
      Stray text (.yaml err)
  | key {fields : Fields} {f : Value × Value} (h : Gives text fields) (hf : f ∈ fields)
      (hkey : ∀ t, f.1 ≠ .text t) : Stray text .keyNotText
  | setting {fields : Fields} (h : Gives text fields) (hknown : ∀ f ∈ fields, isKnown f.1 = true)
      (hrefused : FirstRefused fields .tooLong) : Stray text .tooLong

lemma SettingKind.Refuses.isFault {name : String} {kind : SettingKind} {w : Value}
    (h : kind.Refuses name w e) : e.isFault = true ↔ e ≠ .tooLong := by
  cases h <;> simp [ConfigError.isFault]

lemma FirstRefused.isFault (h : FirstRefused fields e) : e.isFault = true ↔ e ≠ .tooLong := by
  obtain ⟨_, _, _, _, _, _, _, _, hrefused⟩ := h
  exact hrefused.isFault

lemma Fault.isFault (h : Fault path text e) : e.isFault = true := by
  cases h with
  | setting _ _ hrefused hne => exact hrefused.isFault.mpr hne
  | _ => rfl

lemma Stray.isFault (h : Stray text e) : e.isFault = false := by
  cases h <;> rfl

/-- A text gives a map, or it has no value, or it has one that is no map and counts as true. -/
lemma gives_or_not (text : Text) : (∃ fields, Gives text fields) ∨
    (∃ err, Yaml.load text = .error err) ∨
    ∃ w, Yaml.load text = .ok (some w) ∧ w.isTrue = true ∧ ∀ fields, w ≠ .map fields := by
  cases hload : Yaml.load text with
  | error err => exact .inr (.inl ⟨err, rfl⟩)
  | ok v =>
    cases v with
    | none => exact .inl ⟨[], .blank hload fun _ hw => by cases hw⟩
    | some w =>
      cases htrue : w.isTrue with
      | false =>
        refine .inl ⟨[], .blank hload fun w' hw => ?_⟩
        obtain rfl := Option.some.inj hw
        exact htrue
      | true =>
        by_cases hmap : ∃ fields, w = .map fields
        · obtain ⟨fields, rfl⟩ := hmap
          exact .inl ⟨fields, .map hload⟩
        · exact .inr (.inr ⟨w, rfl, htrue, fun fields h => hmap ⟨fields, h⟩⟩)

lemma ofText_of_gives (h : Gives text fields) : ofText path root text = ofFields path root fields := by
  unfold ofText
  cases h with
  | map h =>
    rw [h]
    cases fields <;> rfl
  | @blank v h hfalse =>
    have hnone : v.filter Value.isTrue = none :=
      Option.filter_eq_none_iff.mpr fun w hw => by simp [hfalse w hw]
    simp only [h, hnone]

lemma ofText_of_load {err : Yaml.Error} (h : Yaml.load text = .error err) (hne : err ≠ .malformed) :
    ofText path root text = .error (.yaml err) := by
  unfold ofText
  rw [h]
  cases err <;> first | rfl | exact absurd rfl hne

lemma ofText_of_malformed (h : Yaml.load text = .error .malformed) :
    ofText path root text = .error (.malformed path) := by
  unfold ofText
  rw [h]

lemma ofText_of_shape {w : Value} (h : Yaml.load text = .ok (some w)) (htrue : w.isTrue = true)
    (hmap : ∀ fields, w ≠ .map fields) : ofText path root text = .error .notMap := by
  unfold ofText
  simp only [h, Option.filter_some, htrue, if_true]

lemma ofText_eq_ok : (∃ c, ofText path root text = .ok c) ↔ ∃ fields, Gives text fields ∧
    (∀ f ∈ fields, isKnown f.1 = true) ∧ AllTaken settings fields := by
  constructor
  · rintro ⟨c, hc⟩
    rcases gives_or_not text with ⟨fields, h⟩ | ⟨err, h⟩ | ⟨w, h, htrue, hmap⟩
    · exact ⟨fields, h, ofFields_eq_ok.mp ⟨c, ofText_of_gives h ▸ hc⟩⟩
    · by_cases hne : err = .malformed
      · cases hc.symm.trans (ofText_of_malformed (hne ▸ h))
      · cases hc.symm.trans (ofText_of_load h hne)
    · cases hc.symm.trans (ofText_of_shape h htrue hmap)
  · rintro ⟨fields, h, hfields⟩
    rw [ofText_of_gives h]
    exact ofFields_eq_ok.mpr hfields

lemma ofText_eq_error : ofText path root text = .error e ↔ Fault path text e ∨ Stray text e := by
  constructor
  · intro he
    rcases gives_or_not text with ⟨fields, h⟩ | ⟨err, h⟩ | ⟨w, h, htrue, hmap⟩
    · rw [ofText_of_gives h, ofFields_eq_error] at he
      rcases he with he | ⟨sorted, hsorted, hne, rfl⟩ | ⟨hnil, hrefused⟩
      · obtain ⟨rfl, f, hf, hkey⟩ := unknownKeys_eq_error.mp he
        exact .inr (.key h hf hkey)
      · obtain ⟨names, hnames, hsorted⟩ := unknownKeys_eq_ok.mp hsorted
        refine .inl (.unknown h hnames (fun hnil => hne ?_) hsorted)
        exact (hnil ▸ hsorted.perm).eq_nil
      · have hknown := unknownKeys_eq_nil.mp hnil
        by_cases hlong : e = .tooLong
        · exact .inr (hlong ▸ .setting h hknown (hlong ▸ hrefused))
        · exact .inl (.setting h hknown hrefused hlong)
    · by_cases hne : err = .malformed
      · obtain rfl := Except.error.inj (he.symm.trans (ofText_of_malformed (hne ▸ h)))
        exact .inl (.grammar (hne ▸ h))
      · obtain rfl := Except.error.inj (he.symm.trans (ofText_of_load h hne))
        exact .inr (.yaml h hne)
    · obtain rfl := Except.error.inj (he.symm.trans (ofText_of_shape h htrue hmap))
      exact .inl (.shape h htrue hmap)
  · rintro (h | h)
    · cases h with
      | grammar h => exact ofText_of_malformed h
      | shape h htrue hmap => exact ofText_of_shape h htrue hmap
      | @unknown fields names sorted h hnames hne hsorted =>
        rw [ofText_of_gives h]
        refine ofFields_of_unknown (unknownKeys_eq_ok.mpr ⟨names, hnames, hsorted⟩) fun hnil => hne ?_
        exact (hnil ▸ hsorted.perm).nil_eq.symm
      | setting h hknown hrefused =>
        rw [ofText_of_gives h, ofFields_eq_error]
        exact .inr (.inr ⟨unknownKeys_eq_nil.mpr hknown, hrefused⟩)
    · cases h with
      | yaml h hne => exact ofText_of_load h hne
      | key h hf hkey =>
        rw [ofText_of_gives h, ofFields_eq_error]
        exact .inl (unknownKeys_eq_error.mpr ⟨rfl, _, hf, hkey⟩)
      | setting h hknown hrefused =>
        rw [ofText_of_gives h, ofFields_eq_error]
        exact .inr (.inr ⟨unknownKeys_eq_nil.mpr hknown, hrefused⟩)

/-- A file gives a configuration exactly where its map, or the empty one in place of a value that
counts as false, has settings only and each of them takes its value. Its author is told of every
fault and of nothing else; a key that is no text, an integer too long for a text and a value that
does not exist end the reading otherwise, and they always do. -/
theorem ofFile_reports {working path t : Text} {tree : FileTree}
    (h : tree.read? (Place.locate working (Place.clean path)) = some (.text t)) :
    ((∃ c, ofFile working tree path = .ok c) ↔ ∃ fields, Gives (Text.unifyReturns t) fields ∧
      (∀ f ∈ fields, isKnown f.1 = true) ∧ AllTaken settings fields) ∧
    ∀ e, (e.isFault = true → (ofFile working tree path = .error e ↔
        Fault (Place.clean path) (Text.unifyReturns t) e)) ∧
      (e.isFault = false → (ofFile working tree path = .error e ↔ Stray (Text.unifyReturns t) e)) := by
  have hfile : ofFile working tree path = ofText (Place.clean path)
      (Place.parent working (Place.clean path)) (Text.unifyReturns t) := by
    unfold ofFile
    simp only [h]
  rw [hfile]
  refine ⟨ofText_eq_ok, fun e => ⟨fun he => ?_, fun he => ?_⟩⟩
  · refine ofText_eq_error.trans (or_iff_left fun hstray => ?_)
    cases he.symm.trans hstray.isFault
  · refine ofText_eq_error.trans (or_iff_right fun hfault => ?_)
    cases he.symm.trans hfault.isFault

/-- A directory with nothing in it but the usual configuration file. -/
def siteOf (t : Text) : FileTree := FileTree.empty.set (Place.locate [] usualFile) (.text t)

theorem ofFile_reports_numberKey :
    (∃ c fields, ofFile [] (siteOf "[]".toList) usualFile = .ok c ∧
      Gives (Text.unifyReturns "[]".toList) fields) ∧
    ∃ e, ofFile [] (siteOf "1: a".toList) usualFile = .error e ∧ e.isFault = false ∧
      Stray (Text.unifyReturns "1: a".toList) e := by
  have hread : ∀ t, (siteOf t).read? (Place.locate [] (Place.clean usualFile)) = some (.text t) := by
    intro t
    have hname : Place.clean usualFile = usualFile := by decide
    rw [hname, siteOf, FileTree.read?_set, if_pos rfl]
  constructor
  · have hok : ∀ r : Except ConfigError Config, r.isOk = true → ∃ c, r = .ok c := by
      rintro (e | c) h
      · cases h
      · exact ⟨c, rfl⟩
    obtain ⟨c, hfile⟩ := hok (ofFile [] (siteOf "[]".toList) usualFile) (by decide +kernel)
    obtain ⟨fields, hgives, -⟩ := (ofFile_reports (hread _)).1.mp ⟨c, hfile⟩
    exact ⟨c, fields, hfile, hgives⟩
  · have hrun : (match ofFile [] (siteOf "1: a".toList) usualFile with
        | .error e => !e.isFault
        | .ok _ => false) = true := by decide +kernel
    split at hrun
    · rename_i e hfile
      have hfault : e.isFault = false := by simpa using hrun
      exact ⟨e, hfile, hfault, (((ofFile_reports (hread _)).2 e).2 hfault).mp hfile⟩
    · cases hrun

end Files

end Config

end Sitewright
