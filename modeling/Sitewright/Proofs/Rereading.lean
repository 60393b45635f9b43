import Mathlib.Data.List.DropRight
import Sitewright.Proofs.Settings

/-!
The base path and the address of the site, read and then read again. White space is taken off before the
slashes at the end, so white space in front of those slashes comes to the end of the result. Where this
happens, or nothing but a scheme is left of an address, a second reading gives something else; otherwise
it gives the same.
-/
namespace Sitewright

namespace Text

variable {p : Char → Bool} {t : Text}

lemma dropEndWhile_eq_self_iff : dropEndWhile p t = t ↔ ∀ c ∈ t.getLast?, p c = false := by
  have hself : dropEndWhile p t = t ↔ ∀ h : t ≠ [], ¬ p (t.getLast h) = true := List.rdropWhile_eq_self_iff
  rw [hself]
  cases ht : t.getLast? with
  | none => simp [List.getLast?_eq_none_iff.mp ht]
  | some c =>
    obtain ⟨s, rfl⟩ := List.getLast?_eq_some_iff.mp ht
    simp

lemma getLast?_dropEndWhile : ∀ c ∈ (dropEndWhile p t).getLast?, p c = false :=
  dropEndWhile_eq_self_iff.mp (List.rdropWhile_idempotent p t)

lemma dropEndWhile_prefix (p : Char → Bool) (t : Text) : dropEndWhile p t <+: t :=
  List.rdropWhile_prefix p t

lemma dropEndWhile_append (a b : Text) : dropEndWhile p (a ++ b) =
    if dropEndWhile p b = [] then dropEndWhile p a else a ++ dropEndWhile p b := by
  simp only [dropEndWhile, List.reverse_append, List.dropWhile_append, List.isEmpty_iff,
    List.reverse_eq_nil_iff]
  split <;> simp

/-- What is left between the ends stands behind what is dropped in front. -/
lemma dropEndWhile_eq (h : trim p t ≠ []) : dropEndWhile p t = t.takeWhile p ++ trim p t := by
  have hhead := List.head?_dropWhile_not p t
  rw [trim] at h ⊢
  cases hrest : t.dropWhile p with
  | nil =>
    rw [hrest] at h
    exact absurd rfl h
  | cons c cs =>
    have hc : p c = false := by simpa [hrest] using hhead
    have hstop := fun a : Text => dropEndWhile_append_stop (List.cons_ne_nil c [])
      (by simpa using hc) a cs
    have hsplit : t = t.takeWhile p ++ ([c] ++ cs) := by
      rw [List.singleton_append, ← hrest, List.takeWhile_append_dropWhile]
    exact (congrArg (dropEndWhile p) hsplit).trans
      ((hstop _).trans (congrArg (t.takeWhile p ++ ·) (hstop []).symm))

lemma dropEndWhile_eq_nil_of_trim (h : trim p t = []) : dropEndWhile p t = [] := by
  have hrest : ∀ c ∈ t.dropWhile p, p c = true := List.rdropWhile_eq_nil_iff.mp h
  refine List.rdropWhile_eq_nil_iff.mpr fun c hc => ?_
  rw [← List.takeWhile_append_dropWhile (p := p) (l := t), List.mem_append] at hc
  exact hc.elim List.mem_takeWhile_imp (hrest c)

lemma head?_trim : ∀ c ∈ (trim p t).head?, p c = false := by
  intro c hc
  obtain ⟨cs, hcs⟩ := List.head?_eq_some_iff.mp hc
  obtain ⟨back, hback⟩ := dropEndWhile_prefix p (t.dropWhile p)
  have hhead := List.head?_dropWhile_not p t
  rw [← hback, ← trim, hcs, List.cons_append, List.head?_cons] at hhead
  exact hhead

lemma trim_eq_self (hhead : ∀ c ∈ t.head?, p c = false) (hlast : ∀ c ∈ t.getLast?, p c = false) :
    trim p t = t := by
  have hfront : t.dropWhile p = t := dropWhile_of_all (List.forall_mem_nil _) hhead
  rw [trim, hfront, dropEndWhile_eq_self_iff.mpr hlast]

/-- The text ends in white space. -/
def EndsBlank (t : Text) : Prop := ∃ c ∈ t.getLast?, isBlank c = true

/-- The text ends in slashes with white space in front of them. -/
def EndsLoose (t : Text) : Prop :=
  ∃ front c n, isBlank c = true ∧ t = front ++ c :: List.replicate (n + 1) '/'

lemma EndsLoose.getLast? (h : EndsLoose t) : t.getLast? = some '/' := by
  obtain ⟨front, c, n, -, rfl⟩ := h
  rw [List.replicate_succ', ← List.cons_append, ← List.append_assoc]
  exact List.getLast?_concat

lemma not_endsBlank_iff : ¬ EndsBlank t ↔ dropEndWhile isBlank t = t := by
  rw [dropEndWhile_eq_self_iff, EndsBlank]
  simp

lemma not_endsBlank_of_trimmed (h : Trimmed t) : ¬ EndsBlank t := by
  rintro ⟨c, hc, hblank⟩
  cases hblank.symm.trans (h.2 c hc)

lemma not_endsBlank_nil : ¬ EndsBlank [] := by
  rintro ⟨c, hc, -⟩
  cases hc

/-- What is dropped from the end are slashes. -/
lemma exists_eq_dropEndWhile (t : Text) : ∃ n, t = dropEndWhile (· = '/') t ++ List.replicate n '/' := by
  have hslashes : List.rtakeWhile (· = '/') t = List.replicate (List.rtakeWhile (· = '/') t).length '/' :=
    List.eq_replicate_of_mem fun c hc => by simpa using List.mem_rtakeWhile_imp hc
  refine ⟨(List.rtakeWhile (· = '/') t).length, ?_⟩
  rw [← hslashes]
  exact List.rdropWhile_append_rtakeWhile.symm

/-- White space comes to the end of a text just if the slashes behind it are dropped. -/
lemma endsBlank_dropEndWhile_iff (h : Trimmed t) : EndsBlank (dropEndWhile (· = '/') t) ↔ EndsLoose t := by
  constructor
  · rintro ⟨c, hc, hblank⟩
    obtain ⟨front, hfront⟩ := List.getLast?_eq_some_iff.mp hc
    obtain ⟨n, hn⟩ := exists_eq_dropEndWhile t
    rw [hfront] at hn
    cases n with
    | zero =>
      rw [List.replicate_zero, List.append_nil] at hn
      exact absurd ⟨c, by rw [hn]; exact List.getLast?_concat, hblank⟩ (not_endsBlank_of_trimmed h)
    | succ n => exact ⟨front, c, n, hblank, by rw [hn, List.append_assoc, List.singleton_append]⟩
  · rintro ⟨front, c, n, hblank, rfl⟩
    have hc : c ≠ '/' := by
      rintro rfl
      cases hblank
    have hslashes : dropEndWhile (· = '/') (List.replicate (n + 1) '/') = [] :=
      List.rdropWhile_eq_nil_iff.mpr fun d hd => by simpa using List.eq_of_mem_replicate hd
    have hdrop := dropEndWhile_append_stop (p := (· = '/')) (List.cons_ne_nil c [])
      (by simpa using hc) front (List.replicate (n + 1) '/')
    rw [hslashes, List.append_nil, List.singleton_append] at hdrop
    rw [hdrop]
    exact ⟨c, List.getLast?_concat, hblank⟩

end Text

namespace Config
open Text (EndsBlank EndsLoose Trimmed dropEndWhile dropEndWhile_append trim)

variable {v : Option Value} {t : Text}

lemma optionalText_text (t : Text) :
    optionalText (some (.text t)) = .ok (if (Text.strip t).isEmpty then none else some (Text.strip t)) := rfl

/-- Slashes end a setting behind white space. -/
def IsLoose (v : Option Value) : Prop := ∃ w ∈ v, ∃ t ∈ w.stripped?, EndsLoose t

lemma isLoose_iff (h : optionalText v = .ok (some t)) : IsLoose v ↔ EndsLoose t := by
  obtain ⟨w, rfl, -, ht, -⟩ := optionalText_eq_some.mp h
  simp [IsLoose, ht]

/-- A setting without a text is not loose. -/
lemma not_isLoose_of_none (h : optionalText v = .ok none) : ¬ IsLoose v := by
  rintro ⟨w, hw, t, ht, hloose⟩
  have hlast := hloose.getLast?
  by_cases hnull : w = .null
  · subst hnull
    cases ht
    revert hlast
    decide
  · have hne : t ≠ [] := by
      rintro rfl
      cases hlast
    cases h.symm.trans (optionalText_eq_some.mpr ⟨w, hw, hnull, ht, hne⟩)

/-- A text of a setting has no white space at its ends. -/
lemma trimmed_of_optionalText (h : optionalText v = .ok (some t)) : Trimmed t := by
  obtain ⟨w, -, -, ht, -⟩ := optionalText_eq_some.mp h
  exact Value.trimmed_of_stripped? ht

section BasePath

variable {path : Text}

/-- The base path that a text gives. -/
def baseOf (t : Text) : Text := if trim (· = '/') t = [] then [] else '/' :: trim (· = '/') t

lemma basePathOf_eq (v : Option Value) :
    basePathOf v = (optionalText v).map fun place => place.elim [] baseOf := by
  unfold basePathOf
  cases optionalText v with
  | error e => rfl
  | ok place =>
    cases place with
    | none => rfl
    | some t => simp [bind, Except.bind, pure, Except.pure, Except.map, baseOf]

lemma basePathOf_eq_error {e : ConfigError} : basePathOf v = .error e ↔
    e = .tooLong ∧ ∃ w ∈ v, w.IsTooLong := by
  rw [basePathOf_eq, except_map_eq_error, optionalText_eq_error]

/-- A base path is read from every setting but one with an integer that is too long for a text. -/
lemma exists_basePathOf : (∃ path, basePathOf v = .ok path) ↔ ∀ w ∈ v, ¬ w.IsTooLong := by
  cases hread : basePathOf v with
  | error e =>
    obtain ⟨-, w, hw, hlong⟩ := basePathOf_eq_error.mp hread
    simp only [reduceCtorEq, exists_false, false_iff]
    exact fun hnone => hnone w hw hlong
  | ok path =>
    simp only [Except.ok.injEq, exists_eq', true_iff]
    intro w hw hlong
    cases hread.symm.trans (basePathOf_eq_error.mpr ⟨rfl, w, hw, hlong⟩)

lemma basePathOf_eq_ok : basePathOf v = .ok path ↔
    optionalText v = .ok none ∧ path = [] ∨ ∃ t, optionalText v = .ok (some t) ∧ path = baseOf t := by
  rw [basePathOf_eq]
  cases optionalText v with
  | error e => simp [Except.map]
  | ok place => cases place <;> simp [Except.map, eq_comm]

/-- A base path is empty, or a slash and a path without slashes at its ends. -/
def IsBasePath (path : Text) : Prop := path = [] ∨ ∃ inner, path = '/' :: inner ∧ inner ≠ [] ∧
  (∀ c ∈ inner.head?, c ≠ '/') ∧ ∀ c ∈ inner.getLast?, c ≠ '/'

lemma isBasePath_baseOf (t : Text) : IsBasePath (baseOf t) := by
  unfold baseOf
  split
  · exact .inl rfl
  · rename_i hne
    refine .inr ⟨_, rfl, hne, fun c hc => ?_, fun c hc => ?_⟩
    · exact of_decide_eq_false (Text.head?_trim c hc)
    · exact of_decide_eq_false (Text.getLast?_dropEndWhile c hc)

lemma endsBlank_baseOf_iff (h : Trimmed t) : EndsBlank (baseOf t) ↔ EndsLoose t := by
  rw [← Text.endsBlank_dropEndWhile_iff h, baseOf, EndsBlank, EndsBlank]
  split
  · rename_i hnil
    rw [Text.dropEndWhile_eq_nil_of_trim hnil]
  · rename_i hne
    rw [Text.dropEndWhile_eq hne, List.getLast?_append_of_ne_nil _ hne, List.getLast?_cons_of_ne_nil hne]

lemma length_trim_le (p : Char → Bool) (t : Text) : (trim p t).length ≤ t.length :=
  (Text.dropEndWhile_prefix p _).length_le.trans (List.dropWhile_suffix p).length_le

/-- The slash in front of a base path keeps white space behind it, so only white space at its end is
lost when it is read again. -/
lemma basePathOf_slash {inner : Text} (hne : inner ≠ []) (hhead : ∀ c ∈ inner.head?, c ≠ '/')
    (hlast : ∀ c ∈ inner.getLast?, c ≠ '/') :
    basePathOf (some (.text ('/' :: inner))) = .ok ('/' :: inner) ↔ ¬ EndsBlank ('/' :: inner) := by
  obtain ⟨kept, hkept⟩ : ∃ kept, kept = dropEndWhile Text.isBlank inner := ⟨_, rfl⟩
  have hprefix : kept <+: inner := hkept ▸ Text.dropEndWhile_prefix _ _
  have hslashStays : ∀ c ∈ ['/'].getLast?, Text.isBlank c = false := by
    rintro c ⟨⟩
    rfl
  have hend : dropEndWhile Text.isBlank ('/' :: inner) = '/' :: kept := by
    rw [hkept]
    exact Text.dropEndWhile_append_stop (List.cons_ne_nil '/' []) hslashStays [] inner
  have hstrip : Text.strip ('/' :: inner) = '/' :: kept := hend
  have hread : basePathOf (some (.text ('/' :: inner))) = .ok (baseOf ('/' :: kept)) := by
    rw [basePathOf_eq, optionalText_text, hstrip]
    rfl
  have hslash : trim (· = '/') ('/' :: kept) = trim (· = '/') kept := rfl
  have hself : trim (· = '/') inner = inner := Text.trim_eq_self
    (fun c hc => decide_eq_false (hhead c hc)) (fun c hc => decide_eq_false (hlast c hc))
  rw [hread, Text.not_endsBlank_iff, hend, baseOf, hslash, Except.ok.injEq, List.cons.injEq,
    and_iff_right rfl]
  constructor
  · intro h
    split at h
    · cases h
    · have hlength := length_trim_le (· = '/') kept
      rw [(List.cons.inj h).2] at hlength
      exact hprefix.eq_of_length_le hlength
  · intro h
    rw [h, hself, if_neg hne]

lemma basePathOf_path (h : IsBasePath path) :
    basePathOf (some (.text path)) = .ok path ↔ ¬ EndsBlank path := by
  obtain rfl | ⟨inner, rfl, hne, hhead, hlast⟩ := h
  · exact iff_of_true rfl Text.not_endsBlank_nil
  · exact basePathOf_slash hne hhead hlast

end BasePath

section SiteUrl

variable {url : Text}

/-- The text begins with a scheme of an absolute address. -/
def HasScheme (t : Text) : Prop := ∃ s ∈ schemes, s <+: t

lemma mem_schemes {s : Text} : s ∈ schemes ↔ s = "http://".toList ∨ s = "https://".toList := by
  simp [schemes]

lemma siteUrlOf_eq_some : siteUrlOf v = .ok (some url) ↔
    ∃ t, optionalText v = .ok (some t) ∧ HasScheme t ∧ url = dropEndWhile (· = '/') t := by
  have hscheme : ∀ t, (schemes.any fun s => s.isPrefixOf t) = true ↔ HasScheme t := fun t => by
    simp [HasScheme]
  unfold siteUrlOf
  cases optionalText v with
  | error e => simp [bind, Except.bind]
  | ok place =>
    cases place with
    | none => simp [bind, Except.bind, pure, Except.pure]
    | some t =>
      by_cases h : HasScheme t
      · simp [bind, Except.bind, pure, Except.pure, hscheme, h, eq_comm]
      · simp [bind, Except.bind, throw, throwThe, MonadExceptOf.throw, hscheme, h]

/-- An address loses its scheme with the slashes just if it is nothing else. -/
lemma hasScheme_dropEndWhile (h : HasScheme t) : HasScheme (dropEndWhile (· = '/') t) ↔
    dropEndWhile (· = '/') t ∉ ["http:".toList, "https:".toList] := by
  obtain ⟨s, hs, rest, rfl⟩ := h
  have hbare : ∀ s ∈ schemes, dropEndWhile (· = '/') s ∈ ["http:".toList, "https:".toList] ∧
      ¬ HasScheme (dropEndWhile (· = '/') s) := by unfold HasScheme; decide
  have hlonger : ∀ x, s ++ x ∉ ["http:".toList, "https:".toList] := by
    rcases mem_schemes.mp hs with rfl | rfl <;> simp
  rw [dropEndWhile_append]
  split
  · exact iff_of_false (hbare s hs).2 (not_not_intro (hbare s hs).1)
  · exact iff_of_true ⟨s, hs, List.prefix_append _ _⟩ (hlonger _)

lemma head?_of_hasScheme (h : HasScheme t) : t.head? = some 'h' := by
  obtain ⟨s, hs, rest, rfl⟩ := h
  rcases mem_schemes.mp hs with rfl | rfl <;> rfl

/-- An address is read as itself if it still has its scheme and no white space at its end. -/
lemma siteUrlOf_url (hlast : ∀ c ∈ url.getLast?, c ≠ '/') :
    siteUrlOf (some (.text url)) = .ok (some url) ↔ HasScheme url ∧ ¬ EndsBlank url := by
  rw [siteUrlOf_eq_some, optionalText_text]
  constructor
  · rintro ⟨t, ht, hscheme, hurl⟩
    have hstrip : Text.strip url = t := by
      split at ht
      · cases ht
      · exact Option.some.inj (Except.ok.inj ht)
    have hprefix : url <+: t := hurl ▸ Text.dropEndWhile_prefix _ t
    obtain rfl := hprefix.eq_of_length_le (hstrip ▸ length_trim_le Text.isBlank url)
    obtain ⟨-, -, -, htrimmed, -, -⟩ := Text.exists_strip url
    exact ⟨hscheme, Text.not_endsBlank_of_trimmed (hstrip ▸ htrimmed)⟩
  · rintro ⟨hscheme, hblank⟩
    have htrimmed : Trimmed url := by
      refine ⟨?_, Text.dropEndWhile_eq_self_iff.mp (Text.not_endsBlank_iff.mp hblank)⟩
      rw [head?_of_hasScheme hscheme]
      rintro c ⟨⟩
      rfl
    have hself : dropEndWhile (· = '/') url = url :=
      Text.dropEndWhile_eq_self_iff.mpr fun c hc => decide_eq_false (hlast c hc)
    have hne : url.isEmpty = false := by
      obtain ⟨cs, rfl⟩ := List.head?_eq_some_iff.mp (head?_of_hasScheme hscheme)
      rfl
    rw [Text.strip_of_trimmed htrimmed, hne]
    exact ⟨url, rfl, hscheme, hself.symm⟩

end SiteUrl

/-- A base path is read from every setting but one with an integer that is too long for a text. White
space ends it, or the address of a site, just if slashes end the setting behind white space, and an address
loses its scheme just if it is nothing else; unless one of these happens, what is read is read again as
it is. -/
theorem basePathOf_siteUrlOf_reread (v : Option Value) :
    ((∃ path, basePathOf v = .ok path) ↔ ∀ w ∈ v, ¬ w.IsTooLong) ∧
    (∀ path, basePathOf v = .ok path → IsBasePath path ∧ (EndsBlank path ↔ IsLoose v) ∧
      (basePathOf (some (.text path)) = .ok path ↔ ¬ EndsBlank path)) ∧
    ∀ url, siteUrlOf v = .ok (some url) → (∀ c ∈ url.getLast?, c ≠ '/') ∧ (EndsBlank url ↔ IsLoose v) ∧
      (HasScheme url ↔ url ∉ ["http:".toList, "https:".toList]) ∧
      (siteUrlOf (some (.text url)) = .ok (some url) ↔ HasScheme url ∧ ¬ EndsBlank url) := by
  refine ⟨exists_basePathOf, fun path hpath => ?_, fun url hurl => ?_⟩
  · rcases basePathOf_eq_ok.mp hpath with ⟨hnone, rfl⟩ | ⟨t, ht, rfl⟩
    · exact ⟨.inl rfl, iff_of_false Text.not_endsBlank_nil (not_isLoose_of_none hnone), basePathOf_path (.inl rfl)⟩
    · refine ⟨isBasePath_baseOf t, ?_, basePathOf_path (isBasePath_baseOf t)⟩
      rw [isLoose_iff ht, endsBlank_baseOf_iff (trimmed_of_optionalText ht)]
  · obtain ⟨t, ht, hscheme, rfl⟩ := siteUrlOf_eq_some.mp hurl
    have hlast : ∀ c ∈ (dropEndWhile (· = '/') t).getLast?, c ≠ '/' := fun c hc =>
      of_decide_eq_false (Text.getLast?_dropEndWhile c hc)
    refine ⟨hlast, ?_, hasScheme_dropEndWhile hscheme, siteUrlOf_url hlast⟩
    rw [isLoose_iff ht, Text.endsBlank_dropEndWhile_iff (trimmed_of_optionalText ht)]

/-- An address whose last slash stands behind white space. -/
def looseUrl : Value := .text "https://x /".toList

theorem basePathOf_siteUrlOf_reread_looseUrl :
    siteUrlOf (some looseUrl) = .ok (some "https://x ".toList) ∧ IsLoose (some looseUrl) ∧
      siteUrlOf (some (.text "https://x ".toList)) ≠ .ok (some "https://x ".toList) ∧
      basePathOf (some looseUrl) = .ok "/https://x ".toList ∧
      basePathOf (some (.text "/https://x ".toList)) ≠ .ok "/https://x ".toList := by
  have hsite : siteUrlOf (some looseUrl) = .ok (some "https://x ".toList) := rfl
  have hbase : basePathOf (some looseUrl) = .ok "/https://x ".toList := rfl
  have hblank : EndsBlank "https://x ".toList := ⟨' ', rfl, by decide⟩
  have hblank' : EndsBlank "/https://x ".toList := ⟨' ', rfl, by decide⟩
  obtain ⟨-, hpath, hurl⟩ := basePathOf_siteUrlOf_reread (some looseUrl)
  obtain ⟨-, hloose, -, hagain⟩ := hurl _ hsite
  obtain ⟨-, -, hagain'⟩ := hpath _ hbase
  exact ⟨hsite, hloose.mp hblank, fun h => (hagain.mp h).2 hblank, hbase,
    fun h => hagain'.mp h hblank'⟩

end Config

end Sitewright
