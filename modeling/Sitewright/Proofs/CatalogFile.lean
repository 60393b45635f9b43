import Sitewright.Catalog
import Sitewright.Proofs.Iso
import Sitewright.Proofs.Json

/-!
The file that browsers read the catalog from. Reading it as JSON gives back what is said of every
page: its texts character by character, whatever they hold, and its date.
-/
namespace Sitewright.Catalog
open Json

section Strings

lemma unit?_ofHex {n : ℕ} (h : n < 32) (rest : Text) : unit? (Text.ofHex 4 n ++ rest) = some (n, rest) := by
  have hlength : ∀ n < 32, (Text.ofHex 4 n).length = 4 := by decide
  have hdigits : ∀ n < 32, ((Text.ofHex 4 n).mapM Text.hexValue?).map (Text.natOfDigits 16) = some n := by
    decide
  obtain ⟨ds, hds, hn⟩ := Option.map_eq_some_iff.mp (hdigits n h)
  have hshort : ¬ (Text.ofHex 4 n ++ rest).length < 4 := by
    rw [List.length_append, hlength n h]
    omega
  rw [unit?, if_neg hshort, List.take_left' (hlength n h), List.drop_left' (hlength n h), hds,
    Option.map_some, hn]

/-- A character inside a string is read as it was written, in whichever of its forms. -/
lemma char?_jsonChar (c : Char) (rest : Text) : char? (jsonChar c ++ rest) = some (c, rest) := by
  have hnumber : ∀ n, c.toNat = n → Char.ofNat n = c := by
    rintro n rfl
    exact Char.ofNat_toNat c
  unfold jsonChar
  split_ifs with hself hn hr ht hb hf hcontrol
  · simp only [Bool.or_eq_true, decide_eq_true_eq] at hself
    rcases hself with rfl | rfl <;> rfl
  · subst hn; rfl
  · subst hr; rfl
  · subst ht; rfl
  · rw [← hnumber 8 hb]; rfl
  · rw [← hnumber 12 hf]; rfl
  · have hsmall : c.toNat < 0xD800 := by omega
    simp only [List.cons_append, char?, if_true, numbered?, unit?_ofHex hcontrol, Option.bind_some,
      hsmall, decide_true, Bool.true_or, hnumber _ rfl]
  · simp only [Bool.or_eq_true, decide_eq_true_eq, not_or] at hself
    simp only [List.singleton_append, char?, hself.2, hcontrol, if_false]

/-- No form of a character starts with the quote that closes a string. -/
lemma head?_jsonChar_ne (c : Char) (rest : Text) : (jsonChar c ++ rest).head? ≠ some '"' := by
  unfold jsonChar
  split_ifs with hself
  all_goals simp_all

lemma chars?_flatMap (t rest : Text) {n : ℕ} (hn : t.length < n) :
    chars? n (t.flatMap jsonChar ++ '"' :: rest) = some (t, rest) := by
  induction t generalizing n with
  | nil =>
    obtain ⟨m, rfl⟩ := Nat.exists_eq_add_one_of_ne_zero (Nat.ne_of_gt hn)
    rfl
  | cons c cs ih =>
    obtain ⟨m, rfl⟩ := Nat.exists_eq_add_one_of_ne_zero (Nat.ne_of_gt (Nat.zero_lt_of_lt hn))
    rw [List.flatMap_cons, List.append_assoc, chars?, if_neg (head?_jsonChar_ne c _), char?_jsonChar,
      Option.bind_some]
    simp only [ih (Nat.lt_of_succ_lt_succ hn), Option.map_some]

lemma length_le_flatMap (t : Text) : t.length ≤ (t.flatMap jsonChar).length := by
  induction t with
  | nil => exact Nat.le_refl 0
  | cons c cs ih =>
    have hne : jsonChar c ≠ [] := by
      intro hnil
      have hread := char?_jsonChar c []
      rw [hnil] at hread
      cases hread
    have hpos := List.length_pos_iff.mpr hne
    rw [List.flatMap_cons, List.length_append, List.length_cons]
    omega

/-- A string is read as the text that was written. -/
lemma string?_jsonText (t rest : Text) : string? (jsonText t ++ rest) = some (t, rest) := by
  have hlength := length_le_flatMap t
  rw [jsonText, List.cons_append, List.cons_append, List.append_assoc, string?]
  apply chars?_flatMap
  simp only [List.length_append, List.length_cons]
  omega

end Strings

section Values

variable {n : ℕ}

lemma reads_jsonText (t : Text) : Reads (value? (n + 1)) (jsonText t) (.string t) :=
  reads_string fun rest => string?_jsonText t rest

lemma reads_jsonField (name : String) {valueText : Text} {v : Json}
    (h : Reads (value? n) valueText v) :
    Reads (field? (value? n)) (jsonField name valueText) (name.toList, v) :=
  reads_field (fun rest => string?_jsonText name.toList rest) h

lemma reads_labels (labels : List Text) :
    Reads (value? (n + 2)) (jsonArray (labels.map jsonText)) (.array (labels.map .string)) := by
  apply reads_array
  rw [List.forall₂_map_left_iff, List.forall₂_map_right_iff, List.forall₂_same]
  exact fun t _ => reads_jsonText t

lemma reads_date (date : Option Text) :
    Reads (value? (n + 1)) ((date.map jsonText).getD "null".toList)
      ((date.map .string).getD .null) := by
  cases date with
  | none => exact reads_null
  | some t => exact reads_jsonText t

/-- What the file says of an entry. -/
def entryJson (e : Entry) : Json := .object [
  ("url".toList, .string e.url),
  ("title".toList, .string e.title),
  ("description".toList, .string e.description),
  ("labels".toList, .array (e.labels.map .string)),
  ("category".toList, .string e.category),
  ("date".toList, (e.date.map .string).getD .null)]

lemma reads_jsonEntry (e : Entry) : Reads (value? (n + 3)) (jsonEntry e) (entryJson e) := by
  apply reads_object
  refine .cons ?_ (.cons ?_ (.cons ?_ (.cons ?_ (.cons ?_ (.cons ?_ .nil)))))
  · exact reads_jsonField "url" (reads_jsonText e.url)
  · exact reads_jsonField "title" (reads_jsonText e.title)
  · exact reads_jsonField "description" (reads_jsonText e.description)
  · exact reads_jsonField "labels" (reads_labels e.labels)
  · exact reads_jsonField "category" (reads_jsonText e.category)
  · exact reads_jsonField "date" (reads_date e.date)

lemma three_le_length_jsonEntry (e : Entry) : 3 ≤ (jsonEntry e).length := by
  simp only [jsonEntry, Text.join, jsonField, jsonText, List.length_append, List.length_cons]
  omega

lemma read?_jsonEntries (entries : List Entry) :
    read? (json entries) = some (.array (entries.map entryJson)) := by
  apply read?_of_reads
  -- an entry is nested three levels deep, and no file with an entry is as short as that
  obtain ⟨m, hm⟩ : ∃ m, (json entries).length = m + 1 := ⟨_, rfl⟩
  rw [hm]
  apply reads_array
  rw [List.forall₂_map_left_iff, List.forall₂_map_right_iff, List.forall₂_same]
  intro e he
  have hentry := (Text.infix_join (List.mem_map_of_mem (f := jsonEntry) he) [',']).length_le
  have hlength := three_le_length_jsonEntry e
  have hdepth : 3 ≤ m := by
    simp only [json, jsonArray, List.length_append, List.length_cons, List.length_nil] at hm
    omega
  obtain ⟨k, rfl⟩ := Nat.exists_eq_add_of_le' hdepth
  exact reads_jsonEntry e

end Values

/-- The file of a catalog, read as JSON, is an array with one object for each page, in the order of
the pages: its address, its title, description, labels and category as they are, and its date as a
text that is read back as that date. -/
theorem read?_json (basePath : Text) (pages : List Placed) :
    Json.read? (json (ofPages basePath pages)) = some (.array (pages.map fun p => .object [
      ("url".toList, .string (Path.url p.path basePath)),
      ("title".toList, .string p.page.title),
      ("description".toList, .string p.page.description),
      ("labels".toList, .array (p.page.labels.map .string)),
      ("category".toList, .string p.page.category),
      ("date".toList, match p.page.date with
        | none => .null
        | some d => .string d.iso)])) ∧
    ∀ d : Date, Iso.moment? d.iso = Moment.of? d 0 none ∧
      Page.fieldDate (some (.text d.iso)) = .ok (some d) := by
  refine ⟨?_, fun d => ⟨Iso.moment?_iso d, Page.fieldDate_iso d⟩⟩
  rw [read?_jsonEntries, ofPages, List.map_map]
  congr 2
  refine List.map_congr_left fun p _ => ?_
  simp only [Function.comp_apply, entryJson, Entry.ofPlaced]
  cases p.page.date <;> rfl

end Sitewright.Catalog
