import Sitewright.Proofs.PageFields
import Sitewright.Proofs.Tree

/-!
What is let through as an identifier: a word of the characters of identifiers, with a line feed behind
it or without. Headers never give the line feed.
-/
namespace Sitewright

namespace Page

/-- A word of the characters of identifiers. -/
def IsIdWord (t : Text) : Prop := t ≠ [] ∧ ∀ c ∈ t, isIdChar c = true

variable {id : Text}

lemma IsIdWord.getLast?_ne {word : Text} (h : IsIdWord word) : word.getLast? ≠ some '\n' := by
  intro hfeed
  have hchar := h.2 '\n' (List.mem_of_getLast? hfeed)
  revert hchar
  decide

lemma isIdText_feed (word : Text) : isIdText (word ++ ['\n']) = true ↔ IsIdWord word := by
  rw [isIdText, List.getLast?_concat]
  simp [IsIdWord]

/-- One line feed behind a word is let through, and nothing else but the word. -/
lemma isIdText_iff_word :
    isIdText id = true ↔ ∃ word, IsIdWord word ∧ (id = word ∨ id = word ++ ['\n']) := by
  by_cases hfeed : id.getLast? = some '\n'
  · obtain ⟨front, rfl⟩ := List.getLast?_eq_some_iff.mp hfeed
    rw [isIdText_feed]
    constructor
    · exact fun h => ⟨front, h, .inr rfl⟩
    · rintro ⟨word, hword, rfl | heq⟩
      · exact absurd hfeed hword.getLast?_ne
      · exact List.append_cancel_right heq ▸ hword
  · rw [isIdText_iff hfeed]
    constructor
    · exact fun h => ⟨id, h, .inl rfl⟩
    · rintro ⟨word, hword, rfl | rfl⟩
      · exact hword
      · exact absurd List.getLast?_concat hfeed

lemma checkId_eq_ok_iff_word : checkId id = .ok () ↔
    id ≠ rootId ∧ ∃ word, IsIdWord word ∧ (id = word ∨ id = word ++ ['\n']) := by
  rw [checkId_eq_ok, isIdText_iff_word, and_comm]

lemma checkId_feed {word : Text} (h : IsIdWord word) : checkId (word ++ ['\n']) = .ok () := by
  refine checkId_eq_ok_iff_word.mpr ⟨fun hroot => ?_, word, h, .inr rfl⟩
  have hlast := congrArg List.getLast? hroot
  rw [List.getLast?_concat] at hlast
  revert hlast
  decide

/-- An accepted identifier is a word just where no line feed ends it. -/
lemma isIdWord_iff_of_checkId (h : checkId id = .ok ()) :
    IsIdWord id ↔ id.getLast? ≠ some '\n' := by
  obtain ⟨-, word, hword, rfl | rfl⟩ := checkId_eq_ok_iff_word.mp h
  · exact iff_of_true hword hword.getLast?_ne
  · exact iff_of_false (fun hfeed => hfeed.getLast?_ne List.getLast?_concat)
      (not_not_intro List.getLast?_concat)

lemma isIdWord_of_ofFields {fields : Fields} {p : Page} (h : ofFields fields = .ok p) :
    IsIdWord p.id :=
  have hnormal := (describes_of_ofFields h).isNormal
  ⟨hnormal.id_ne_nil, hnormal.id_chars⟩

end Page

namespace Tree
open Page (IsIdWord checkId ofFields)

/-- A page at the top makes a tree by itself. -/
lemma exists_ofPages_singleton {p : Page} (hid : checkId p.id = .ok ()) (hparent : p.parent = rootId) :
    ∃ ts, ofPages [p] = .ok ts ∧ ts.map page = [p] := by
  have hempty : ∃ ts, ofPages [] = .ok ts := ⟨_, ofPages_eq_ok.mpr ⟨rfl, rfl⟩⟩
  obtain ⟨ts, hts⟩ := (exists_ofPages_concat hempty List.not_mem_nil (.inl hparent)).mpr hid
  refine ⟨ts, hts, ?_⟩
  rw [map_page_ofPages hts]
  simp [siblings, hparent]

/-- The check of identifiers lets through the words that are not reserved, and each word once more with
a line feed behind it; so do trees of pages. Where pages come from headers their identifiers are words. -/
theorem ofPages_ids (pages : List Page) (id : Text) :
    (checkId id = .ok () ↔ id ≠ rootId ∧ ∃ word, IsIdWord word ∧ (id = word ∨ id = word ++ ['\n'])) ∧
    (∀ ts, ofPages pages = .ok ts → ∀ t ∈ nodesOf ts,
      checkId t.page.id = .ok () ∧ (IsIdWord t.page.id ↔ t.page.id.getLast? ≠ some '\n')) ∧
    (IsIdWord id → ∃ ts, ofPages [{ id := id ++ ['\n'] }] = .ok ts ∧
      ts.map (Page.id ∘ page) = [id ++ ['\n']]) ∧
    ∀ fields p, ofFields fields = .ok p → IsIdWord p.id := by
  refine ⟨Page.checkId_eq_ok_iff_word, fun ts hts t ht => ?_, fun hword => ?_,
    fun fields p => Page.isIdWord_of_ofFields⟩
  · obtain ⟨hids, -, -⟩ := check_of_ofPages hts
    have hpage : t.page ∈ pages :=
      (map_page_nodesOf_perm hts).mem_iff.mp (List.mem_map_of_mem ht)
    have hcheck := hids.1 t.page hpage
    exact ⟨hcheck, Page.isIdWord_iff_of_checkId hcheck⟩
  · obtain ⟨ts, hts, hpages⟩ :=
      exists_ofPages_singleton (p := { id := id ++ ['\n'] }) (Page.checkId_feed hword) rfl
    refine ⟨ts, hts, ?_⟩
    rw [← List.map_map, hpages]
    rfl

/-- A page whose identifier ends in a line feed, and a page below it. -/
def feedPages : List Page :=
  [{ id := "blog\n".toList }, { id := "post".toList, parent := "blog\n".toList }]

theorem ofPages_ids_feedPages : ∃ ts, ofPages feedPages = .ok ts ∧
    (∃ t ∈ nodesOf ts, ¬ IsIdWord t.page.id) ∧ ∃ t ∈ nodesOf ts, IsIdWord t.page.id := by
  have htree : ∃ ts, ofPages feedPages = .ok ts := ⟨_, ofPages_eq_ok.mpr ⟨rfl, rfl⟩⟩
  obtain ⟨ts, hts⟩ := htree
  have hnodes := map_page_nodesOf_perm hts
  have hword := (ofPages_ids feedPages []).2.1 ts hts
  have hnode : ∀ p ∈ feedPages, ∃ t ∈ nodesOf ts, t.page = p := fun p hp =>
    List.mem_map.mp (hnodes.mem_iff.mpr hp)
  refine ⟨ts, hts, ?_, ?_⟩
  · obtain ⟨t, ht, hpage⟩ := hnode _ List.mem_cons_self
    exact ⟨t, ht, by rw [(hword t ht).2, hpage]; decide⟩
  · obtain ⟨t, ht, hpage⟩ := hnode _ (List.mem_cons_of_mem _ List.mem_cons_self)
    exact ⟨t, ht, by rw [(hword t ht).2, hpage]; decide⟩

end Tree
end Sitewright
