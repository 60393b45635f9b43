import Sitewright.Proofs.FreshSlug
import Sitewright.Proofs.Identifier
import Sitewright.Proofs.Scan
import Sitewright.Proofs.Slug

/-!
Pages with generated identifiers. A generated identifier is accepted unless it is empty or the reserved
one, and a page with an accepted one joins every tree of pages that it was chosen to differ from.
-/
namespace Sitewright

section Slugs

variable {title : Text} {taken : List Text} {c : Char}

lemma isIdChar_of_isSlugChar (h : isSlugChar c = true) : Page.isIdChar c = true := by
  have hid : Page.isIdChar c = ((c.isUpper || c.isLower) || c.isDigit || c = '-' || c = '_') := rfl
  simp only [isSlugChar, Bool.or_eq_true, Bool.and_eq_true, decide_eq_true_eq] at h
  rcases h with ⟨hlow, hhigh⟩ | ⟨hlow, hhigh⟩
  · have hlower : c.isLower = true := Bool.and_eq_true_iff.mpr ⟨decide_eq_true hlow, decide_eq_true hhigh⟩
    simp [hid, hlower]
  · have hdigit : c.isDigit = true := Bool.and_eq_true_iff.mpr ⟨decide_eq_true hlow, decide_eq_true hhigh⟩
    simp [hid, hdigit]

lemma slug_eq_nil_iff (t : Text) : slug t = [] ↔ ∀ c ∈ Text.lower t, isSlugChar c = false := by
  constructor
  · intro h c hmem
    by_contra hc
    rw [Bool.not_eq_false] at hc
    have hhyphen : decide (c = '-') = false := by
      rw [decide_eq_false_iff_not]
      rintro rfl
      revert hc
      decide
    have hblank := Page.isBlank_of_isIdChar (isIdChar_of_isSlugChar hc)
    have hslug : c ∈ slug t := by
      rwa [slug, Text.mem_trim_iff hhyphen, mem_hyphenateGaps_iff hc, Text.strip, Text.mem_trim_iff hblank]
    rw [h] at hslug
    cases hslug
  · intro h
    refine Text.trim_eq_nil fun c hmem => decide_eq_true ?_
    refine (mem_hyphenateGaps hmem).resolve_left fun hc => ?_
    have hblank := Page.isBlank_of_isIdChar (isIdChar_of_isSlugChar hc)
    rw [mem_hyphenateGaps_iff hc, Text.strip, Text.mem_trim_iff hblank] at hmem
    rw [h c hmem] at hc
    cases hc

/-- A generated identifier has only characters of identifiers. -/
lemma isIdChar_of_mem_freshSlug (hc : c ∈ freshSlug title taken) : Page.isIdChar c = true := by
  have hslug : ∀ c ∈ slug title, Page.isIdChar c = true := by
    intro c hc
    rcases mem_slug hc with hc | rfl
    · exact isIdChar_of_isSlugChar hc
    · rfl
  obtain ⟨k, -, hfresh, -⟩ := exists_freshSlug_eq title taken
  rw [hfresh] at hc
  cases k with
  | zero => exact hslug c hc
  | succ k =>
    rcases List.mem_append.mp hc with hc | hc
    · exact hslug c hc
    · rcases List.mem_cons.mp hc with rfl | hc
      · rfl
      · simp [Page.isIdChar, Char.isAlphanum, Text.all_isDigit_ofNat _ c hc]

/-- A word without a hyphen is generated only as a slug that is free. -/
lemma freshSlug_eq_iff {word : Text} (hword : '-' ∉ word) :
    freshSlug title taken = word ↔ slug title = word ∧ word ∉ taken := by
  obtain ⟨k, -, hfresh, hfree, hbefore⟩ := exists_freshSlug_eq title taken
  rw [hfresh]
  cases k with
  | zero =>
    refine ⟨?_, And.left⟩
    rintro rfl
    exact ⟨rfl, hfree⟩
  | succ k =>
    constructor
    · rintro rfl
      simp [slugCandidate] at hword
    · rintro ⟨rfl, hnot⟩
      exact absurd (hbefore 0 (Nat.succ_pos k)) hnot

end Slugs

namespace Page

lemma checkId_of_idChars {id : Text} (h : ∀ c ∈ id, isIdChar c = true) :
    checkId id = if id = [] then .error (.badId []) else
      if id = rootId then .error (.reservedId rootId) else .ok () := by
  have htext : isIdText id = true ↔ id ≠ [] := by
    rw [isIdText_iff (getLast?_ne_feed (trimmed_of_idChars h)), and_iff_left h]
  unfold checkId
  by_cases hnil : id = []
  · rw [hnil]
    rfl
  · by_cases hroot : id = rootId
    · rw [hroot]
      rfl
    · simp [htext.mpr hnil, hnil, hroot]

/-- A header that gives only an identifier describes the page with that identifier. -/
lemma ofFields_id {id : Text} (hchars : ∀ c ∈ id, isIdChar c = true) :
    ofFields [(.text "Short-URI".toList, .text id)] = .ok { id, title := id } ↔ checkId id = .ok () := by
  constructor
  · intro h
    exact (idOf_eq_ok.mp (describes_of_ofFields h).id).2.2
  · intro h
    have hne : id ≠ [] := by
      rintro rfl
      cases h
    refine Describes.ofFields_eq ?_
    constructor
    case id => exact idOf_eq_ok.mpr ⟨valueText_text (trimmed_of_idChars hchars), hne, h⟩
    all_goals rfl

/-- A generated identifier is accepted unless it is empty, because the title has no letter or digit, or
reserved. Just where it is accepted its header makes a page, and a page with it joins the tree of the
pages whose identifiers were taken. -/
theorem checkId_freshSlug (title : Text) (taken : List Text) :
    checkId (freshSlug title taken) =
        (if slug title = [] ∧ [] ∉ taken then .error (.badId [])
        else if slug title = rootId ∧ rootId ∉ taken then .error (.reservedId rootId)
        else .ok ()) ∧
      (slug title = [] ↔ ∀ c ∈ Text.lower title, isSlugChar c = false) ∧
      (ofFields [(.text "Short-URI".toList, .text (freshSlug title taken))] =
          .ok { id := freshSlug title taken, title := freshSlug title taken } ↔
        checkId (freshSlug title taken) = .ok ()) ∧
      ∀ pages p, (∃ ts, Tree.ofPages pages = .ok ts) → (∀ q ∈ pages, q.id ∈ taken) →
        p.id = freshSlug title taken → (p.parent = rootId ∨ p.parent ∈ pages.map Page.id) →
        ((∃ ts, Tree.ofPages (pages ++ [p]) = .ok ts) ↔ checkId (freshSlug title taken) = .ok ()) := by
  have hchars : ∀ c ∈ freshSlug title taken, isIdChar c = true := fun c => isIdChar_of_mem_freshSlug
  refine ⟨?_, slug_eq_nil_iff title, ofFields_id hchars, fun pages p htree htaken hid hparent => ?_⟩
  · have hroot : '-' ∉ rootId := by decide
    rw [checkId_of_idChars hchars]
    simp only [freshSlug_eq_iff List.not_mem_nil, freshSlug_eq_iff hroot]
  · rw [← hid]
    refine Tree.exists_ofPages_concat htree (fun hm => ?_) hparent
    obtain ⟨q, hq, hqid⟩ := List.mem_map.mp hm
    have hfresh : freshSlug title taken ∉ taken := by
      obtain ⟨k, -, hk, hfree, -⟩ := exists_freshSlug_eq title taken
      rwa [hk]
    exact hfresh (hid ▸ hqid ▸ htaken q hq)

/-- A site with one page, under the slug of its title. -/
def docs : Page := { id := "docs".toList, title := "Docs".toList }

theorem checkId_freshSlug_docs : checkId (freshSlug "Docs".toList [docs.id]) = .ok () ∧
    ∃ ts, Tree.ofPages [docs, { id := freshSlug "Docs".toList [docs.id] }] = .ok ts := by
  obtain ⟨hcheck, -, -, hjoins⟩ := checkId_freshSlug "Docs".toList [docs.id]
  have hslug : slug "Docs".toList = docs.id := by decide
  have hok : checkId (freshSlug "Docs".toList [docs.id]) = .ok () := by
    rw [hcheck, hslug]
    rfl
  have htree : ∃ ts, Tree.ofPages [docs] = .ok ts := ⟨_, Tree.ofPages_eq_ok.mpr ⟨rfl, rfl⟩⟩
  exact ⟨hok, (hjoins [docs] _ htree (by simp) rfl (.inl rfl)).mpr hok⟩

end Page
end Sitewright
