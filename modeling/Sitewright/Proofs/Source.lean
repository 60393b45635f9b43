import Mathlib.Data.List.Basic
import Sitewright.Fence
import Sitewright.Markdown.Source
import Sitewright.Proofs.Rewriting
import Sitewright.Proofs.Scan
import Sitewright.Proofs.Splitting
import Sitewright.Text.Blank

/-!
What normalizing a source brings in: nothing but spaces and line feeds. So a word without white space
that is in a normalized source was in the source, and the languages of fences are words of it.
-/
namespace Sitewright

namespace Text

lemma mem_unifyReturns {t : Text} {c : Char} (h : c ∈ unifyReturns t) : c ∈ t ∨ c = '\n' := by
  fun_induction unifyReturns t with
  | case1 => cases h
  | case2 cs ih =>
    rcases List.mem_cons.mp h with rfl | h
    · exact .inr rfl
    · exact (ih h).imp_left fun h => List.mem_cons_of_mem _ (List.mem_cons_of_mem _ h)
  | case3 d cs _ ih =>
    rcases List.mem_cons.mp h with rfl | h
    · split
      · exact .inr rfl
      · exact .inl List.mem_cons_self
    · exact (ih h).imp_left (List.mem_cons_of_mem _)

lemma unifyReturns_of_not_mem {t : Text} (h : '\r' ∉ t) : unifyReturns t = t := by
  fun_induction unifyReturns t with
  | case1 => rfl
  | case2 cs ih => simp at h
  | case3 c cs _ ih =>
    rw [if_neg (List.ne_of_not_mem_cons h).symm, ih (List.not_mem_of_not_mem_cons h)]

end Text

namespace Markdown.Source
open Text (Rewritten)

lemma mem_expandTabs {column : ℕ} {t : Text} {c : Char} (h : c ∈ expandTabs column t) :
    c ∈ t ∨ c = ' ' := by
  fun_induction expandTabs column t with
  | case1 => cases h
  | case2 column cs ih =>
    rcases List.mem_append.mp h with h | h
    · exact .inr (List.eq_of_mem_replicate h)
    · exact (ih h).imp_left (List.mem_cons_of_mem _)
  | case3 column cs ih =>
    rcases List.mem_cons.mp h with rfl | h
    · exact .inl List.mem_cons_self
    · exact (ih h).imp_left (List.mem_cons_of_mem _)
  | case4 column c cs _ _ ih =>
    rcases List.mem_cons.mp h with rfl | h
    · exact .inl List.mem_cons_self
    · exact (ih h).imp_left (List.mem_cons_of_mem _)

lemma mem_clearBlankLines {lines : List Text} {line : Text} (h : line ∈ clearBlankLines lines) :
    line = [] ∨ line ∈ lines := by
  cases lines with
  | nil => exact .inr h
  | cons first rest =>
    rcases List.mem_cons.mp h with rfl | h
    · exact .inr List.mem_cons_self
    · rcases List.mem_append.mp h with h | h
      · obtain ⟨line', hline, rfl⟩ := List.mem_map.mp h
        unfold clearBlank
        split
        · exact .inl rfl
        · exact .inr (List.mem_cons_of_mem _ ((List.dropLast_sublist _).subset hline))
      · exact .inr (List.mem_cons_of_mem _ (List.mem_of_getLast? (Option.mem_toList.mp h)))

/-- Normalizing brings in nothing but spaces and line feeds. -/
lemma mem_normalize {t : Text} {c : Char} (h : c ∈ normalize t) : c ∈ t ∨ c = ' ' ∨ c = '\n' := by
  obtain ⟨marked, hmarked⟩ : ∃ marked, marked = t.filter fun c => c ≠ Mark.opening && c ≠ Mark.closing :=
    ⟨_, rfl⟩
  rw [normalize, ← hmarked] at h
  rcases Text.mem_join h with h | ⟨line, hline, h⟩
  · exact .inr (.inr (List.mem_singleton.mp h))
  · rcases mem_clearBlankLines hline with rfl | hline
    · cases h
    · rcases mem_expandTabs (Text.mem_of_mem_splitOn hline h) with h | h
      · rcases List.mem_append.mp h with h | h
        · refine (Text.mem_unifyReturns h).imp (fun h => ?_) .inr
          rw [hmarked] at h
          exact List.mem_of_mem_filter h
        · exact .inr (.inr (by simpa using h))
      · exact .inr (.inl h)

lemma isBlankText_normalize {t : Text} (h : Text.isBlankText t = true) :
    Text.isBlankText (normalize t) = true := by
  refine List.all_eq_true.mpr fun c hc => ?_
  rcases mem_normalize hc with hc | rfl | rfl
  · exact List.all_eq_true.mp h c hc
  · rfl
  · rfl

/-- Tabs give way to spaces. -/
lemma rewritten_expandTabs (column : ℕ) (t : Text) :
    Rewritten ['\t'] (fun new => ∃ n, new = Text.fill (n + 1) ' ') t (expandTabs column t) := by
  refine Text.rewritten_of_scan (by decide) (f := expandTabs) (fun _ => rfl) ?_ ?_ column t
  · intro column c cs hstart
    have htab : c ≠ '\t' := fun h => hstart (h ▸ List.prefix_append ['\t'] cs)
    by_cases hfeed : c = '\n'
    · subst hfeed
      exact ⟨0, rfl⟩
    · refine ⟨column + 1, ?_⟩
      rw [expandTabs]
      · exact htab
      · exact hfeed
  · intro column rest
    refine ⟨Text.fill (4 - column % 4) ' ', 0, rfl, 3 - column % 4, ?_⟩
    have hsize : 4 - column % 4 = 3 - column % 4 + 1 := by omega
    rw [hsize]

section Words

variable {x t : Text} (hx : x ≠ []) (hspace : ' ' ∉ x)
include hx hspace

/-- The spaces of a tab overlap no word without spaces. -/
lemma infix_of_infix_expandTabs {column : ℕ} (h : x <:+: expandTabs column t) : x <:+: t := by
  rcases (rewritten_expandTabs column t).infix_or h with h | ⟨before, _, after, ⟨n, rfl⟩, -, hover⟩
  · exact h
  · have hspaces : ∀ c ∈ Text.fill (n + 1) ' ', c = ' ' := fun c hc => List.eq_of_mem_replicate hc
    refine absurd (Text.apart_of_ends (fun hin => ?_) List.head?_replicate ?_ hspace hspace) hover
    · obtain ⟨c, hc⟩ := List.exists_mem_of_ne_nil x hx
      exact hspace (hspaces c (hin.subset hc) ▸ hc)
    · rw [Text.fill, List.getLast?_replicate]
      rfl

/-- A word without white space in a normalized source was in the source. -/
lemma infix_of_infix_normalize (hfeed : '\n' ∉ x) (hmarks : Mark.opening ∉ t ∧ Mark.closing ∉ t)
    (hreturn : '\r' ∉ t) (h : x <:+: normalize t) : x <:+: t := by
  have hmarked : t.filter (fun c => c ≠ Mark.opening && c ≠ Mark.closing) = t := by
    refine List.filter_eq_self.mpr fun c hc => ?_
    have hopening : c ≠ Mark.opening := fun he => hmarks.1 (he ▸ hc)
    have hclosing : c ≠ Mark.closing := fun he => hmarks.2 (he ▸ hc)
    simp [hopening, hclosing]
  rw [normalize, hmarked, Text.unifyReturns_of_not_mem hreturn] at h
  obtain ⟨line, hline, hin⟩ := Text.exists_infix_of_join hx hfeed h
  rcases mem_clearBlankLines hline with rfl | hline
  · exact absurd (List.infix_nil.mp hin) hx
  · replace hin := infix_of_infix_expandTabs hx hspace (hin.trans (Text.infix_of_mem_splitOn hline))
    -- behind the text stand two line feeds
    rcases Text.infix_append_cons (b := ['\n']) hfeed hin with hin | hin
    · exact hin
    · obtain ⟨c, hc⟩ := List.exists_mem_of_ne_nil x hx
      have hc' : c = '\n' := by simpa using hin.subset hc
      exact absurd (hc' ▸ hc) hfeed

end Words

end Markdown.Source

namespace Fence

lemma ofText?_some {line : Text} {f : Line} (h : Line.ofText? line = some f) :
    f.fence ++ f.language ++ f.extra <:+ line := by
  unfold Line.ofText? at h
  dsimp only at h
  split at h
  · obtain rfl := Option.some.inj h
    dsimp only
    rw [List.append_assoc, Text.spanWhile_append, Text.spanWhile_append]
    exact List.drop_suffix _ _
  · cases h

lemma infix_normalizeLine (line : Text) : normalizeLine line <:+: line := by
  unfold normalizeLine
  split
  · exact List.infix_rfl
  · rename_i f hf
    split
    · exact (List.prefix_append _ _).isInfix.trans (ofText?_some hf).isInfix
    · exact (List.dropWhile_suffix _).isInfix

/-- A word of one line in a text with its fences pulled out was in the text. -/
lemma infix_of_infix_normalize {x t : Text} (hx : x ≠ []) (hfeed : '\n' ∉ x)
    (h : x <:+: normalize t) : x <:+: t := by
  obtain ⟨line, hline, hin⟩ := Text.exists_infix_of_join hx hfeed h
  obtain ⟨written, hwritten, rfl⟩ := List.mem_map.mp hline
  exact (hin.trans (infix_normalizeLine written)).trans (Text.infix_of_mem_splitOn hwritten)

lemma mem_of_mem_normalize {t : Text} {c : Char} (h : c ∈ normalize t) : c ∈ t ∨ c = '\n' := by
  rcases Text.mem_join h with h | ⟨line, hline, h⟩
  · exact .inr (List.mem_singleton.mp h)
  · obtain ⟨written, hwritten, rfl⟩ := List.mem_map.mp hline
    exact .inl ((Text.infix_of_mem_splitOn hwritten).subset ((infix_normalizeLine written).subset h))

lemma mem_languagesFrom {opened : Option Text} {lines : List Text} {language : Text}
    (h : language ∈ languagesFrom opened lines) :
    language = "text".toList ∨ ∃ line ∈ lines, language <:+: line := by
  fun_induction languagesFrom opened lines with
  | case1 => cases h
  | case2 opened line lines hnone ih =>
    exact (ih h).imp_right fun ⟨l, hl, hin⟩ => ⟨l, .tail _ hl, hin⟩
  | case3 line lines f hf ih =>
    rcases List.mem_cons.mp h with rfl | h
    · split
      · exact .inl rfl
      · have hin : f.language <:+: f.fence ++ f.language ++ f.extra := ⟨f.fence, f.extra, rfl⟩
        exact .inr ⟨line, .head _, hin.trans (ofText?_some hf).isInfix⟩
    · exact (ih h).imp_right fun ⟨l, hl, hin⟩ => ⟨l, .tail _ hl, hin⟩
  | case4 line lines f hf fence hclose ih =>
    exact (ih h).imp_right fun ⟨l, hl, hin⟩ => ⟨l, .tail _ hl, hin⟩
  | case5 line lines f hf fence hopen ih =>
    exact (ih h).imp_right fun ⟨l, hl, hin⟩ => ⟨l, .tail _ hl, hin⟩

/-- The language of a block is named in the source, or is that of a block without one. -/
lemma mem_languages {source language : Text} (h : language ∈ languages source) :
    language = "text".toList ∨ language <:+: source :=
  (mem_languagesFrom h).imp_right fun ⟨_, hline, hin⟩ => hin.trans (Text.infix_of_mem_splitOn hline)

end Fence
end Sitewright
