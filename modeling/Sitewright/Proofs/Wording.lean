import Sitewright.Proofs.Link
import Sitewright.Proofs.RegionLocal
import Sitewright.Proofs.Token

/-!
Texts in which words stand for links. A link lies within one line and neither begins nor ends like a region; a
word does so too, and it holds nothing that regions are made of. So every reader of regions finds the same in both
texts, up to the links themselves.
-/
namespace Sitewright

open Hypermedia (Link)
open RawTable (letters)

namespace Text

/-- What stands for a link: letters of tokens, an `f` first. -/
structure IsWord (w : Text) : Prop where
  head : w.head? = some 'f'
  letters : ∀ c ∈ w, c ∈ letters

lemma IsWord.eq_cons {w : Text} (h : IsWord w) : ∃ tail, w = 'f' :: tail := by
  obtain ⟨tail, rfl⟩ := List.head?_eq_some_iff.mp h.head
  exact ⟨tail, rfl⟩

/-- The second text is the first one with words for some of its links. -/
inductive Worded : Text → Text → Prop
  | nil : Worded [] []
  | copy (c : Char) {t t' : Text} (h : Worded t t') : Worded (c :: t) (c :: t')
  | word {l : Link} {w t t' : Text} (hl : l.WellFormed) (hw : IsWord w) (h : Worded t t') :
      Worded (l.source ++ t) (w ++ t')

namespace Worded

variable {t t' u u' : Text}

lemma refl (t : Text) : Worded t t := by
  induction t with
  | nil => exact .nil
  | cons c t ih => exact .copy c ih

lemma append (h : Worded t t') (hu : Worded u u') : Worded (t ++ u) (t' ++ u') := by
  induction h with
  | nil => exact hu
  | copy c h ih => exact .copy c ih
  | word hl hw h ih =>
    rw [List.append_assoc, List.append_assoc]
    exact .word hl hw ih

/-- Where a text with words is cut outside of its words, so is the text with the links. -/
lemma split {x y' : Text} (h : Worded t (x ++ y'))
    (hcut : (∀ c ∈ x.getLast?, c ∉ letters) ∨ ∀ c ∈ y'.head?, c ∉ letters) :
    ∃ u y, t = u ++ y ∧ Worded u x ∧ Worded y y' := by
  generalize hxy : x ++ y' = t' at h
  induction h generalizing x with
  | nil =>
    obtain ⟨rfl, rfl⟩ := List.append_eq_nil_iff.mp hxy
    exact ⟨[], [], rfl, .nil, .nil⟩
  | @copy c t t' h ih =>
    cases x with
    | nil =>
      obtain rfl : y' = c :: t' := hxy
      exact ⟨[], c :: t, rfl, .nil, .copy c h⟩
    | cons d x =>
      obtain ⟨rfl, htail⟩ := List.cons.inj hxy
      have hcut' : (∀ c ∈ x.getLast?, c ∉ letters) ∨ ∀ c ∈ y'.head?, c ∉ letters := by
        refine hcut.imp_left fun hlast c hc => hlast c ?_
        rw [List.getLast?_cons, Option.mem_def.mp hc]
        rfl
      obtain ⟨u, y, rfl, hu, hy⟩ := ih hcut' htail
      exact ⟨d :: u, y, rfl, .copy d hu, hy⟩
  | @word l w t t' hl hw h ih =>
    rcases List.append_eq_append_iff.mp hxy with ⟨a, rfl, rfl⟩ | ⟨b, rfl, rfl⟩
    · -- the cut is in the word or at one of its ends
      rcases List.eq_nil_or_concat' x with rfl | ⟨x, c, rfl⟩
      · exact ⟨[], _, rfl, .nil, .word hl hw h⟩
      cases a with
      | nil =>
        rw [List.append_nil] at hw
        refine ⟨l.source, t, rfl, ?_, h⟩
        have hworded : Worded (l.source ++ []) (x ++ [c] ++ []) := .word hl hw .nil
        rwa [List.append_nil, List.append_nil] at hworded
      | cons d a =>
        have hc : c ∈ letters := hw.letters c (by simp)
        have hd : d ∈ letters := hw.letters d (by simp)
        rcases hcut with hcut | hcut
        · exact absurd hc (hcut c (by simp))
        · exact absurd hd (hcut d rfl)
    · have hcut' : (∀ c ∈ b.getLast?, c ∉ letters) ∨ ∀ c ∈ y'.head?, c ∉ letters := by
        refine hcut.imp_left fun hlast c hc => hlast c ?_
        rw [List.getLast?_append, Option.mem_def.mp hc]
        rfl
      obtain ⟨u, y, rfl, hu, hy⟩ := ih hcut' rfl
      exact ⟨l.source ++ u, y, (List.append_assoc _ _ _).symm, .word hl hw hu, hy⟩

/-- What holds no `f` is copied. -/
lemma of_append {x : Text} (hx : 'f' ∉ x) (h : Worded t (x ++ u')) : ∃ u, t = x ++ u ∧ Worded u u' := by
  induction x generalizing t with
  | nil => exact ⟨t, rfl, h⟩
  | cons c x ih =>
    rw [List.mem_cons, not_or] at hx
    generalize hxu : c :: x ++ u' = t' at h
    cases h with
    | nil => cases hxu
    | copy d h =>
      obtain ⟨rfl, rfl⟩ := List.cons.inj hxu
      obtain ⟨u, rfl, hu⟩ := ih hx.2 h
      exact ⟨u, rfl, hu⟩
    | word hl hw h =>
      obtain ⟨tail, rfl⟩ := hw.eq_cons
      exact absurd (List.cons.inj hxu).1.symm hx.1

lemma eq_nil (h : Worded t []) : t = [] := by
  generalize hnil : ([] : Text) = t' at h
  cases h with
  | nil => rfl
  | copy c h => cases hnil
  | word hl hw h =>
    obtain ⟨tail, rfl⟩ := hw.eq_cons
    cases hnil

/-- A run of characters other than those that links and words start with is copied. -/
lemma spanWhile {p : Char → Bool} (hlink : p '[' = false) (hword : p 'f' = false) (h : Worded t t') :
    (Text.spanWhile p t').1 = (Text.spanWhile p t).1 ∧ Worded (Text.spanWhile p t).2 (Text.spanWhile p t').2 := by
  induction h with
  | nil => exact ⟨rfl, .nil⟩
  | @copy c t t' h ih =>
    cases hc : p c with
    | false => simpa [Text.spanWhile, hc] using .copy c h
    | true => simpa [Text.spanWhile, hc] using ih
  | @word l w t t' hl hw h ih =>
    obtain ⟨tail, rfl⟩ := hw.eq_cons
    have hworded : Worded (l.source ++ t) ('f' :: tail ++ t') := .word hl hw h
    simpa [Text.spanWhile, Link.source, hlink, hword] using hworded

/-- A character that starts neither links nor words comes first in both texts or in none. -/
lemma head?_iff {c : Char} (hlink : c ≠ '[') (hword : c ≠ 'f') (h : Worded t t') :
    t'.head? = some c ↔ t.head? = some c := by
  cases h with
  | nil => exact Iff.rfl
  | copy d h => exact Iff.rfl
  | word hl hw h =>
    obtain ⟨tail, rfl⟩ := hw.eq_cons
    simp [Link.source, hlink.symm, hword.symm]

lemma atLineEnd_eq (h : Worded t t') : atLineEnd t' = atLineEnd t := by
  cases h with
  | nil => rfl
  | copy c h => rfl
  | word hl hw h =>
    obtain ⟨tail, rfl⟩ := hw.eq_cons
    rfl

lemma feed_mem (h : Worded t t') (hfeed : '\n' ∈ t) : '\n' ∈ t' := by
  induction h with
  | nil => cases hfeed
  | copy c h ih => exact List.mem_cons.mpr ((List.mem_cons.mp hfeed).imp_right ih)
  | word hl hw h ih =>
    exact List.mem_append_right _ (ih ((List.mem_append.mp hfeed).resolve_left hl.feed_not_mem))

/-- The lines of the texts belong together. -/
lemma of_line {line' s' : Text} (hline : '\n' ∉ line') (h : Worded t (line' ++ '\n' :: s')) :
    ∃ line s, t = line ++ '\n' :: s ∧ '\n' ∉ line ∧ Worded line line' ∧ Worded s s' := by
  obtain ⟨line, y, rfl, hworded, hy⟩ := h.split (.inr fun c hc => by
    obtain rfl : '\n' = c := Option.some.inj hc
    decide)
  obtain ⟨s, rfl, hs⟩ := of_append (x := ['\n']) (by decide) hy
  exact ⟨line, s, rfl, fun hfeed => hline (hworded.feed_mem hfeed), hworded, hs⟩

lemma endsLine (h : Worded t t') (hend : EndsLine true t') : EndsLine true t := by
  rcases hend with ⟨rfl, -⟩ | ⟨u', rfl⟩
  · exact .inl ⟨h.eq_nil, rfl⟩
  · obtain ⟨u, y, rfl, -, hy⟩ := h.split (.inr fun c hc => by
      obtain rfl : '\n' = c := Option.some.inj hc
      decide)
    obtain ⟨s, rfl, hs⟩ : ∃ s, y = ['\n'] ++ s ∧ Worded s [] := of_append (by decide) hy
    exact .inr ⟨u, by rw [hs.eq_nil, List.append_nil]⟩

end Worded

end Text

namespace Region

open Text (Piece Quiet Scanned Worded atLineEnd isSpaceTab sourceOf spanWhile)

section Misses

variable {before before' t t' : Text}

lemma startsIndented_worded (h : Worded t t') (hindented : startsIndented t' = true) : startsIndented t = true := by
  rw [startsIndented_eq, Bool.or_eq_true, List.isPrefixOf_iff_prefix, List.isPrefixOf_iff_prefix] at hindented ⊢
  refine hindented.imp ?_ ?_
  · rintro ⟨u', rfl⟩
    obtain ⟨u, rfl, -⟩ := h.of_append (by decide)
    exact List.prefix_append _ u
  · rintro ⟨u', rfl⟩
    obtain ⟨u, rfl, -⟩ := h.of_append (by decide)
    exact List.prefix_append _ u

lemma sameStart_worded (h : Worded t t') : SameStart t t' where
  empty := by
    rintro rfl
    generalize hnil : ([] : Text) = t at h
    cases h with
    | nil => rfl
    | copy c h => cases hnil
    | word hl hw h => simp [Link.source] at hnil
  lineEnd := h.atLineEnd_eq.trans
  tick := mt (h.head?_iff (by decide) (by decide)).mp
  indented hnone := Bool.eq_false_of_not_eq_true fun hindented => by
    rw [startsIndented_worded h hindented] at hnone
    cases hnone

lemma rawClose?_worded (h : Worded t t') (hclose : (rawClose? t').isSome = true) : (rawClose? t).isSome = true := by
  obtain ⟨closing, hclosing⟩ := Option.isSome_iff_exists.mp hclose
  obtain ⟨blanks, rest', rfl, rfl, hblanks, hend⟩ := rawClose?_eq_some.mp hclosing
  have hmark : 'f' ∉ ":::".toList ++ blanks := by
    intro hmem
    rcases List.mem_append.mp hmem with hmem | hmem
    · revert hmem
      decide
    · have := hblanks _ hmem
      revert this
      decide
  obtain ⟨rest, rfl, hrest⟩ := h.of_append hmark
  rw [rawClose?_eq_some.mpr ⟨blanks, rest, rfl, rfl, hblanks, hrest.atLineEnd_eq ▸ hend⟩]
  rfl

/-- No raw fence starts because of words. -/
lemma rawAt?_worded (h : Worded t t') (hedge : SameEdge before before') (hnone : rawAt? before t = none) :
    rawAt? before' t' = none := by
  rw [rawAt?] at hnone ⊢
  rw [← hedge.start]
  split
  · rename_i hstart
    rw [if_pos hstart, Option.bind_eq_none_iff] at hnone
    rw [Option.bind_eq_none_iff]
    rintro ⟨opening, tail'⟩ hopen
    obtain ⟨blanks, rfl, rfl, hblanks⟩ := rawOpen?_eq_some.mp hopen
    have hmark : 'f' ∉ ":::html".toList ++ blanks ++ ['\n'] := by
      simp only [List.mem_append, not_or]
      refine ⟨⟨by decide, fun hmem => ?_⟩, by decide⟩
      have := hblanks _ hmem
      revert this
      decide
    obtain ⟨tail, rfl, htail⟩ := h.of_append hmark
    have hbreak := hnone _ (rawOpen?_eq_some.mpr ⟨blanks, rfl, rfl, hblanks⟩)
    rw [Option.map_eq_none_iff] at hbreak ⊢
    -- a line that closes the fence would close it in the other text as well
    rw [Text.breakAtLine_eq_none] at hbreak ⊢
    rintro u' v' rfl hu'
    obtain ⟨u, v, rfl, hu, hv⟩ := htail.split (by
      rcases hu' with ⟨rfl, -⟩ | ⟨w, rfl⟩
      · exact .inl fun c hc => (by cases hc)
      · refine .inl fun c hc => ?_
        rw [List.getLast?_concat] at hc
        obtain rfl := Option.some.inj hc
        decide)
    have hclose := hbreak u v rfl (hu.endsLine hu')
    by_contra hsome
    have hv' := rawClose?_worded hv (Option.isSome_iff_ne_none.mpr hsome)
    rw [hclose] at hv'
    cases hv'
  · rfl

lemma upToThreeSpaces_eq (t : Text) : upToThreeSpaces t = ((spanWhile (· = ' ') t).1.take 3,
    (spanWhile (· = ' ') t).1.drop 3 ++ (spanWhile (· = ' ') t).2) := by
  have hcut : ∀ a r : Text, (a ++ r).take (min 3 a.length) = a.take 3 ∧
      (a ++ r).drop (min 3 a.length) = a.drop 3 ++ r := by
    intro a r
    rw [List.take_append_of_le_length (Nat.min_le_right _ _), List.drop_append_of_le_length (Nat.min_le_right _ _)]
    rcases Nat.le_total 3 a.length with hle | hle
    · rw [Nat.min_eq_left hle]
      exact ⟨rfl, rfl⟩
    · rw [Nat.min_eq_right hle, List.take_length, List.drop_length, List.take_of_length_le hle,
        List.drop_eq_nil_of_le hle]
      exact ⟨rfl, rfl⟩
  obtain ⟨htake, hdrop⟩ := hcut (spanWhile (· = ' ') t).1 (spanWhile (· = ' ') t).2
  rw [Text.spanWhile_append] at htake hdrop
  exact Prod.ext htake hdrop

lemma upToThreeSpaces_worded (h : Worded t t') : Worded (upToThreeSpaces t).2 (upToThreeSpaces t').2 := by
  obtain ⟨hspaces, hrest⟩ := h.spanWhile (p := (· = ' ')) (by decide) (by decide)
  rw [upToThreeSpaces_eq, upToThreeSpaces_eq, hspaces]
  exact (Worded.refl _).append hrest

lemma fenceOf?_worded (h : Worded t t') (hnone : fenceOf? t = none) : fenceOf? t' = none := by
  have hrest := upToThreeSpaces_worded h
  unfold fenceOf? at hnone ⊢
  generalize (upToThreeSpaces t).2 = r at hnone hrest
  generalize (upToThreeSpaces t').2 = r' at hrest ⊢
  cases hrest with
  | nil => rfl
  | copy c hrest =>
    dsimp only at hnone ⊢
    rw [ite_eq_right_iff] at hnone ⊢
    intro hfence
    rw [Bool.and_eq_true, Bool.or_eq_true, decide_eq_true_eq, decide_eq_true_eq] at hfence hnone
    have hlink : c ≠ '[' := by rintro rfl; exact absurd hfence.1 (by decide)
    have hword : c ≠ 'f' := by rintro rfl; exact absurd hfence.1 (by decide)
    have hrun := ((Worded.copy c hrest).spanWhile (p := (· = c)) (decide_eq_false hlink.symm)
      (decide_eq_false hword.symm)).1
    rw [hrun] at hfence ⊢
    exact hnone hfence
  | word hl hw hrest =>
    obtain ⟨tail, rfl⟩ := hw.eq_cons
    simp

/-- No block of code starts because of words. -/
lemma fencedAt?_worded (h : Worded t t') (hedge : SameEdge before before') (hnone : fencedAt? before t = none) :
    fencedAt? before' t' = none := by
  by_cases hfeed : '\n' ∈ t'
  · obtain ⟨line', s', rfl, hline'⟩ := List.eq_append_cons_of_mem hfeed
    obtain ⟨line, s, rfl, hline, hworded, -⟩ := h.of_line hline'
    rw [fencedAt?_line hline] at hnone
    rw [fencedAt?_line hline', ← hedge.start]
    split
    · rename_i hstart
      rw [if_pos hstart, Option.map_eq_none_iff] at hnone
      rw [fenceOf?_worded hworded hnone]
      rfl
    · rfl
  · exact fencedAt?_of_not_mem hfeed

lemma indentedAt?_worded (h : Worded t t') (hedge : SameEdge before before')
    (hnone : indentedAt? before t = none) : indentedAt? before' t' = none := by
  rw [indentedAt?_eq, ite_eq_right_iff] at hnone ⊢
  intro hcode
  rw [Bool.and_eq_true, ← hedge.blank] at hcode
  have hfound := hnone (by rw [hcode.1, startsIndented_worded h hcode.2]; rfl)
  cases hfound

lemma startsBlankLine_worded (h : Worded t t') (c : Char) :
    startsBlankLine (c :: t') = startsBlankLine (c :: t) := by
  have hblanks := (h.spanWhile (p := isSpaceTab) (by decide) (by decide)).2
  have hhead := hblanks.head?_iff (c := '\n') (by decide) (by decide)
  rw [startsBlankLine_cons, startsBlankLine_cons]
  refine congrArg _ (Bool.eq_iff_iff.mpr ?_)
  rw [beq_iff_eq, beq_iff_eq]
  exact hhead

lemma startsBlankLine_eq_false {c : Char} (hc : c ≠ '\n') (t : Text) : startsBlankLine (c :: t) = false := by
  rw [startsBlankLine_cons, decide_eq_false hc, Bool.false_and]

section Ticks

variable {ticks run : ℕ} {s : Text}

lemma spanRest?_step {c : Char} (hc : c ≠ '`') (hfeed : c ≠ '\n') (hrun : run ≠ ticks) :
    spanRest? ticks run (c :: s) = (spanRest? ticks 0 s).map (c :: ·) := by
  rw [spanRest?, if_neg hc, if_neg hrun, startsBlankLine_eq_false hfeed, if_neg Bool.false_ne_true]

/-- Within a line, the search for ticks starts anew behind a character that is none. -/
lemma spanRest?_pass {u : Text} {d : Char} (hu : '\n' ∉ u) (hfeed : d ≠ '\n') (hd : d ≠ '`')
    (h : spanRest? ticks run (u ++ d :: s) = none) : spanRest? ticks 0 s = none := by
  have hmiss : ∀ {c run t}, c ≠ '\n' → spanRest? ticks run (c :: t) = none → c ≠ '`' →
      spanRest? ticks 0 t = none := by
    intro c run t hfeed hnone hc
    by_cases hrun : run = ticks
    · simp [spanRest?, hc, hrun] at hnone
    · rwa [spanRest?_step hc hfeed hrun, Option.map_eq_none_iff] at hnone
  induction u generalizing run with
  | nil => exact hmiss hfeed h hd
  | cons c u ih =>
    rw [List.mem_cons, not_or] at hu
    by_cases hc : c = '`'
    · rw [List.cons_append, spanRest?, if_pos hc, Option.map_eq_none_iff] at h
      exact ih hu.2 h
    · exact ih hu.2 (hmiss (Ne.symm hu.1) h hc)

/-- The search for ticks passes over a word. -/
lemma spanRest?_word {w : Text} (hw : Text.IsWord w) (hticks : ticks ≠ 0) (hrun : run ≠ ticks)
    (h : spanRest? ticks 0 s = none) : spanRest? ticks run (w ++ s) = none := by
  have hsigns : ∀ c ∈ letters, c ≠ '`' ∧ c ≠ '\n' := Text.forall_of_all (by decide)
  have hpass : ∀ v : Text, (∀ c ∈ v, c ∈ letters) → spanRest? ticks 0 (v ++ s) = none := by
    intro v hv
    induction v with
    | nil => exact h
    | cons c v ih =>
      obtain ⟨htick, hfeed⟩ := hsigns c (hv c List.mem_cons_self)
      rw [List.cons_append, spanRest?_step htick hfeed hticks.symm, ih fun d hd => hv d (List.mem_cons_of_mem c hd)]
      rfl
  obtain ⟨tail, rfl⟩ := hw.eq_cons
  rw [List.cons_append, spanRest?_step (by decide) (by decide) hrun,
    hpass tail fun c hc => hw.letters c (List.mem_cons_of_mem 'f' hc)]
  rfl

end Ticks

lemma spanRest?_worded {ticks run : ℕ} (hticks : ticks ≠ 0) (h : Worded t t')
    (hnone : spanRest? ticks run t = none) : spanRest? ticks run t' = none := by
  induction h generalizing run with
  | nil => exact hnone
  | @copy c t t' h ih => exact spanRest?_miss (startsBlankLine_worded h c) (fun _ => ih) hnone
  | @word l w t t' hl hw h ih =>
    have hlink : l.source ++ t = ('[' :: l.text ++ "](".toList ++ l.url ++ ")\x7b".toList ++ l.block) ++ '\x7d' :: t := by
      simp [Link.source]
    have hfeed : '\n' ∉ '[' :: l.text ++ "](".toList ++ l.url ++ ")\x7b".toList ++ l.block := by
      intro hmem
      apply hl.feed_not_mem
      rw [Link.source]
      exact List.mem_append_left _ hmem
    have hrun : run ≠ ticks := by
      rintro rfl
      simp [spanRest?, Link.source] at hnone
    rw [hlink] at hnone
    exact spanRest?_word hw hticks hrun (ih (spanRest?_pass hfeed (by decide) (by decide) hnone))

/-- No code span starts because of words. -/
lemma spanAt?_worded (h : Worded t t') (hnone : spanAt? t = none) : spanAt? t' = none := by
  refine Option.eq_none_iff_forall_ne_some.mpr fun r hr => ?_
  obtain ⟨ticks, c, cs, rfl, hne, hticks, hc⟩ := spanAt?_some hr
  have hlength : ticks.length ≠ 0 := mt List.length_eq_zero_iff.mp hne
  obtain ⟨u, rfl, hu⟩ := h.of_append fun hmem => absurd (hticks _ hmem) (by decide)
  rw [spanAt?_cons hne hticks hc] at hr
  obtain ⟨hblank, hr⟩ := Option.ite_none_left_eq_some.mp hr
  obtain ⟨rest, hrest, -⟩ := Option.map_eq_some_iff.mp hr
  generalize hcs : c :: cs = u' at hu
  cases hu with
  | nil => cases hcs
  | @copy d u u' hu =>
    obtain ⟨rfl, rfl⟩ := List.cons.inj hcs
    rw [startsBlankLine_worded hu] at hblank
    rw [spanAt?_cons hne hticks hc, if_neg hblank, Option.map_eq_none_iff] at hnone
    rw [spanRest?_worded hlength hu hnone] at hrest
    cases hrest
  | @word l w u u' hl hw hu =>
    -- the first character behind the ticks is passed over in either text
    have hworded : Worded (l.source ++ u) (w ++ u') := .word hl hw hu
    obtain ⟨tail, rfl⟩ := hw.eq_cons
    obtain ⟨rfl, rfl⟩ := List.cons.inj hcs
    obtain ⟨link, hlink⟩ : ∃ link, l.source = '[' :: link := ⟨_, rfl⟩
    rw [hlink, List.cons_append] at hnone hworded
    rw [spanAt?_cons hne hticks (by decide), startsBlankLine_eq_false (by decide), if_neg Bool.false_ne_true,
      Option.map_eq_none_iff] at hnone
    have hmiss : spanRest? ticks.length 0 ('f' :: tail ++ u') = none := spanRest?_worded hlength hworded
      (by rw [spanRest?_step (by decide) (by decide) hlength.symm, hnone]; rfl)
    replace hrest : spanRest? ticks.length 0 (tail ++ u') = some rest := hrest
    rw [List.cons_append, spanRest?_step (by decide) (by decide) hlength.symm, hrest] at hmiss
    cases hmiss

lemma at?_worded (h : Worded t t') (hedge : SameEdge before before') (hnone : at? before t = none) :
    at? before' t' = none := by
  unfold at? at hnone ⊢
  simp only [Option.orElse_eq_orElse, Option.orElse_eq_or, Option.or_eq_none_iff] at hnone ⊢
  obtain ⟨hraw, hfenced, hindented, hspan⟩ := hnone
  exact ⟨rawAt?_worded h hedge hraw, fencedAt?_worded h hedge hfenced, indentedAt?_worded h hedge hindented,
    spanAt?_worded h hspan⟩

end Misses

section Scan

variable {before before' : Text}

/-- Neither a link nor a word ends a line. -/
lemma sameEdge_worded {t t' : Text} (h : Worded t t') (hedge : SameEdge before before') :
    SameEdge (t.reverse ++ before) (t'.reverse ++ before') := by
  induction h generalizing before before' with
  | nil => exact hedge
  | @copy c t t' h ih =>
    rw [List.reverse_cons, List.reverse_cons, List.append_assoc, List.append_assoc]
    exact ih (hedge.append [c])
  | @word l w t t' hl hw h ih =>
    obtain ⟨w, d, rfl⟩ := (List.eq_nil_or_concat' w).resolve_left (by rintro rfl; cases hw.head)
    have hd : d ≠ '\n' := by
      rintro rfl
      exact absurd (hw.letters '\n' (by simp)) (by decide)
    rw [List.reverse_append, List.reverse_append, List.append_assoc, List.append_assoc]
    refine ih ?_
    rw [Link.source, List.reverse_append, List.reverse_concat]
    exact SameEdge.of_not_start _ _ (by decide) hd

/-- Prose stays prose with words for its links, and for those behind it. -/
lemma quiet_worded {q q' a a' : Text} (hq : Worded q q') (ha : Worded a a') (hedge : SameEdge before before')
    (h : Quiet find before q a) : Quiet find before' q' a' := by
  induction hq generalizing before before' with
  | nil => exact fun u v huv hv => absurd (List.append_eq_nil_iff.mp huv.symm).2 hv
  | @copy c q q' hq ih =>
    have hc : find before (c :: (q ++ a)) = none := h [] (c :: q) rfl (List.cons_ne_nil c q)
    refine .cons (find_eq_none.mpr ?_) (ih (hedge.append [c]) h.of_cons)
    exact at?_worded (.copy c (hq.append ha)) hedge (find_eq_none.mp hc)
  | @word l w q q' hl hw hq ih =>
    have hstarts : ∀ c ∈ letters, c ∉ [':', ' ', '\t', '`', '~'] := Text.forall_of_all (by decide)
    refine (quiet_of_not_mem (fun c hc => hstarts c (hw.letters c hc)) _ _).append (ih ?_ h.split.2)
    have hedge' := sameEdge_worded (.word hl hw .nil) hedge
    rwa [List.append_nil, List.append_nil] at hedge'

/-- Pieces whose plain stretches have words for links. -/
inductive WordedPiece : Piece Region → Piece Region → Prop
  | plain {t t' : Text} (h : Worded t t') : WordedPiece (.plain t) (.plain t')
  | found (r : Region) : WordedPiece (.found r) (.found r)

lemma worded_sourceOf {ps ps' : List (Piece Region)} (h : List.Forall₂ WordedPiece ps ps') :
    Worded (sourceOf source ps) (sourceOf source ps') := by
  induction h with
  | nil => exact .nil
  | cons hp _ ih =>
    rw [Text.sourceOf_cons, Text.sourceOf_cons]
    refine Worded.append ?_ ih
    cases hp with
    | plain h => exact h
    | found r => exact .refl _

/-- A text is cut into the same regions with words for the links between them. -/
lemma scanned_worded {ps ps' : List (Piece Region)} (hps : Scanned find source before ps)
    (h : List.Forall₂ WordedPiece ps ps') (hedge : SameEdge before before') : Scanned find source before' ps' := by
  induction hps generalizing before' ps' with
  | last hquiet =>
    cases h with
    | cons hp hrest =>
      cases hp with
      | plain hworded =>
        cases hrest
        exact .last (quiet_worded hworded .nil hedge hquiet)
  | @step before t r ps hquiet hfind hps ih =>
    cases h with
    | cons hp hrest =>
      cases hp with
      | @plain _ t' hworded =>
        cases hrest with
        | @cons _ _ _ ps' hr htail =>
          cases hr
          have hafter := worded_sourceOf htail
          have hall := (Worded.refl r.source).append hafter
          have hedge' := sameEdge_worded hworded hedge
          refine .step (quiet_worded hworded hall hedge hquiet) ?_ (ih htail (hedge'.append _))
          refine find_eq_some.mpr (at?_hit_of_misses (find_eq_some.mp hfind) hedge' (sameStart_worded hafter) ?_ ?_ ?_)
          · exact rawAt?_worded hall hedge'
          · exact fencedAt?_worded hall hedge'
          · exact indentedAt?_worded hall hedge'

end Scan

end Region

end Sitewright
