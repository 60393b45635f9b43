import Sitewright.Proofs.RegionLocal
import Sitewright.Proofs.Source

/-!
What normalizing fences does to the blocks of a text. A line is edited if it looks like an indented fence
or has a comma behind its language, wherever it stands; the blocks and the code in them stay the same just
when no line of code is edited.
-/
namespace Sitewright.Fence

open Region (fenceOf? upToThreeSpaces)
open Text (isSpaceTab spanWhile spanWhile_of_head)

section Lines

/-- A fence line as written: up to three spaces, the fence, the language and the rest. -/
structure Line.Stands (f : Line) (indent : ℕ) (line : Text) : Prop where
  written : line = Text.fill indent ' ' ++ (f.fence ++ (f.language ++ f.extra))
  indent_le : indent ≤ 3
  three_le : 3 ≤ f.fence.length
  fence : ∀ c ∈ f.fence, isFenceChar c = true
  language : ∀ c ∈ f.language, isLanguageChar c = true
  fence_ends : ∀ c ∈ (f.language ++ f.extra).head?, isFenceChar c = false
  language_ends : ∀ c ∈ f.extra.head?, isLanguageChar c = false

lemma head?_dropWhile {p : Char → Bool} {t : Text} : ∀ c ∈ (t.dropWhile p).head?, p c = false := by
  intro c hc
  have hne : t.dropWhile p ≠ [] := by
    intro hnil
    rw [hnil] at hc
    cases hc
  have hnot := List.head_dropWhile_not p hne
  rw [List.head?_eq_some_head hne] at hc
  rwa [Option.some.inj hc] at hnot

lemma upToThreeSpaces_fill {indent : ℕ} {t : Text} (hindent : indent ≤ 3) (ht : ∀ c ∈ t.head?, c ≠ ' ') :
    upToThreeSpaces (Text.fill indent ' ' ++ t) = (Text.fill indent ' ', t) := by
  have hspaces : spanWhile (· = ' ') (Text.fill indent ' ' ++ t) = (Text.fill indent ' ', t) :=
    spanWhile_of_head (fun c hc => decide_eq_true (List.eq_of_mem_replicate hc))
      fun c hc => decide_eq_false (ht c hc)
  have hlength : min 3 ((Text.fill indent ' ' ++ t).takeWhile (· = ' ')).length = (Text.fill indent ' ').length := by
    rw [(Prod.mk.inj hspaces).1, Text.fill, List.length_replicate]
    omega
  rw [upToThreeSpaces, hlength, List.take_left, List.drop_left]

lemma exists_upToThreeSpaces (line : Text) :
    ∃ indent ≤ 3, (upToThreeSpaces line).1 = Text.fill indent ' ' := by
  refine ⟨min 3 (line.takeWhile (· = ' ')).length, Nat.min_le_left _ _, List.eq_replicate_iff.mpr ⟨?_, ?_⟩⟩
  · have hle := (List.takeWhile_prefix (l := line) (· = ' ')).length_le
    simp only [upToThreeSpaces, List.length_take]
    omega
  · intro c hc
    have hlead : (upToThreeSpaces line).1 <+: line.takeWhile (· = ' ') := by
      refine List.prefix_of_prefix_length_le (List.take_prefix _ line) (List.takeWhile_prefix _) ?_
      simp only [upToThreeSpaces, List.length_take]
      omega
    simpa using List.mem_takeWhile_imp (hlead.subset hc)

lemma ofText?_eq (line : Text) : Line.ofText? line =
    (let rest := (upToThreeSpaces line).2
     if 3 ≤ (spanWhile isFenceChar rest).1.length then
       some ⟨(spanWhile isFenceChar rest).1, (spanWhile isLanguageChar (spanWhile isFenceChar rest).2).1,
         (spanWhile isLanguageChar (spanWhile isFenceChar rest).2).2⟩
     else none) := rfl

variable {f : Line} {indent : ℕ} {line : Text}

section Stands

variable (h : f.Stands indent line)
include h

lemma Line.Stands.head : ∃ c rest, f.fence = c :: rest ∧ isFenceChar c = true := by
  have hne : f.fence ≠ [] := by
    intro hnil
    have hlength := h.three_le
    rw [hnil] at hlength
    exact absurd hlength (by decide)
  obtain ⟨c, rest, hfence⟩ := List.exists_cons_of_ne_nil hne
  exact ⟨c, rest, hfence, h.fence c (hfence ▸ List.mem_cons_self)⟩

/-- What stands behind the spaces of a fence line. -/
lemma Line.Stands.unindented : (upToThreeSpaces line).2 = f.fence ++ (f.language ++ f.extra) := by
  obtain ⟨c, rest, hfence, hc⟩ := h.head
  have hhead : ∀ d ∈ (f.fence ++ (f.language ++ f.extra)).head?, d ≠ ' ' := by
    rintro d hd rfl
    rw [hfence] at hd
    obtain rfl := Option.some.inj hd
    cases hc
  rw [h.written, upToThreeSpaces_fill h.indent_le hhead]

lemma Line.Stands.ofText? : Line.ofText? line = some f := by
  rw [ofText?_eq, h.unindented]
  dsimp only
  rw [spanWhile_of_head h.fence h.fence_ends, if_pos h.three_le]
  dsimp only
  rw [spanWhile_of_head h.language h.language_ends]

end Stands

/-- A fence line is read as it is written. -/
lemma ofText?_eq_some : Line.ofText? line = some f ↔ ∃ indent, f.Stands indent line := by
  refine ⟨fun h => ?_, fun ⟨indent, h⟩ => h.ofText?⟩
  have hwritten := (Region.upToThreeSpaces_append line).symm
  rw [ofText?_eq] at h
  obtain ⟨hthree, h⟩ := Option.ite_none_right_eq_some.mp h
  obtain rfl := Option.some.inj h
  obtain ⟨indent, hindent, hspaces⟩ := exists_upToThreeSpaces line
  refine ⟨indent, ?_, hindent, hthree, fun c hc => Text.mem_spanWhile hc, fun c hc => Text.mem_spanWhile hc, ?_,
    head?_dropWhile⟩
  · rw [Text.spanWhile_append, Text.spanWhile_append, ← hspaces]
    exact hwritten
  · rw [Text.spanWhile_append]
    exact head?_dropWhile

/-- What a fence line becomes: its fence and language, and the rest unless a comma starts it. -/
lemma Line.Stands.normalizeLine_eq (h : f.Stands indent line) : normalizeLine line =
    f.fence ++ (f.language ++ if f.extra.head? = some ',' then [] else f.extra) := by
  rw [Fence.normalizeLine, h.ofText?]
  dsimp only
  split
  · rw [List.append_nil]
  · obtain ⟨c, rest, hfence, hc⟩ := h.head
    have hspaces : spanWhile (· = ' ') line = (Text.fill indent ' ', f.fence ++ (f.language ++ f.extra)) := by
      rw [h.written]
      refine spanWhile_of_head (fun c hc => decide_eq_true (List.eq_of_mem_replicate hc)) fun d hd => ?_
      rw [hfence] at hd
      obtain rfl := Option.some.inj hd
      refine decide_eq_false ?_
      rintro rfl
      cases hc
    exact (Prod.mk.inj hspaces).2

/-- A fence line is edited if it is indented or has a comma behind its language. -/
def IsEdited (line : Text) : Prop :=
  ∃ (f : Line) (indent : ℕ), f.Stands indent line ∧ (0 < indent ∨ f.extra.head? = some ',')

lemma normalizeLine_ne_iff : normalizeLine line ≠ line ↔ IsEdited line := by
  constructor
  · intro hne
    cases hf : Line.ofText? line with
    | none =>
      rw [normalizeLine, hf] at hne
      exact absurd rfl hne
    | some f =>
      obtain ⟨indent, h⟩ := ofText?_eq_some.mp hf
      refine ⟨f, indent, h, ?_⟩
      by_contra! hkept
      obtain ⟨hindent, hcomma⟩ := hkept
      obtain rfl : indent = 0 := Nat.le_zero.mp hindent
      rw [h.normalizeLine_eq, if_neg hcomma] at hne
      exact hne h.written.symm
  · rintro ⟨f, indent, h, hedit⟩ heq
    have hlength := congrArg List.length heq
    rw [h.normalizeLine_eq, congrArg List.length h.written] at hlength
    simp only [List.length_append, Text.fill, List.length_replicate] at hlength
    rcases hedit with hindent | hcomma
    · split at hlength <;> simp at hlength <;> omega
    · rw [if_pos hcomma] at hlength
      have hextra : 0 < f.extra.length := by
        obtain ⟨rest, hextra⟩ := List.head?_eq_some_iff.mp hcomma
        rw [hextra]
        exact Nat.succ_pos _
      simp only [List.length_nil] at hlength
      omega

end Lines

section Roles

/-- Does a line close a block opened by a fence: the same fence, which may be longer, and blanks? -/
def closes (fence line : Text) : Bool :=
  match fence.isPrefixOf? (upToThreeSpaces line).2 with
  | some rest => (rest.dropWhile fun c => fence.contains c).all isSpaceTab
  | none => false

/-- What a line is in a text. -/
inductive LineRole where
  | prose
  | opens
  | code
  | closes
  deriving DecidableEq

/-- The lines of a text with their roles; `opened` is the fence of a block still open. -/
def rolesFrom (opened : Option Text) : List Text → List (LineRole × Text)
  | [] => []
  | line :: lines =>
    match opened with
    | none =>
      match fenceOf? line with
      | some fence => (.opens, line) :: rolesFrom (some fence) lines
      | none => (.prose, line) :: rolesFrom none lines
    | some fence =>
      if closes fence line then (.closes, line) :: rolesFrom none lines
      else (.code, line) :: rolesFrom (some fence) lines

/-- The lines of a text with their roles in its fenced blocks. -/
def roles (t : Text) : List (LineRole × Text) := rolesFrom none (Text.splitOn '\n' t)

/-- The roles of the lines, with the text of those that are code. -/
def outlineFrom (opened : Option Text) (lines : List Text) : List (LineRole × Option Text) :=
  (rolesFrom opened lines).map fun p => (p.1, if p.1 = .code then some p.2 else none)

/-- The blocks of a text: the roles of its lines, with the text of those that are code. -/
def outline (t : Text) : List (LineRole × Option Text) := outlineFrom none (Text.splitOn '\n' t)

lemma map_rolesFrom (opened : Option Text) (lines : List Text) : (rolesFrom opened lines).map Prod.snd = lines := by
  fun_induction rolesFrom opened lines <;> simp_all

lemma fenceOf?_eq (line : Text) : fenceOf? line =
    match (upToThreeSpaces line).2 with
    | [] => none
    | c :: rest => if isFenceChar c && 3 ≤ ((c :: rest).takeWhile (· = c)).length then
        some ((c :: rest).takeWhile (· = c)) else none := rfl

variable {f : Line} {indent : ℕ} {line fence : Text}

/-- A fence is made of fence characters. -/
lemma isFenceChar_of_fenceOf? (h : fenceOf? line = some fence) : ∀ c ∈ fence, isFenceChar c = true := by
  rw [fenceOf?_eq] at h
  split at h
  · cases h
  · obtain ⟨hfence, h⟩ := Option.ite_none_right_eq_some.mp h
    obtain rfl := Option.some.inj h
    intro d hd
    obtain rfl : d = _ := by simpa using List.mem_takeWhile_imp hd
    exact (Bool.and_eq_true_iff.mp hfence).1

/-- The first run of a fence ends with the fence at the latest. -/
lemma Line.Stands.takeWhile_eq (h : f.Stands indent line) {c : Char} (hc : isFenceChar c = true) :
    (f.fence ++ (f.language ++ f.extra)).takeWhile (· = c) = f.fence.takeWhile (· = c) := by
  have hstop : (f.language ++ f.extra).takeWhile (· = c) = [] := by
    cases hrest : f.language ++ f.extra with
    | nil => rfl
    | cons d rest =>
      have hd := h.fence_ends d (by rw [hrest]; rfl)
      refine List.takeWhile_cons_of_neg ?_
      rintro heq
      rw [of_decide_eq_true heq, hc] at hd
      cases hd
  rw [List.takeWhile_append, hstop, List.append_nil]
  split
  · rename_i hlength
    exact ((List.takeWhile_prefix _).eq_of_length hlength).symm
  · rfl

/-- Whether a line opens a block depends on its fence only. -/
lemma Line.Stands.fenceOf?_congr {g : Line} {indent' : ℕ} {line' : Text} (h : f.Stands indent line)
    (h' : g.Stands indent' line') (hfence : g.fence = f.fence) : fenceOf? line' = fenceOf? line := by
  obtain ⟨c, rest, hcons, hc⟩ := h.head
  have hrun := h.takeWhile_eq hc
  have hrun' := h'.takeWhile_eq hc
  have hrest := h.unindented
  have hrest' := h'.unindented
  rw [hcons, List.cons_append] at hrest hrun
  rw [hfence, hcons, List.cons_append] at hrest' hrun'
  rw [fenceOf?_eq, fenceOf?_eq, hrest, hrest']
  dsimp only
  rw [hrun, hrun']

/-- The fence line that a fence line becomes. -/
lemma Line.Stands.normalized (h : f.Stands indent line) :
    Line.Stands ⟨f.fence, f.language, if f.extra.head? = some ',' then [] else f.extra⟩ 0
      (normalizeLine line) where
  written := h.normalizeLine_eq
  indent_le := Nat.zero_le 3
  three_le := h.three_le
  fence := h.fence
  language := h.language
  fence_ends := by
    intro c hc
    refine h.fence_ends c ?_
    split at hc
    · rw [List.append_nil] at hc
      rw [List.head?_append, Option.mem_def.mp hc]
      rfl
    · exact hc
  language_ends := by
    intro c hc
    split at hc
    · cases hc
    · exact h.language_ends c hc

/-- Normalizing a line opens the block that it opened before. -/
lemma fenceOf?_normalizeLine (line : Text) : fenceOf? (normalizeLine line) = fenceOf? line := by
  cases hf : Line.ofText? line with
  | none => rw [normalizeLine, hf]
  | some f =>
    obtain ⟨indent, h⟩ := ofText?_eq_some.mp hf
    exact h.fenceOf?_congr h.normalized rfl

/-- A line that closes a block still does so when it is normalized. -/
lemma closes_normalizeLine (hfence : ∀ c ∈ fence, isFenceChar c = true) (hclose : closes fence line = true) :
    closes fence (normalizeLine line) = true := by
  cases hf : Line.ofText? line with
  | none => rwa [normalizeLine, hf]
  | some f =>
    obtain ⟨indent, h⟩ := ofText?_eq_some.mp hf
    -- nothing but blanks stands behind the fence, so there is no comma, and only spaces are dropped
    have hcomma : f.extra.head? ≠ some ',' := by
      intro hcomma
      rw [closes, h.unindented] at hclose
      split at hclose
      · rename_i rest hrest
        rw [List.isPrefixOf?_eq_some_iff_append_eq] at hrest
        have hmem : ',' ∈ fence ++ rest := by
          rw [hrest]
          exact List.mem_append_right _ (List.mem_append_right _ (List.mem_of_mem_head? hcomma))
        have hnot : ',' ∉ fence := fun hm => absurd (hfence ',' hm) (by decide)
        have hin := (List.mem_append.mp hmem).resolve_left hnot
        rw [← List.takeWhile_append_dropWhile (p := fun c => fence.contains c) (l := rest)] at hin
        rcases List.mem_append.mp hin with hin | hin
        · exact hnot (by simpa using List.mem_takeWhile_imp hin)
        · exact absurd (List.all_eq_true.mp hclose ',' hin) (by decide)
      · cases hclose
    have hsame : (upToThreeSpaces (normalizeLine line)).2 = (upToThreeSpaces line).2 := by
      rw [h.normalized.unindented, h.unindented, if_neg hcomma]
    rw [closes, hsame]
    exact hclose

/-- A line that is edited but is no line of a block has a fence of both characters. -/
lemma Line.Stands.mixed (h : f.Stands indent line) (hnone : fenceOf? line = none) :
    '`' ∈ f.fence ∧ '~' ∈ f.fence := by
  obtain ⟨c, rest, hcons, hc⟩ := h.head
  have hrest := h.unindented
  have hrun := h.takeWhile_eq hc
  rw [hcons, List.cons_append] at hrest hrun
  rw [fenceOf?_eq, hrest] at hnone
  dsimp only at hnone
  rw [hrun, hc] at hnone
  -- another fence character follows the first run
  obtain ⟨d, hd, hdc⟩ : ∃ d ∈ f.fence, d ≠ c := by
    by_contra! hall
    have hwhole : (c :: rest).takeWhile (· = c) = c :: rest :=
      List.takeWhile_eq_self_iff.mpr fun d hd => decide_eq_true (hall d (hcons ▸ hd))
    rw [hwhole, ← hcons] at hnone
    simp [h.three_le] at hnone
  have hcmem : c ∈ f.fence := hcons ▸ List.mem_cons_self
  have hd' := h.fence d hd
  simp only [isFenceChar, Bool.or_eq_true, decide_eq_true_eq] at hc hd'
  rcases hc with rfl | rfl <;> rcases hd' with rfl | rfl
  · exact absurd rfl hdc
  · exact ⟨hcmem, hd⟩
  · exact ⟨hd, hcmem⟩
  · exact absurd rfl hdc

/-- The blocks of normalized lines are the same just when no line of code is edited. -/
lemma outlineFrom_normalize (opened : Option Text) (hopened : ∀ fence ∈ opened, ∀ c ∈ fence, isFenceChar c = true)
    (lines : List Text) : outlineFrom opened (lines.map normalizeLine) = outlineFrom opened lines ↔
      ∀ p ∈ rolesFrom opened lines, p.1 = .code → normalizeLine p.2 = p.2 := by
  induction lines generalizing opened with
  | nil => simp [outlineFrom, rolesFrom]
  | cons line lines ih =>
    cases opened with
    | none =>
      have hline := fenceOf?_normalizeLine line
      cases hfence : fenceOf? line with
      | none =>
        rw [hfence] at hline
        simpa [outlineFrom, rolesFrom, hfence, hline] using ih none hopened
      | some fence =>
        rw [hfence] at hline
        have hchars : ∀ g ∈ some fence, ∀ c ∈ g, isFenceChar c = true := by
          rintro _ ⟨⟩
          exact isFenceChar_of_fenceOf? hfence
        simpa [outlineFrom, rolesFrom, hfence, hline] using ih (some fence) hchars
    | some fence =>
      by_cases hclose : closes fence line = true
      · have hclose' := closes_normalizeLine (hopened fence rfl) hclose
        have hnone : ∀ g ∈ (none : Option Text), ∀ c ∈ g, isFenceChar c = true := nofun
        simpa [outlineFrom, rolesFrom, hclose, hclose'] using ih none hnone
      · -- a line of code that is edited either changes its text or closes the block
        by_cases hedit : normalizeLine line = line
        · simpa [outlineFrom, rolesFrom, hclose, hedit] using ih (some fence) hopened
        · by_cases hclose' : closes fence (normalizeLine line) = true <;>
            simp [outlineFrom, rolesFrom, hclose, hclose', hedit]

/-- A line of prose opens no block. -/
lemma fenceOf?_of_prose {opened : Option Text} {lines : List Text} {p : LineRole × Text}
    (hp : p ∈ rolesFrom opened lines) (hprose : p.1 = .prose) : fenceOf? p.2 = none := by
  fun_induction rolesFrom opened lines with
  | case1 => cases hp
  | case2 line lines fence hfence ih =>
    rcases List.mem_cons.mp hp with rfl | hp
    · cases hprose
    · exact ih hp
  | case3 line lines hnone ih =>
    rcases List.mem_cons.mp hp with rfl | hp
    · exact hnone
    · exact ih hp
  | case4 line lines fence hclose ih =>
    rcases List.mem_cons.mp hp with rfl | hp
    · cases hprose
    · exact ih hp
  | case5 line lines fence hcode ih =>
    rcases List.mem_cons.mp hp with rfl | hp
    · cases hprose
    · exact ih hp

lemma splitOn_normalize (t : Text) :
    Text.splitOn '\n' (normalize t) = (Text.splitOn '\n' t).map normalizeLine := by
  refine Text.splitOn_join (by simpa using Text.splitOn_ne_nil '\n' t) fun part hpart hfeed => ?_
  obtain ⟨line, hline, rfl⟩ := List.mem_map.mp hpart
  exact Text.not_mem_of_mem_splitOn hline ((infix_normalizeLine line).subset hfeed)

end Roles

/-- Normalizing fences goes line by line. A line changes exactly if it is a fence line that is indented or
has a comma behind its language, in a block of code as well as outside; one that changes outside the
blocks has a fence of both characters. So the blocks of a text and the code in them are as before just
when no line of code is such a fence line. -/
theorem outline_normalize (t : Text) :
    Text.splitOn '\n' (normalize t) = (roles t).map (fun p => normalizeLine p.2) ∧
    (∀ p ∈ roles t, normalizeLine p.2 ≠ p.2 ↔ IsEdited p.2) ∧
    (∀ p ∈ roles t, normalizeLine p.2 ≠ p.2 → p.1 = .prose →
      ∃ (f : Line) (indent : ℕ), f.Stands indent p.2 ∧ '`' ∈ f.fence ∧ '~' ∈ f.fence) ∧
    (outline (normalize t) = outline t ↔ ∀ p ∈ roles t, p.1 = .code → ¬ IsEdited p.2) := by
  refine ⟨?_, fun p _ => normalizeLine_ne_iff, fun p hp hne hprose => ?_, ?_⟩
  · have hlines := congrArg (List.map normalizeLine) (map_rolesFrom none (Text.splitOn '\n' t))
    rw [List.map_map] at hlines
    rw [splitOn_normalize, ← hlines]
    rfl
  · obtain ⟨f, indent, h, -⟩ := normalizeLine_ne_iff.mp hne
    exact ⟨f, indent, h, h.mixed (fenceOf?_of_prose hp hprose)⟩
  · rw [outline, outline, splitOn_normalize, outlineFrom_normalize none nofun]
    refine forall₂_congr fun p _ => forall_congr' fun _ => ?_
    rw [← normalizeLine_ne_iff, not_not]

/-- A sample of a fence in a longer fence loses its indentation and what stands behind its language. -/
example : normalize "````\n  ```rust,ignore\n````".toList = "````\n```rust\n````".toList ∧
    roles "````\n  ```rust,ignore\n````".toList = [(.opens, "````".toList),
      (.code, "  ```rust,ignore".toList), (.closes, "````".toList)] := by decide

end Sitewright.Fence
