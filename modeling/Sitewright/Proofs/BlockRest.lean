import Mathlib.Data.List.Basic
import Sitewright.Markdown.Block
import Sitewright.Proofs.Scan
import Sitewright.Proofs.Splitting

/-!
What a rule leaves of a block. Every rule takes something off, so that the blocks still to be looked
at get shorter.
-/
namespace Sitewright.Markdown.Block

/-- The number of characters of some blocks, counting each block once more. -/
def size : List Text → ℕ
  | [] => 0
  | block :: blocks => block.length + 1 + size blocks

lemma size_nil : size [] = 0 := rfl

lemma size_cons (block : Text) (blocks : List Text) :
    size (block :: blocks) = block.length + 1 + size blocks := rfl

lemma size_append (a b : List Text) : size (a ++ b) = size a + size b := by
  induction a with
  | nil => rw [List.nil_append, size_nil, Nat.zero_add]
  | cons block blocks ih =>
    rw [List.cons_append, size_cons, size_cons, ih]
    omega

lemma size_singleton (b : Text) : size [b] = b.length + 1 := rfl

lemma size_unlessEmpty {b : Text} {n : ℕ} (h : b ≠ [] → b.length < n) : size (unlessEmpty b) ≤ n := by
  unfold unlessEmpty
  split
  · exact Nat.zero_le n
  · rename_i hne
    rw [size_singleton]
    exact h (by simpa using hne)

lemma size_shortened {blank : Prop} [Decidable blank] {b b' : Text} (h : b'.length ≤ b.length) :
    size (if blank then [] else [b']) ≤ b.length + 1 := by
  split
  · exact Nat.zero_le _
  · rw [size_singleton]
    omega

lemma length_join_cons (line : Text) (lines : List Text) :
    (Text.join ['\n'] lines).length ≤ (Text.join ['\n'] (line :: lines)).length ∧
      (lines ≠ [] → (Text.join ['\n'] lines).length < (Text.join ['\n'] (line :: lines)).length) := by
  cases lines with
  | nil => simp [Text.join]
  | cons next rest =>
    simp only [Text.join, List.length_append, List.length_singleton]
    omega

/-- The lines behind the first one are shorter than the text. -/
lemma length_join_lt {t : Text} {lines : List Text} (h : lines <:+ (Text.splitOn '\n' t).tail)
    (hne : lines ≠ []) : (Text.join ['\n'] lines).length < t.length := by
  rw [← congrArg List.length (Text.join_splitOn '\n' t)]
  cases hlines : Text.splitOn '\n' t with
  | nil =>
    rw [hlines] at h
    exact absurd (List.suffix_nil.mp h) hne
  | cons line rest =>
    rw [hlines] at h
    obtain ⟨front, hfront⟩ := h
    obtain rfl : front ++ lines = rest := hfront
    have hlt := (length_join_cons line (front ++ lines)).2 (by simp [hne])
    have hle : (Text.join ['\n'] lines).length ≤ (Text.join ['\n'] (front ++ lines)).length := by
      clear hlt hlines
      induction front with
      | nil => exact Nat.le_refl _
      | cons f fs ih => exact Nat.le_trans ih (length_join_cons f (fs ++ lines)).1
    omega

lemma suffix_detabLines {line : Text} {lines : List Text} (h : isIndented line = true) :
    (detabLines (line :: lines)).2 <:+ lines := by
  have hany : ∀ lines, (detabLines lines).2 <:+ lines := by
    intro lines
    induction lines with
    | nil => exact List.suffix_rfl
    | cons line lines ih =>
      unfold detabLines
      split
      · exact ih.trans (List.suffix_cons _ _)
      · split
        · exact ih.trans (List.suffix_cons _ _)
        · exact List.suffix_rfl
  unfold detabLines
  rw [if_pos h]
  exact hany lines

lemma length_detab {t : Text} (h : isIndented t = true) (hne : (detab t).2 ≠ []) :
    (detab t).2.length < t.length := by
  obtain ⟨rest, rfl⟩ := List.isPrefixOf_iff_prefix.mp h
  obtain ⟨line, lines, hlines⟩ := List.exists_cons_of_ne_nil (Text.splitOn_ne_nil '\n' rest)
  have hfirst : Text.splitOn '\n' (tab ++ rest) = (tab ++ line) :: lines := by
    simp [tab, Text.splitOn, hlines]
  have hsuffix : (detabLines (Text.splitOn '\n' (tab ++ rest))).2 <:+ lines := by
    rw [hfirst]
    exact suffix_detabLines (List.isPrefixOf_iff_prefix.mpr (List.prefix_append tab line))
  have hrest : (detab (tab ++ rest)).2 =
      Text.join ['\n'] (detabLines (Text.splitOn '\n' (tab ++ rest))).2 := rfl
  rw [hrest] at hne ⊢
  refine length_join_lt ?_ fun hnil => hne (by rw [hnil]; rfl)
  rw [congrArg List.tail hfirst]
  exact hsuffix

lemma headingText?_some {fuel : ℕ} {t text after : Text}
    (h : headingText? fuel t = some (text, after)) : text ⊆ t ∧ after <:+ t := by
  induction fuel generalizing t text with
  | zero => cases h
  | succ fuel ih =>
    have hdrop := List.dropWhile_suffix (l := t) (· = '#')
    unfold headingText? at h
    split at h
    · obtain ⟨rfl, rfl⟩ := Prod.mk.inj (Option.some.inj h)
      exact ⟨List.nil_subset _, List.nil_suffix⟩
    · rename_i hfeed
      obtain ⟨rfl, rfl⟩ := Prod.mk.inj (Option.some.inj h)
      rw [hfeed] at hdrop
      exact ⟨List.nil_subset _, (List.suffix_cons _ _).trans hdrop⟩
    · split at h
      · split at h
        · cases h
        · obtain ⟨⟨text', after'⟩, hrest, heq⟩ := Option.map_eq_some_iff.mp h
          obtain ⟨rfl, rfl⟩ := Prod.mk.inj heq
          obtain ⟨htext, hafter⟩ := ih hrest
          exact ⟨List.cons_subset_cons _ (List.cons_subset_cons _ htext),
            (hafter.trans (List.suffix_cons _ _)).trans (List.suffix_cons _ _)⟩
      · cases h
      · obtain ⟨⟨text', after'⟩, hrest, heq⟩ := Option.map_eq_some_iff.mp h
        obtain ⟨rfl, rfl⟩ := Prod.mk.inj heq
        obtain ⟨htext, hafter⟩ := ih hrest
        exact ⟨List.cons_subset_cons _ htext, hafter.trans (List.suffix_cons _ _)⟩
      · cases h

/-- A heading and the text around it are parts of the block, and what follows it is shorter. -/
lemma heading?_some {fresh : Bool} {t : Text} {h : Heading} (hh : heading? fresh t = some h) :
    h.text ⊆ t ∧ h.before ⊆ t ∧ h.after ⊆ t ∧ h.after.length < t.length := by
  induction t generalizing fresh h with
  | nil => cases hh
  | cons c cs ih =>
    unfold heading? at hh
    simp only [] at hh
    split at hh
    · rename_i found hfound
      obtain rfl := Option.some.inj hh
      split at hfound
      · rename_i hmark
        obtain ⟨⟨text, after⟩, htext, rfl⟩ := Option.map_eq_some_iff.mp hfound
        obtain ⟨-, rfl⟩ : _ ∧ c = '#' := by simpa using hmark
        obtain ⟨hread, hafter⟩ := headingText?_some htext
        have hlevel : 0 < min 6 (('#' :: cs).takeWhile (· = '#')).length := by
          rw [List.takeWhile_cons_of_pos (by decide), List.length_cons]
          omega
        have hle := hafter.length_le
        refine ⟨?_, List.nil_subset _, ?_, ?_⟩
        · exact fun d hd => List.mem_of_mem_drop (hread (Text.trim_subset _ _ hd))
        · exact fun d hd => List.mem_of_mem_drop (hafter.subset hd)
        · simp only [List.length_drop] at hle
          simp only [List.length_cons] at hle ⊢
          omega
      · cases hfound
    · obtain ⟨h', hrest, heq⟩ := Option.map_eq_some_iff.mp hh
      obtain ⟨htext, hbefore, hafter, hle⟩ := ih hrest
      have hcons : ∀ {u : Text}, u ⊆ cs → u ⊆ c :: cs := fun hu d hd => List.mem_cons_of_mem c (hu hd)
      rw [← heq, List.length_cons]
      split
      · exact ⟨hcons htext, hcons hbefore, hcons hafter, by omega⟩
      · exact ⟨hcons htext, List.cons_subset_cons c hbefore, hcons hafter, by dsimp only; omega⟩

lemma length_underlined {t text : Text} {level : ℕ} {rest : List Text}
    (h : underlined? t = some (level, text, rest)) (hne : rest ≠ []) :
    (Text.join ['\n'] rest).length < t.length := by
  unfold underlined? at h
  split at h
  · rename_i first second lines hlines
    simp only [] at h
    split at h
    · obtain ⟨-, -, rfl⟩ : _ ∧ _ ∧ lines = rest := by simpa using h
      refine length_join_lt ?_ hne
      rw [hlines]
      exact List.suffix_cons _ _
    · cases h
  · cases h

lemma length_rule {t before after : Text} (h : rule? t = some (before, after)) (hne : after ≠ []) :
    after.length < t.length := by
  obtain ⟨k, -, hk⟩ := Option.map_eq_some_iff.mp h
  obtain ⟨-, rfl⟩ := Prod.mk.inj hk
  refine length_join_lt ?_ fun hnil => hne (by rw [hnil]; rfl)
  rw [← List.drop_one]
  exact List.drop_suffix_drop_left _ (by omega)

lemma suffix_title {t title rest : Text} (h : Reference.title? t = some (title, rest)) : rest <:+ t := by
  have hdrop := List.dropWhile_suffix (l := t) (· ≠ '\n')
  unfold Reference.title? at h
  simp only [Text.spanWhile] at h
  repeat' split at h
  all_goals cases h
  all_goals exact hdrop

lemma suffix_afterUrl {t title rest : Text} (h : Reference.afterUrl? t = some (title, rest)) : rest <:+ t := by
  have hdrop := List.dropWhile_suffix (l := t) (· = ' ')
  unfold Reference.afterUrl? at h
  simp only [] at h
  split at h
  · obtain ⟨-, rfl⟩ := Prod.mk.inj (Option.some.inj h)
    exact List.nil_suffix
  · rename_i below hbelow
    have hspaces := List.dropWhile_suffix (l := below) (· = ' ')
    rw [hbelow] at hdrop
    have hnext : below <:+ t := (List.suffix_cons _ _).trans hdrop
    split at h
    · rename_i found hfound
      obtain rfl := Option.some.inj h
      exact ((suffix_title hfound).trans hspaces).trans hnext
    · split at h
      · obtain ⟨-, rfl⟩ := Prod.mk.inj (Option.some.inj h)
        exact hspaces.trans hnext
      · obtain ⟨-, rfl⟩ := Prod.mk.inj (Option.some.inj h)
        rw [hbelow]
        exact hdrop
  · exact (suffix_title h).trans hdrop

lemma suffix_urlOfLength {t url title rest : Text} {n : ℕ}
    (h : Reference.urlOfLength? t n = some (url, title, rest)) : rest <:+ t := by
  induction n with
  | zero => cases h
  | succ n ih =>
    unfold Reference.urlOfLength? at h
    split at h
    · rename_i title' rest' htitle
      obtain rfl : rest' = rest := congrArg (fun found => found.2.2) (Option.some.inj h)
      exact (suffix_title htitle).trans (List.drop_suffix _ _)
    · exact ih h

lemma suffix_skipSpaces (t : Text) : Reference.skipSpaces t <:+ t := by
  have hspaces := List.dropWhile_suffix (l := t) (· = ' ')
  unfold Reference.skipSpaces
  split
  · rename_i below hbelow
    rw [hbelow] at hspaces
    exact ((List.dropWhile_suffix _).trans (List.suffix_cons _ _)).trans hspaces
  · exact hspaces

/-- What follows a definition is an end of the text behind the brackets of its name. -/
lemma suffix_at {t name after : Text} {reference : Reference}
    (h : Reference.at? t = some (name, reference, after)) : ∃ front, t = front ++ after ∧ 2 ≤ front.length := by
  have hdrop := List.drop_suffix (min 3 (t.takeWhile (· = ' ')).length) t
  unfold Reference.at? at h
  simp only [] at h
  split at h
  · rename_i rest hrest
    rw [hrest] at hdrop
    split at h
    · rename_i name' rest' hspan
      obtain ⟨rfl, -⟩ := Text.spanWhile_eq hspan
      have hspaces := suffix_skipSpaces rest'
      have htarget : (Text.spanWhile (fun c => !Text.isBlank c) (Reference.skipSpaces rest')).2 <:+
          Reference.skipSpaces rest' := List.dropWhile_suffix _
      split at h
      · cases h
      · obtain ⟨⟨url', title, after''⟩, hfound, heq⟩ := Option.map_eq_some_iff.mp h
        obtain rfl : after'' = after := congrArg (fun found => found.2.2) heq
        obtain ⟨middle, hmiddle⟩ : after'' <:+ rest' := by
          split at hfound
          · rename_i title' after₀ htitle
            obtain rfl : after₀ = after'' := congrArg (fun found => found.2.2) (Option.some.inj hfound)
            exact ((suffix_afterUrl htitle).trans htarget).trans hspaces
          · exact (suffix_urlOfLength hfound).trans hspaces
        obtain ⟨indent, hindent⟩ := hdrop
        refine ⟨indent ++ '[' :: name' ++ [']', ':'] ++ middle, ?_, ?_⟩
        · rw [← hindent, ← hmiddle]
          simp
        · simp only [List.length_append, List.length_cons]
          omega
    · cases h
  · cases h

/-- A definition stands between what is before it and what follows it. -/
lemma exists_find {fresh : Bool} {t before name after : Text} {reference : Reference}
    (h : Reference.find? fresh t = some (before, name, reference, after)) :
    ∃ middle, t = before ++ (middle ++ after) ∧ 2 ≤ middle.length := by
  induction t generalizing fresh before with
  | nil => cases h
  | cons c cs ih =>
    unfold Reference.find? at h
    split at h
    · rename_i name' reference' after' hat
      obtain ⟨rfl, -, -, rfl⟩ : [] = before ∧ name' = name ∧ reference' = reference ∧
        after' = after := by simpa using h
      split at hat
      · exact suffix_at hat
      · cases hat
    · obtain ⟨⟨before', found⟩, hrest, heq⟩ := Option.map_eq_some_iff.mp h
      obtain ⟨rfl, rfl⟩ := Prod.mk.inj heq
      obtain ⟨middle, rfl, hmiddle⟩ := ih hrest
      exact ⟨middle, rfl, hmiddle⟩

lemma length_find {fresh : Bool} {t before name after : Text} {reference : Reference}
    (h : Reference.find? fresh t = some (before, name, reference, after)) :
    before.length + after.length + 2 ≤ t.length := by
  obtain ⟨middle, rfl, hmiddle⟩ := exists_find h
  simp only [List.length_append]
  omega

end Sitewright.Markdown.Block
