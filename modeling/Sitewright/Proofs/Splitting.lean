import Mathlib.Data.List.Basic
import Sitewright.Text.Basic

/-!
Splitting a text at a separator and joining the pieces again. The pieces hold no separator, and
pieces without one are got back from the text they are joined to.
-/
namespace Sitewright.Text

lemma splitOn_ne_nil (sep : Char) (t : Text) : splitOn sep t ≠ [] := by
  cases t with
  | nil => exact List.cons_ne_nil _ _
  | cons c cs =>
    unfold splitOn
    repeat' split
    all_goals exact List.cons_ne_nil _ _

lemma splitOn_cons {sep c : Char} (h : c ≠ sep) (t : Text) :
    ∃ line lines, splitOn sep t = line :: lines ∧ splitOn sep (c :: t) = (c :: line) :: lines := by
  obtain ⟨line, lines, hlines⟩ := List.exists_cons_of_ne_nil (splitOn_ne_nil sep t)
  refine ⟨line, lines, hlines, ?_⟩
  rw [splitOn, if_neg h, hlines]

lemma join_splitOn (sep : Char) (t : Text) : join [sep] (splitOn sep t) = t := by
  induction t with
  | nil => rfl
  | cons c cs ih =>
    by_cases hc : c = sep
    · subst hc
      obtain ⟨line, lines, hlines⟩ := List.exists_cons_of_ne_nil (splitOn_ne_nil c cs)
      rw [splitOn, if_pos rfl, hlines, join, ← hlines, ih]
      rfl
    · obtain ⟨line, lines, hlines, hcons⟩ := splitOn_cons hc cs
      rw [hcons]
      rw [hlines] at ih
      cases lines with
      | nil => exact congrArg (c :: ·) ih
      | cons next rest => exact congrArg (c :: ·) ih

lemma mem_of_mem_splitOn {sep c : Char} {t part : Text} (hpart : part ∈ splitOn sep t) (hc : c ∈ part) :
    c ∈ t := by
  induction t generalizing part with
  | nil =>
    obtain rfl := List.mem_singleton.mp hpart
    exact hc
  | cons d ds ih =>
    rw [splitOn] at hpart
    split at hpart
    · rcases List.mem_cons.mp hpart with rfl | hpart
      · cases hc
      · exact List.mem_cons_of_mem _ (ih hpart hc)
    · split at hpart
      · obtain rfl := List.mem_singleton.mp hpart
        exact List.mem_cons.mpr (.inl (List.mem_singleton.mp hc))
      · rename_i p ps hsplit
        rcases List.mem_cons.mp hpart with rfl | hpart
        · rcases List.mem_cons.mp hc with rfl | hc
          · exact List.mem_cons_self
          · exact List.mem_cons_of_mem _ (ih (hsplit ▸ List.mem_cons_self) hc)
        · exact List.mem_cons_of_mem _ (ih (hsplit ▸ List.mem_cons_of_mem _ hpart) hc)

lemma mem_join {sep : Text} {parts : List Text} {c : Char} (h : c ∈ join sep parts) :
    c ∈ sep ∨ ∃ part ∈ parts, c ∈ part := by
  fun_induction join sep parts with
  | case1 => cases h
  | case2 p => exact .inr ⟨p, List.mem_singleton_self p, h⟩
  | case3 p q ps ih =>
    simp only [List.mem_append] at h
    rcases h with (h | h) | h
    · exact .inr ⟨p, List.mem_cons_self, h⟩
    · exact .inl h
    · obtain h | ⟨part, hpart, h⟩ := ih h
      · exact .inl h
      · exact .inr ⟨part, List.mem_cons_of_mem _ hpart, h⟩

lemma join_concat (sep : Text) {parts : List Text} (h : parts ≠ []) (last : Text) :
    join sep (parts ++ [last]) = join sep parts ++ sep ++ last := by
  fun_induction join sep parts with
  | case1 => exact absurd rfl h
  | case2 p => rfl
  | case3 p q ps ih => simpa [join] using ih (List.cons_ne_nil _ _)

lemma splitOn_of_not_mem {sep : Char} {t : Text} (h : sep ∉ t) : splitOn sep t = [t] := by
  induction t with
  | nil => rfl
  | cons c cs ih =>
    rw [splitOn, if_neg (List.ne_of_not_mem_cons h).symm, ih (List.not_mem_of_not_mem_cons h)]

/-- A separator between two texts parts their pieces. -/
lemma splitOn_append (sep : Char) (a b : Text) :
    splitOn sep (a ++ sep :: b) = splitOn sep a ++ splitOn sep b := by
  induction a with
  | nil => simp [splitOn]
  | cons c cs ih =>
    by_cases hc : c = sep
    · rw [List.cons_append, splitOn, if_pos hc, ih, splitOn, if_pos hc]
      rfl
    · obtain ⟨line, lines, hlines, hcons⟩ := splitOn_cons hc cs
      rw [List.cons_append, splitOn, if_neg hc, ih, hcons, hlines]
      rfl

lemma not_mem_of_mem_splitOn {sep : Char} {t part : Text} (h : part ∈ splitOn sep t) :
    sep ∉ part := by
  induction t generalizing part with
  | nil =>
    obtain rfl := List.mem_singleton.mp h
    exact List.not_mem_nil
  | cons c cs ih =>
    by_cases hc : c = sep
    · rw [splitOn, if_pos hc] at h
      rcases List.mem_cons.mp h with rfl | h
      · exact List.not_mem_nil
      · exact ih h
    · obtain ⟨line, lines, hlines, hcons⟩ := splitOn_cons hc cs
      rw [hcons] at h
      rcases List.mem_cons.mp h with rfl | h
      · exact List.not_mem_cons_of_ne_of_not_mem (Ne.symm hc)
          (ih (hlines ▸ List.mem_cons_self))
      · exact ih (hlines ▸ List.mem_cons_of_mem _ h)

lemma splitOn_join {sep : Char} {parts : List Text} (hne : parts ≠ [])
    (h : ∀ part ∈ parts, sep ∉ part) : splitOn sep (join [sep] parts) = parts := by
  fun_induction join [sep] parts with
  | case1 => exact absurd rfl hne
  | case2 p => exact splitOn_of_not_mem (h p List.mem_cons_self)
  | case3 p q ps ih =>
    rw [List.append_assoc, List.singleton_append, splitOn_append,
      splitOn_of_not_mem (h p List.mem_cons_self),
      ih (List.cons_ne_nil _ _) fun part hpart => h part (List.mem_cons_of_mem _ hpart)]
    rfl

section Infix

variable {sep : Char} {x : Text}

/-- A word without the character between two texts lies in one of them. -/
lemma infix_append_cons {a b : Text} (hsep : sep ∉ x) (h : x <:+: a ++ sep :: b) :
    x <:+: a ∨ x <:+: b := by
  obtain ⟨u, v, huv⟩ := h
  rw [List.append_assoc] at huv
  rcases List.append_eq_append_iff.mp huv with ⟨w, rfl, hw⟩ | ⟨w, rfl, hw⟩
  · rcases List.append_eq_append_iff.mp hw with ⟨z, rfl, -⟩ | ⟨z, rfl, hz⟩
    · left
      rw [← List.append_assoc]
      exact (List.suffix_append u x).isInfix.trans (List.prefix_append _ z).isInfix
    · cases z with
      | nil =>
        left
        rw [List.append_nil]
        exact (List.suffix_append u w).isInfix
      | cons d z =>
        obtain ⟨rfl, -⟩ := List.cons.inj hz
        exact absurd (List.mem_append_right w List.mem_cons_self) hsep
  · cases w with
    | nil =>
      cases x with
      | nil => exact .inl List.nil_infix
      | cons d x =>
        obtain ⟨rfl, -⟩ := List.cons.inj hw
        exact absurd List.mem_cons_self hsep
    | cons d w =>
      right
      exact ⟨w, v, by rw [List.append_assoc, (List.cons.inj hw).2]; rfl⟩

lemma infix_join {parts : List Text} {part : Text} (h : part ∈ parts) (sep : Text) :
    part <:+: join sep parts := by
  fun_induction join sep parts with
  | case1 => cases h
  | case2 p => exact List.mem_singleton.mp h ▸ List.infix_rfl
  | case3 p q ps ih =>
    rcases List.mem_cons.mp h with rfl | h
    · rw [List.append_assoc]
      exact (List.prefix_append _ _).isInfix
    · exact (ih h).trans (List.suffix_append _ _).isInfix

lemma infix_of_mem_splitOn {t part : Text} (h : part ∈ splitOn sep t) : part <:+: t := by
  have hjoin := infix_join h [sep]
  rwa [join_splitOn] at hjoin

/-- A word without the separator lies in one of the joined pieces. -/
lemma exists_infix_of_join {parts : List Text} (hx : x ≠ []) (hsep : sep ∉ x)
    (h : x <:+: join [sep] parts) : ∃ part ∈ parts, x <:+: part := by
  fun_induction join [sep] parts with
  | case1 => exact absurd (List.infix_nil.mp h) hx
  | case2 p => exact ⟨p, List.mem_singleton_self p, h⟩
  | case3 p q ps ih =>
    rw [List.append_assoc, List.singleton_append] at h
    rcases infix_append_cons hsep h with h | h
    · exact ⟨p, List.mem_cons_self, h⟩
    · obtain ⟨part, hpart, hin⟩ := ih h
      exact ⟨part, List.mem_cons_of_mem _ hpart, hin⟩

lemma exists_infix_of_splitOn {t : Text} (hx : x ≠ []) (hsep : sep ∉ x) (h : x <:+: t) :
    ∃ part ∈ splitOn sep t, x <:+: part :=
  exists_infix_of_join hx hsep (by rwa [join_splitOn])

end Infix

end Sitewright.Text
