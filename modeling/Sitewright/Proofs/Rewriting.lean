import Mathlib.Data.List.Basic
import Mathlib.Data.List.TakeWhile
import Sitewright.Fence

/-!
Rewriting a text from left to right. Characters are copied and occurrences of a word are replaced;
a stretch that no occurrence overlaps stays as it is.
-/
namespace Sitewright

namespace Text

/-- One text is another one in which new texts replace some occurrences of a word. -/
inductive Rewritten (word : Text) (New : Text → Prop) : Text → Text → Prop
  | nil : Rewritten word New [] []
  | copy (c : Char) {t t' : Text} (h : Rewritten word New t t') : Rewritten word New (c :: t) (c :: t')
  | swap {new t t' : Text} (hnew : New new) (h : Rewritten word New t t') :
      Rewritten word New (word ++ t) (new ++ t')

/-- No occurrence of the word overlaps the middle one of three stretches. -/
def Apart (word before x after : Text) : Prop :=
  ∀ u v, u ++ word ++ v = before ++ x ++ after →
    (u ++ word).length ≤ before.length ∨ (before ++ x).length ≤ u.length

section Rewriting

variable {word : Text} {New : Text → Prop}

lemma Rewritten.copies {t t' : Text} (h : Rewritten word New t t') (lead : Text) :
    Rewritten word New (lead ++ t) (lead ++ t') := by
  induction lead with
  | nil => exact h
  | cons c cs ih => exact .copy c ih

lemma Rewritten.refl (t : Text) : Rewritten word New t t := by
  simpa using Rewritten.nil.copies t

lemma Rewritten.append {t t' u u' : Text} (h : Rewritten word New t t') (hu : Rewritten word New u u') :
    Rewritten word New (t ++ u) (t' ++ u') := by
  induction h with
  | nil => exact hu
  | copy c h ih => exact .copy c ih
  | swap hnew h ih =>
    rw [List.append_assoc, List.append_assoc]
    exact .swap hnew ih

lemma Apart.of_append {lead a x b : Text} (h : Apart word (lead ++ a) x b) : Apart word a x b := by
  intro u v huv
  have hplace := h (lead ++ u) v (by simp only [List.append_assoc] at huv ⊢; rw [huv])
  simp only [List.length_append] at hplace ⊢
  omega

/-- A word that stands at the front lies in front of the stretch or begins behind it. -/
lemma Apart.front {a x b t : Text} (h : Apart word a x b) (ht : word ++ t = a ++ x ++ b) :
    (∃ a', a = word ++ a' ∧ t = a' ++ x ++ b) ∨ a = [] ∧ x = [] := by
  rcases h [] t (by simpa using ht) with hle | hle
  · left
    have hprefix : word <+: a := by
      have hword : word <+: a ++ (x ++ b) := ⟨t, by rw [ht, List.append_assoc]⟩
      exact List.prefix_of_prefix_length_le hword (List.prefix_append _ _) (by simpa using hle)
    obtain ⟨a', rfl⟩ := hprefix
    refine ⟨a', rfl, ?_⟩
    rw [List.append_assoc, List.append_assoc] at ht
    rw [List.append_assoc]
    exact List.append_cancel_left ht
  · right
    simpa using hle

variable (hword : word ≠ [])
include hword

lemma Rewritten.eq_nil {t : Text} (h : Rewritten word New [] t) : t = [] := by
  generalize hs : ([] : Text) = s at h
  cases h with
  | nil => rfl
  | copy c h => cases hs
  | swap hnew h => exact absurd (List.append_eq_nil_iff.mp hs.symm).1 hword

/-- A stretch that no occurrence overlaps is copied. -/
lemma Rewritten.spare {t t' : Text} (h : Rewritten word New t t') {a x b : Text}
    (ht : t = a ++ x ++ b) (hapart : Apart word a x b) :
    ∃ a' b', t' = a' ++ x ++ b' ∧ Rewritten word New a a' ∧ Rewritten word New b b' := by
  induction h generalizing a x with
  | nil =>
    obtain ⟨rfl, rfl, rfl⟩ : a = [] ∧ x = [] ∧ b = [] := by simpa using ht.symm
    exact ⟨[], [], rfl, .nil, .nil⟩
  | @copy c t t' h ih =>
    cases a with
    | cons d a =>
      rw [List.cons_append, List.cons_append] at ht
      obtain ⟨rfl, hrest⟩ := List.cons.inj ht
      have hapart : Apart word ([c] ++ a) x b := hapart
      obtain ⟨a', b', rfl, ha, hb⟩ := ih hrest hapart.of_append
      exact ⟨c :: a', b', rfl, .copy c ha, hb⟩
    | nil =>
      cases x with
      | nil =>
        obtain rfl : c :: t = b := ht
        exact ⟨[], c :: t', rfl, .nil, .copy c h⟩
      | cons d x =>
        obtain ⟨rfl, hrest⟩ : c = d ∧ t = x ++ b := List.cons.inj ht
        have hinside : Apart word [] x b := by
          intro u v huv
          have hplace := hapart (c :: u) v (congrArg (c :: ·) huv)
          simp only [List.length_append, List.length_cons, List.length_nil] at hplace ⊢
          omega
        obtain ⟨a', b', rfl, ha, hb⟩ := ih hrest hinside
        obtain rfl := ha.eq_nil hword
        exact ⟨[], b', rfl, .nil, hb⟩
  | @swap new t t' hnew h ih =>
    rcases hapart.front ht with ⟨a, rfl, ht'⟩ | ⟨rfl, rfl⟩
    · obtain ⟨a', b', rfl, ha, hb⟩ := ih ht' hapart.of_append
      exact ⟨new ++ a', b', by simp only [List.append_assoc], .swap hnew ha, hb⟩
    · obtain rfl : word ++ t = b := ht
      exact ⟨[], new ++ t', rfl, .nil, .swap hnew h⟩

end Rewriting

section Second

variable {word : Text} {New : Text → Prop} {d : Char} (hnew : ∀ new, New new → new = [d])
include hnew

/-- Text without the character that replaces the word was there before. -/
lemma Rewritten.eq_of_not_mem {t t' : Text} (h : Rewritten word New t t') (hd : d ∉ t') : t = t' := by
  induction h with
  | nil => rfl
  | copy c h ih => rw [ih fun hmem => hd (List.mem_cons_of_mem c hmem)]
  | swap hn h ih =>
    rw [hnew _ hn] at hd
    simp at hd

lemma Rewritten.prefix_of_not_mem {t t' p : Text} (h : Rewritten word New t t') (hp : p <+: t')
    (hd : d ∉ p) : p <+: t := by
  induction h generalizing p with
  | nil => exact hp
  | copy c h ih =>
    cases p with
    | nil => exact List.nil_prefix
    | cons e p =>
      obtain ⟨rfl, hrest⟩ := List.cons_prefix_cons.mp hp
      exact List.cons_prefix_cons.mpr ⟨rfl, ih hrest fun hmem => hd (List.mem_cons_of_mem _ hmem)⟩
  | swap hn h ih =>
    cases p with
    | nil => exact List.nil_prefix
    | cons e p =>
      rw [hnew _ hn] at hp
      obtain ⟨rfl, -⟩ := List.cons_prefix_cons.mp hp
      simp at hd

lemma Rewritten.suffix_of_not_mem {t t' p : Text} (h : Rewritten word New t t') (hp : p <:+ t')
    (hd : d ∉ p) : p <:+ t := by
  induction h with
  | nil => exact hp
  | copy c h ih =>
    rcases List.suffix_cons_iff.mp hp with rfl | hrest
    · have hsame := h.eq_of_not_mem hnew fun hmem => hd (List.mem_cons_of_mem c hmem)
      exact hsame ▸ hp
    · exact (ih hrest).trans (List.suffix_cons c _)
  | swap hn h ih =>
    rw [hnew _ hn, List.singleton_append] at hp
    rcases List.suffix_cons_iff.mp hp with rfl | hrest
    · simp at hd
    · exact (ih hrest).trans (List.suffix_append _ _)

variable {word' : Text} (hd : d ∉ word')
include hd

/-- Rewriting the text in front of a stretch brings no other word closer to it. -/
lemma Apart.rewrite_front {a a' x b : Text} (hapart : Apart word' a x b)
    (h : Rewritten word New a a') : Apart word' a' x b := by
  intro u v huv
  have hsplit : u ++ (word' ++ v) = a' ++ (x ++ b) := by simpa using huv
  rcases List.append_eq_append_iff.mp hsplit with ⟨p, rfl, hp⟩ | ⟨q, rfl, hq⟩
  · rcases Nat.lt_or_ge p.length word'.length with hlt | hge
    · have hstart : p <+: word' :=
        List.prefix_of_prefix_length_le (hp ▸ List.prefix_append p _)
          (List.prefix_append word' v) hlt.le
      obtain ⟨u₀, rfl⟩ := h.suffix_of_not_mem hnew (List.suffix_append u p)
        fun hmem => hd (hstart.subset hmem)
      have hplace := hapart u₀ v (by rw [List.append_assoc, hp]; simp)
      simp only [List.length_append] at hplace ⊢
      omega
    · left
      simp only [List.length_append]
      omega
  · have hplace := hapart (a ++ q) v (by simp [hq])
    simp only [List.length_append] at hplace ⊢
    omega

lemma Apart.rewrite_behind {a x b b' : Text} (hapart : Apart word' a x b)
    (h : Rewritten word New b b') : Apart word' a x b' := by
  intro u v huv
  rcases List.append_eq_append_iff.mp huv with ⟨q, hq, rfl⟩ | ⟨p, hp, rfl⟩
  · exact hapart u (q ++ b) (by rw [← List.append_assoc, ← hq])
  · rcases Nat.lt_or_ge p.length word'.length with hlt | hge
    · have hend : p <:+ word' :=
        List.suffix_of_suffix_length_le (hp ▸ List.suffix_append _ p)
          (List.suffix_append u word') hlt.le
      obtain ⟨v₀, rfl⟩ := h.prefix_of_not_mem hnew (List.prefix_append p v)
        fun hmem => hd (hend.subset hmem)
      exact hapart u v₀ (by rw [hp]; simp)
    · right
      have hlength := congrArg List.length hp
      simp only [List.length_append] at hlength ⊢
      omega

end Second

section Overlap

variable {word before x after : Text}

/-- A word lies apart from a stretch if it neither reaches into its front nor starts inside it. -/
lemma apart_of (hfront : ∀ a b v, word = a ++ b → b ≠ [] → b ++ v ≠ x ++ after)
    (hinside : ∀ a b v, x = a ++ b → b ≠ [] → word ++ v ≠ b ++ after) : Apart word before x after := by
  intro u v huv
  by_contra! h
  obtain ⟨hword, hx⟩ := h
  rw [List.append_assoc, List.append_assoc] at huv
  simp only [List.length_append] at hword hx
  rcases List.append_eq_append_iff.mp huv with ⟨a, rfl, ha⟩ | ⟨a, rfl, ha⟩
  · rw [List.length_append] at hword
    rcases List.append_eq_append_iff.mp ha with ⟨b, rfl, -⟩ | ⟨b, rfl, hb⟩
    · simp only [List.length_append] at hword
      omega
    · exact hfront a b v rfl (by rintro rfl; simp at hword) hb.symm
  · rw [List.length_append] at hx
    rcases List.append_eq_append_iff.mp ha with ⟨b, rfl, -⟩ | ⟨b, rfl, hb⟩
    · simp only [List.length_append] at hx
      omega
    · exact hinside a b v rfl (by rintro rfl; simp at hx) hb

/-- Texts of which neither holds the first character of the other one do not overlap. -/
lemma apart_of_heads {c d : Char} (hword : word.head? = some c) (hx : x.head? = some d) (hc : c ∉ x)
    (hd : d ∉ word) : Apart word before x after := by
  obtain ⟨cs, rfl⟩ := List.head?_eq_some_iff.mp hword
  obtain ⟨ds, rfl⟩ := List.head?_eq_some_iff.mp hx
  refine apart_of (fun a b v hab hb h => ?_) (fun a b v hab hb h => ?_)
  · obtain ⟨e, b, rfl⟩ := List.exists_cons_of_ne_nil hb
    obtain ⟨rfl, -⟩ := List.cons.inj h
    exact hd (hab ▸ List.mem_append_right _ List.mem_cons_self)
  · obtain ⟨e, b, rfl⟩ := List.exists_cons_of_ne_nil hb
    obtain ⟨rfl, -⟩ := List.cons.inj h
    exact hc (hab ▸ List.mem_append_right _ List.mem_cons_self)

/-- A word that is not inside a stretch and holds neither its first nor its last character does not
overlap it. -/
lemma apart_of_ends {c d : Char} (hin : ¬ word <:+: x) (hhead : x.head? = some c)
    (hlast : x.getLast? = some d) (hc : c ∉ word) (hd : d ∉ word) : Apart word before x after := by
  refine apart_of (fun a b v hab hb h => ?_) (fun a b v hab hb h => ?_)
  · obtain ⟨cs, rfl⟩ := List.head?_eq_some_iff.mp hhead
    obtain ⟨e, b, rfl⟩ := List.exists_cons_of_ne_nil hb
    obtain ⟨rfl, -⟩ := List.cons.inj h
    exact hc (hab ▸ List.mem_append_right _ List.mem_cons_self)
  · rcases List.append_eq_append_iff.mp h with ⟨z, rfl, -⟩ | ⟨z, rfl, -⟩
    · exact hin (hab ▸ (List.prefix_append word z).isInfix.trans (List.suffix_append a _).isInfix)
    · rw [hab, List.getLast?_append_of_ne_nil _ hb, List.getLast?_eq_some_getLast hb] at hlast
      obtain rfl := Option.some.inj hlast
      exact hd (List.mem_append_left _ (List.getLast_mem hb))

end Overlap

/-- A word apart from the stretch at the front of a text lies behind it. -/
lemma Apart.infix_behind {word x rest : Text} (h : Apart word [] x rest) (hin : word <:+: x ++ rest) :
    word <:+: rest := by
  obtain ⟨u, v, huv⟩ := hin
  rcases h u v huv with hplace | hplace
  · simp only [List.length_append, List.length_nil] at hplace
    obtain rfl : word = [] := List.length_eq_zero_iff.mp (by omega)
    exact List.nil_infix
  · obtain ⟨u, rfl⟩ : x <+: u := by
      refine List.prefix_of_prefix_length_le (List.prefix_append x rest) ?_ hplace
      exact ⟨word ++ v, by rw [← huv, List.append_assoc]⟩
    rw [List.append_assoc, List.append_assoc, List.append_cancel_left_eq] at huv
    exact ⟨u, v, by rw [← huv, List.append_assoc]⟩

section New

variable {word : Text} {New : Text → Prop}

/-- What a rewritten text begins with stood there before, or new text begins inside it. -/
lemma Rewritten.prefix_or {t t' x : Text} (h : Rewritten word New t t') (hx : x <+: t') :
    x <+: t ∨ ∃ before new after, New new ∧ t' = before ++ new ++ after ∧
      before.length < x.length := by
  induction h generalizing x with
  | nil => exact .inl hx
  | copy c h ih =>
    cases x with
    | nil => exact .inl List.nil_prefix
    | cons d x =>
      obtain ⟨rfl, hrest⟩ := List.cons_prefix_cons.mp hx
      rcases ih hrest with hkept | ⟨before, new, after, hnew, rfl, hlength⟩
      · exact .inl (List.cons_prefix_cons.mpr ⟨rfl, hkept⟩)
      · exact .inr ⟨d :: before, new, after, hnew, rfl, Nat.succ_lt_succ hlength⟩
  | @swap new t t' hnew h ih =>
    cases x with
    | nil => exact .inl List.nil_prefix
    | cons d x => exact .inr ⟨[], new, t', hnew, rfl, Nat.succ_pos _⟩

/-- A word in a rewritten text was there before, or overlaps new text. -/
lemma Rewritten.infix_or {t t' x : Text} (h : Rewritten word New t t') (hx : x <:+: t') :
    x <:+: t ∨ ∃ before new after, New new ∧ t' = before ++ new ++ after ∧
      ¬ Apart x before new after := by
  induction h with
  | nil => exact .inl hx
  | @copy c t t' h ih =>
    rcases List.infix_cons_iff.mp hx with hstart | hrest
    · cases x with
      | nil => exact .inl List.nil_infix
      | cons d x =>
        obtain ⟨rfl, hrest⟩ := List.cons_prefix_cons.mp hstart
        rcases h.prefix_or hrest with hkept | ⟨before, new, after, hnew, rfl, hlength⟩
        · exact .inl (List.cons_prefix_cons.mpr ⟨rfl, hkept⟩).isInfix
        · refine .inr ⟨d :: before, new, after, hnew, rfl, fun hapart => ?_⟩
          obtain ⟨v, hv⟩ := hrest
          have hplace := hapart [] v (congrArg (d :: ·) hv)
          simp only [List.length_append, List.length_cons, List.length_nil] at hplace
          omega
    · rcases ih hrest with hkept | ⟨before, new, after, hnew, rfl, hover⟩
      · exact .inl (hkept.trans (List.suffix_cons c t).isInfix)
      · refine .inr ⟨c :: before, new, after, hnew, rfl, fun hapart => hover ?_⟩
        have hapart : Apart x ([c] ++ before) new after := hapart
        exact hapart.of_append
  | @swap new t t' hnew h ih =>
    by_cases hapart : Apart x [] new t'
    · rcases ih (hapart.infix_behind hx) with hkept | ⟨before, new', after, hnew', rfl, hover⟩
      · exact .inl (hkept.trans (List.suffix_append word t).isInfix)
      · refine .inr ⟨new ++ before, new', after, hnew', by simp only [List.append_assoc], fun hapart' => hover ?_⟩
        exact hapart'.of_append
    · exact .inr ⟨[], new, t', hnew, rfl, hapart⟩

/-- A word that overlaps nothing new is in a text after rewriting just where it was before. -/
lemma Rewritten.infix_iff {x t t' : Text} (h : Rewritten word New t t') {c d : Char}
    (hword : word.head? = some c) (hx : x.head? = some d) (hc : c ∉ x) (hd : d ∉ word)
    (hnew : ∀ new, New new → ∀ before after, Apart x before new after) : x <:+: t' ↔ x <:+: t := by
  constructor
  · intro hin
    rcases h.infix_or hin with hkept | ⟨before, new, after, hn, -, hover⟩
    · exact hkept
    · exact absurd (hnew new hn before after) hover
  · rintro ⟨a, b, hab⟩
    have hne : word ≠ [] := by
      rintro rfl
      cases hword
    obtain ⟨a', b', rfl, -, -⟩ := h.spare hne hab.symm (apart_of_heads hword hx hc hd)
    exact ⟨a', b', rfl⟩

end New

/-- Text without white space at its ends. -/
def Trimmed (t : Text) : Prop :=
  (∀ c ∈ t.head?, isBlank c = false) ∧ ∀ c ∈ t.getLast?, isBlank c = false

section Trimming

lemma dropWhile_of_all {p : Char → Bool} {front t : Text} (hfront : ∀ c ∈ front, p c = true)
    (ht : ∀ c ∈ t.head?, p c = false) : (front ++ t).dropWhile p = t := by
  rw [List.dropWhile_append_of_pos hfront]
  cases t with
  | nil => rfl
  | cons c cs => simp [ht c rfl]

/-- Trimming takes away what is around a text that begins and ends with characters that stay. -/
lemma trim_eq {p : Char → Bool} {front t back : Text} (hfront : ∀ c ∈ front, p c = true)
    (hhead : ∀ c ∈ t.head?, p c = false) (hlast : ∀ c ∈ t.getLast?, p c = false)
    (hback : ∀ c ∈ back, p c = true) : trim p (front ++ t ++ back) = t := by
  have hreverse : ∀ c ∈ back.reverse, p c = true := by simpa using hback
  by_cases hnil : t = []
  · subst hnil
    have hall : ∀ c ∈ front ++ back, p c = true := by
      intro c hc
      rcases List.mem_append.mp hc with hc | hc
      · exact hfront c hc
      · exact hback c hc
    rw [List.append_nil, trim, List.dropWhile_eq_nil_iff.mpr hall]
    rfl
  · obtain ⟨c, cs, rfl⟩ := List.exists_cons_of_ne_nil hnil
    have hdrop : (front ++ (c :: cs ++ back)).dropWhile p = c :: cs ++ back :=
      dropWhile_of_all hfront hhead
    rw [List.append_assoc, trim, hdrop, dropEndWhile, List.reverse_append,
      dropWhile_of_all hreverse (by rw [List.head?_reverse]; exact hlast), List.reverse_reverse]

lemma strip_eq {front t back : Text} (hfront : ∀ c ∈ front, isBlank c = true) (ht : Trimmed t)
    (hback : ∀ c ∈ back, isBlank c = true) : strip (front ++ t ++ back) = t :=
  trim_eq hfront ht.1 ht.2 hback

lemma trimmed_of_forall {t : Text} (h : ∀ c ∈ t, isBlank c = false) : Trimmed t :=
  ⟨fun c hc => h c (List.mem_of_mem_head? hc), fun c hc => h c (List.mem_of_getLast? hc)⟩

lemma strip_of_trimmed {t : Text} (h : Trimmed t) : strip t = t := by
  have hstrip := strip_eq (List.forall_mem_nil _) h (List.forall_mem_nil _)
  rwa [List.nil_append, List.append_nil] at hstrip

lemma exists_strip (t : Text) : ∃ front back, t = front ++ strip t ++ back ∧ Trimmed (strip t) ∧
    (∀ c ∈ front, isBlank c = true) ∧ ∀ c ∈ back, isBlank c = true := by
  obtain ⟨s, hs⟩ : ∃ s, s = (t.dropWhile isBlank).reverse := ⟨_, rfl⟩
  have hstrip : strip t = (s.dropWhile isBlank).reverse := by rw [hs]; rfl
  have hsplit : t.dropWhile isBlank = strip t ++ (s.takeWhile isBlank).reverse := by
    rw [hstrip, ← List.reverse_append, List.takeWhile_append_dropWhile, hs, List.reverse_reverse]
  refine ⟨t.takeWhile isBlank, (s.takeWhile isBlank).reverse, ?_, ⟨?_, ?_⟩, ?_, ?_⟩
  · rw [List.append_assoc, ← hsplit, List.takeWhile_append_dropWhile]
  · intro c hc
    have hhead : c ∈ (t.dropWhile isBlank).head? := by
      rw [hsplit]
      exact List.mem_head?_append_of_mem_head? hc
    have hnot := List.head?_dropWhile_not isBlank t
    rw [Option.mem_def.mp hhead] at hnot
    exact hnot
  · intro c hc
    rw [hstrip, List.getLast?_reverse] at hc
    have hnot := List.head?_dropWhile_not isBlank s
    rw [Option.mem_def.mp hc] at hnot
    exact hnot
  · exact fun c hc => List.mem_takeWhile_imp hc
  · exact fun c hc => List.mem_takeWhile_imp (List.mem_reverse.mp hc)

/-- Dropping from the front stops at a text that begins with a character that stays. -/
lemma dropWhile_append_stop {p : Char → Bool} {x : Text} (hne : x ≠ []) (hhead : ∀ c ∈ x.head?, p c = false)
    (a b : Text) : (a ++ (x ++ b)).dropWhile p = a.dropWhile p ++ (x ++ b) := by
  obtain ⟨c, cs, rfl⟩ := List.exists_cons_of_ne_nil hne
  rw [List.dropWhile_append]
  split
  · rename_i hempty
    rw [List.isEmpty_iff.mp hempty, List.nil_append]
    exact List.dropWhile_cons_of_neg (by simp [hhead c rfl])
  · rfl

/-- Dropping from the end stops at a text that ends with a character that stays. -/
lemma dropEndWhile_append_stop {p : Char → Bool} {x : Text} (hne : x ≠ [])
    (hlast : ∀ c ∈ x.getLast?, p c = false) (a b : Text) :
    dropEndWhile p (a ++ (x ++ b)) = a ++ (x ++ dropEndWhile p b) := by
  have hreverse : ∀ c ∈ x.reverse.head?, p c = false := by
    rw [List.head?_reverse]
    exact hlast
  rw [dropEndWhile, List.reverse_append, List.reverse_append, List.append_assoc,
    dropWhile_append_stop (by simpa using hne) hreverse]
  simp only [List.reverse_append, List.reverse_reverse, List.append_assoc, dropEndWhile]

/-- What begins and ends with characters that stay is not touched by trimming. -/
lemma infix_trim {p : Char → Bool} {x t : Text} (h : x <:+: t) (hne : x ≠ [])
    (hhead : ∀ c ∈ x.head?, p c = false) (hlast : ∀ c ∈ x.getLast?, p c = false) : x <:+: trim p t := by
  obtain ⟨a, b, rfl⟩ := h
  rw [trim, List.append_assoc, dropWhile_append_stop hne hhead, dropEndWhile_append_stop hne hlast]
  exact ⟨_, _, List.append_assoc _ _ _⟩

lemma infix_strip {x t : Text} (h : x <:+: t) (hne : x ≠ []) (hx : Trimmed x) : x <:+: strip t :=
  infix_trim h hne hx.1 hx.2

variable {word : Text} {New : Text → Prop}

lemma Rewritten.eq_nil_iff (hword : word ≠ []) (hnew : ∀ new, New new → new ≠ [] ∧ Trimmed new)
    {t t' : Text} (h : Rewritten word New t t') : t = [] ↔ t' = [] := by
  cases h with
  | nil => simp
  | copy c h => simp
  | swap hn h => simp [hword, (hnew _ hn).1]

lemma Rewritten.trimmed (hword : word ≠ []) (hnew : ∀ new, New new → new ≠ [] ∧ Trimmed new)
    {t t' : Text} (h : Rewritten word New t t') (ht : Trimmed t) : Trimmed t' := by
  constructor
  · cases h with
    | nil => simp
    | copy c h => exact ht.1
    | @swap new t t' hn h =>
      obtain ⟨hne, hfirst, -⟩ := hnew _ hn
      rw [List.head?_append_of_ne_nil _ hne]
      exact hfirst
  · replace ht := ht.2
    induction h with
    | nil => exact ht
    | @copy c t t' h ih =>
      by_cases hnil : t = []
      · obtain rfl := (h.eq_nil_iff hword hnew).mp hnil
        subst hnil
        exact ht
      · have hnil' := fun hn => hnil ((h.eq_nil_iff hword hnew).mpr hn)
        rw [← List.singleton_append, List.getLast?_append_of_ne_nil _ hnil] at ht
        rw [← List.singleton_append, List.getLast?_append_of_ne_nil _ hnil']
        exact ih ht
    | @swap new t t' hn h ih =>
      by_cases hnil : t = []
      · obtain rfl := (h.eq_nil_iff hword hnew).mp hnil
        rw [List.append_nil]
        exact (hnew _ hn).2.2
      · have hnil' := fun hn => hnil ((h.eq_nil_iff hword hnew).mpr hn)
        rw [List.getLast?_append_of_ne_nil _ hnil] at ht
        rw [List.getLast?_append_of_ne_nil _ hnil']
        exact ih ht

/-- Rewriting does not look at the white space around a text. -/
lemma Rewritten.strip (hword : word ≠ []) (hnew : ∀ new, New new → new ≠ [] ∧ Trimmed new)
    {t t' : Text} (h : Rewritten word New (strip t) t') :
    ∃ t₀, Rewritten word New t t₀ ∧ t' = Text.strip t₀ := by
  obtain ⟨front, back, ht, htrim, hfront, hback⟩ := exists_strip t
  refine ⟨front ++ t' ++ back, ?_, ?_⟩
  · rw [ht, List.append_assoc, List.append_assoc]
    exact (h.append (.refl back)).copies front
  · exact (strip_eq hfront (h.trimmed hword hnew htrim) hback).symm

end Trimming

/-- A scan that replaces the word wherever it finds it, and copies everything else, rewrites. -/
lemma rewritten_of_scan {word : Text} {New : Text → Prop} {σ : Type} (hword : word ≠ [])
    {f : σ → Text → Text} (hnil : ∀ s, f s [] = [])
    (hcopy : ∀ s c cs, ¬ word <+: c :: cs → ∃ s', f s (c :: cs) = c :: f s' cs)
    (hswap : ∀ s rest, ∃ new s', f s (word ++ rest) = new ++ f s' rest ∧ New new) (s : σ) (t : Text) :
    Rewritten word New t (f s t) := by
  induction h : t.length using Nat.strongRecOn generalizing t s with
  | _ n ih =>
    by_cases hstart : word <+: t
    · obtain ⟨rest, rfl⟩ := hstart
      obtain ⟨new, s', hscan, hnew⟩ := hswap s rest
      have hshorter : rest.length < n := by
        have hpos := List.length_pos_iff.mpr hword
        rw [← h, List.length_append]
        omega
      rw [hscan]
      exact .swap hnew (ih rest.length hshorter s' rest rfl)
    · cases t with
      | nil =>
        rw [hnil]
        exact .nil
      | cons c cs =>
        obtain ⟨s', hscan⟩ := hcopy s c cs hstart
        rw [hscan]
        exact .copy c (ih cs.length (by simp [← h]) s' cs rfl)

lemma replaceFrom_skip (old new t rest : Text) :
    replaceFrom old new t.length (t ++ rest) = replaceFrom old new 0 rest := by
  induction t with
  | nil => rfl
  | cons c cs ih => exact ih

lemma rewritten_replace {old new : Text} (hold : old ≠ []) (t : Text) :
    Rewritten old (· = new) t (replace old new t) := by
  rw [replace, if_neg (by simpa using hold)]
  refine rewritten_of_scan hold (f := fun _ : Unit => replaceFrom old new 0) (fun _ => rfl) ?_ ?_ () t
  · intro _ c cs hstart
    exact ⟨(), by simp only [replaceFrom, List.isPrefixOf_iff_prefix, if_neg hstart]⟩
  · intro _ rest
    obtain ⟨d, ds, rfl⟩ := List.exists_cons_of_ne_nil hold
    have hstart : d :: ds <+: d :: (ds ++ rest) := List.prefix_append (d :: ds) rest
    refine ⟨new, (), ?_, rfl⟩
    simp only [List.cons_append, replaceFrom, List.isPrefixOf_iff_prefix, if_pos hstart,
      List.length_cons, Nat.add_sub_cancel, replaceFrom_skip]

end Text

namespace Fence
open Text (Rewritten Trimmed)

lemma labelFrom_skip (langs : List Text) (t rest : Text) :
    labelFrom langs t.length (t ++ rest) = labelFrom langs 0 rest := by
  induction t with
  | nil => rfl
  | cons c cs ih => exact ih

/-- The tag that opens a highlighted block in a language. -/
def labelTag (language : Text) : Text :=
  "<div class=\"codehilite\" data-language=\"".toList ++ Text.escapeAttribute language ++ "\">".toList

lemma labelTag_ne_nil (language : Text) : labelTag language ≠ [] :=
  List.append_ne_nil_of_right_ne_nil _ (by decide)

lemma head?_labelTag (language : Text) : (labelTag language).head? = some '<' := rfl

lemma getLast?_labelTag (language : Text) : (labelTag language).getLast? = some '>' := by
  unfold labelTag
  rw [List.getLast?_append_of_ne_nil _ (by decide)]
  rfl

lemma trimmed_labelTag (language : Text) : Trimmed (labelTag language) := by
  constructor
  · intro c hc
    rw [head?_labelTag] at hc
    exact Option.some.inj hc ▸ rfl
  · intro c hc
    rw [getLast?_labelTag] at hc
    exact Option.some.inj hc ▸ rfl

lemma labelFrom_cons {c : Char} {cs : Text} (langs : List Text) (h : ¬ highlightTag <+: c :: cs) :
    labelFrom langs 0 (c :: cs) = c :: labelFrom langs 0 cs := by
  simp only [labelFrom, List.isPrefixOf_iff_prefix, if_neg h]

/-- A tag is given the next language. -/
lemma labelFrom_tag (langs : List Text) (rest : Text) : labelFrom langs 0 (highlightTag ++ rest) =
    labelTag (langs.headD "text".toList) ++ labelFrom langs.tail 0 rest := by
  obtain ⟨d, ds, htag⟩ := List.exists_cons_of_ne_nil (l := highlightTag) (by decide)
  have hstart : highlightTag <+: d :: (ds ++ rest) := by
    rw [htag]
    exact List.prefix_append (d :: ds) rest
  have hsize : highlightTag.length - 1 = ds.length := by
    rw [htag]
    rfl
  rw [htag, List.cons_append]
  simp only [labelFrom, List.isPrefixOf_iff_prefix, if_pos hstart, hsize, labelFrom_skip]
  rfl

/-- Labelling writes tags of the given languages, or of plain text. -/
lemma rewritten_labelFrom (langs : List Text) (t : Text) :
    Rewritten highlightTag (fun new => ∃ language ∈ "text".toList :: langs, new = labelTag language) t
      (labelFrom langs 0 t) := by
  -- the languages not yet used up are among the given ones
  refine Text.rewritten_of_scan (by decide) (σ := {left : List Text // left ⊆ langs})
    (f := fun left => labelFrom left.1 0) (fun _ => rfl) ?_ ?_ ⟨langs, List.Subset.refl _⟩ t
  · exact fun left c cs hstart => ⟨left, labelFrom_cons left.1 hstart⟩
  · intro left rest
    refine ⟨labelTag (left.1.headD "text".toList), ⟨left.1.tail, fun l hl => left.2 (List.mem_of_mem_tail hl)⟩,
      labelFrom_tag left.1 rest, _, ?_, rfl⟩
    obtain ⟨left, hleft⟩ := left
    cases left with
    | nil => exact List.mem_cons_self
    | cons l ls => exact List.mem_cons_of_mem _ (hleft List.mem_cons_self)

end Fence
end Sitewright
