import Sitewright.Proofs.KeptMark
import Sitewright.Proofs.LinkSign

/-!
HTML in which no link is in code. It is put together from text, tags, and stretches of code without
tokens; and it stays so when kept HTML of this kind comes back in place of its marks.
-/
namespace Sitewright.Markdown
open CodeSign

/-- Signs that leave the depth as it was, with no link in code among them. -/
def IsLevel (signs : List CodeSign) : Prop :=
  ∀ depth rest, linksWithin depth (signs ++ rest) = linksWithin depth rest

lemma isLevel_nil : IsLevel [] := fun _ _ => rfl

lemma IsLevel.append {a b : List CodeSign} (ha : IsLevel a) (hb : IsLevel b) : IsLevel (a ++ b) := by
  intro depth rest
  rw [List.append_assoc, ha, hb]

/-- What is level stays so inside an element of code. -/
lemma IsLevel.enclose {a : List CodeSign} (ha : IsLevel a) : IsLevel (.opens :: a ++ [.closes]) := by
  intro depth rest
  rw [List.cons_append, List.cons_append, List.append_assoc, linksWithin, ha, List.singleton_append, linksWithin,
    Nat.add_sub_cancel]

/-- Some words, such as the tokens of links, of which none is in a text. -/
def Free (words : Text → Prop) (t : Text) : Prop := ∀ word, words word → ¬ word <:+: t

lemma Free.of_infix {words : Text → Prop} {t u : Text} (h : Free words t) (hin : u <:+: t) : Free words u :=
  fun word hword hu => h word hword (hu.trans hin)

/-- A stretch of HTML that opens and closes code and holds no mark and none of some words. No part of it
is part of a paragraph. -/
structure IsCode (words : Text → Prop) (x : Text) : Prop where
  level : IsLevel (ofHtml x)
  head : x.head? = some '<' ∧ x.take 3 ∉ ["<p>".toList, "</p".toList]
  last : ∃ y c, x = y ++ [c, '>'] ∧ c ≠ 'p'
  free : Free words x
  mark_free : Mark.opening ∉ x

/-- HTML made of text, tags and code without the words. -/
inductive Calm (words : Text → Prop) : Text → Prop
  | nil : Calm words []
  | char {c : Char} {t : Text} (h : c ≠ '<') (ht : Calm words t) : Calm words (c :: t)
  | tag {t : Text} (h : ofTag? t ≠ some .opens) (ht : Calm words t) : Calm words ('<' :: t)
  | code {x t : Text} (h : IsCode words x) (ht : Calm words t) : Calm words (x ++ t)

variable {words : Text → Prop}

section Signs

variable {stands : Text → Bool} (hstands : ∀ t, stands t = true → ∃ word, words word ∧ word <+: t)
include hstands

/-- What stands for a link is one of the words, so none is in code. -/
lemma along_code (hangle : ∀ word, words word → '>' ∉ word) {x : Text} (hfree : Free words x) (hlast : x.getLast? = some '>')
    (t : Text) : along stands (x ++ t) = ofHtml x ++ along stands t := by
  refine along_of_last hlast fun u v huv hv => ?_
  rw [← Bool.not_eq_true]
  intro hlink
  have hclosed : '>' ∈ v := by
    rw [huv, List.getLast?_append_of_ne_nil _ hv] at hlast
    exact List.mem_of_getLast? hlast
  obtain ⟨word, hword, hprefix⟩ := hstands _ hlink
  rcases List.prefix_or_prefix_of_prefix hprefix (List.prefix_append v t) with hin | hin
  · exact hfree word hword (hin.isInfix.trans (huv ▸ (List.suffix_append u v).isInfix))
  · exact hangle word hword (hin.subset hclosed)

/-- In calm HTML no link is in code. -/
theorem Calm.linksWithin_eq_zero (hangle : ∀ word, words word → '>' ∉ word) {t : Text} (h : Calm words t) :
    linksWithin 0 (along stands t) = 0 := by
  have hlink : ∀ signs, linksWithin 0 (.link :: signs) = linksWithin 0 signs := fun signs => by
    rw [linksWithin, if_pos rfl, Nat.zero_add]
  induction h with
  | nil => rfl
  | char hc ht ih =>
    rw [along, at?, if_neg hc]
    split
    · exact (hlink _).trans ih
    · exact ih
  | @tag t hopens ht ih =>
    rw [along, at?, if_pos rfl]
    cases hsign : ofTag? t with
    | none => exact ih
    | some sign =>
      cases sign with
      | opens => exact absurd hsign hopens
      | closes => exact ih
      | link => exact (hlink _).trans ih
  | code hx ht ih =>
    obtain ⟨y, c, hlast, -⟩ := hx.last
    rw [along_code hstands hangle hx.free (by rw [hlast]; simp), hx.level, ih]

end Signs

section Parts

lemma Calm.append_text {t u : Text} (hu : '<' ∉ u) (h : Calm words t) : Calm words (u ++ t) := by
  induction u with
  | nil => exact h
  | cons c cs ih =>
    rw [List.mem_cons, not_or] at hu
    exact .char (Ne.symm hu.1) (ih hu.2)

/-- A tag in front of calm HTML. -/
lemma Calm.append_tag {t u : Text} (hu : '<' ∉ u) (hname : ∃ c ∈ u, inName c = false)
    (hsign : ofTag? u ≠ some .opens) (h : Calm words t) : Calm words ('<' :: (u ++ t)) := by
  refine .tag ?_ (h.append_text hu)
  rw [ofTag?_append hname]
  exact hsign

lemma IsCode.ne_nil {x : Text} (h : IsCode words x) : x ≠ [] := by
  rintro rfl
  cases h.head.1

/-- Text in front of calm HTML can be taken away. -/
lemma Calm.of_text {t u : Text} (hu : '<' ∉ u) (h : Calm words (u ++ t)) : Calm words t := by
  induction u with
  | nil => exact h
  | cons c cs ih =>
    rw [List.mem_cons, not_or] at hu
    refine ih hu.2 ?_
    generalize hv : c :: cs ++ t = v at h
    cases h with
    | nil => cases hv
    | char hd ht =>
      obtain ⟨-, rfl⟩ := List.cons.inj hv
      exact ht
    | tag hd ht =>
      obtain ⟨rfl, -⟩ := List.cons.inj hv
      exact absurd rfl hu.1
    | code hx ht =>
      obtain ⟨y, rfl⟩ := List.head?_eq_some_iff.mp hx.head.1
      obtain ⟨rfl, -⟩ := List.cons.inj hv
      exact absurd rfl hu.1

/-- The tag of a paragraph in front of calm HTML can be taken away. -/
lemma Calm.of_paragraph {t u : Text} (hu : u = "<p>".toList ∨ u = "</p>".toList) (h : Calm words (u ++ t)) :
    Calm words t := by
  obtain ⟨inner, hinner, hclean⟩ : ∃ inner, u = '<' :: inner ∧ '<' ∉ inner := by
    rcases hu with rfl | rfl
    · exact ⟨"p>".toList, rfl, by decide⟩
    · exact ⟨"/p>".toList, rfl, by decide⟩
  generalize hv : u ++ t = v at h
  cases h with
  | nil =>
    rw [hinner] at hv
    cases hv
  | char hd ht =>
    rw [hinner] at hv
    exact absurd (List.cons.inj hv).1.symm hd
  | tag hd ht =>
    rw [hinner] at hv
    obtain ⟨-, rfl⟩ := List.cons.inj hv
    exact ht.of_text hclean
  | @code x t' hx ht =>
    -- code is neither longer nor shorter than such a tag
    obtain ⟨y, c, hlast, -⟩ := hx.last
    have hstart : u.take 3 ∈ ["<p>".toList, "</p".toList] ∧
        ∀ x ∈ u.inits, x.getLast? = some '>' → x.take 3 ∈ ["<p>".toList, "</p".toList] := by
      rcases hu with rfl | rfl <;> decide
    refine absurd ?_ hx.head.2
    rcases List.prefix_or_prefix_of_prefix (List.prefix_append x t') (hv ▸ List.prefix_append u t) with hin | hin
    · exact hstart.2 x ((List.mem_inits ..).mpr hin) (by rw [hlast]; simp)
    · obtain ⟨rest, rfl⟩ := hin
      rw [List.take_append_of_le_length]
      · exact hstart.1
      · rcases hu with rfl | rfl <;> decide

lemma Calm.append_paragraph {t u : Text} (hu : u = "<p>".toList ∨ u = "</p>".toList) (h : Calm words t) :
    Calm words (u ++ t) := by
  rcases hu with rfl | rfl
  · exact h.append_tag (u := "p>".toList) (by decide) ⟨'>', by decide, by decide⟩ (by decide)
  · exact h.append_tag (u := "/p>".toList) (by decide) ⟨'>', by decide, by decide⟩ (by decide)

/-- White space behind calm HTML can be taken away. -/
lemma Calm.of_append_blank {s back : Text} (h : Calm words (s ++ back)) (hblank : ∀ c ∈ back, Text.isBlank c = true) :
    Calm words s := by
  generalize hsplit : s ++ back = t at h
  induction h generalizing s with
  | nil =>
    rw [(List.append_eq_nil_iff.mp hsplit).1]
    exact .nil
  | @char c t hc ht ih =>
    cases s with
    | nil => exact .nil
    | cons d s =>
      obtain ⟨rfl, hrest⟩ := List.cons.inj hsplit
      exact .char hc (ih hrest)
  | @tag t hsign ht ih =>
    cases s with
    | nil => exact .nil
    | cons d s =>
      obtain ⟨rfl, rfl⟩ := List.cons.inj hsplit
      refine .tag ?_ (ih rfl)
      rw [← ofTag?_append_blank s hblank]
      exact hsign
  | @code x t hx ht ih =>
    rcases List.append_eq_append_iff.mp hsplit with ⟨z, hz, hz'⟩ | ⟨z, rfl, hz⟩
    · -- a stretch of code does not end in white space, so it is there as a whole
      obtain ⟨y, c, hlast, -⟩ := hx.last
      cases z with
      | nil =>
        rw [List.append_nil] at hz
        subst hz
        have hs : Calm words ([] : Text) := .nil
        simpa using Calm.code hx hs
      | cons d z =>
        have hend : '>' ∈ d :: z := by
          have hget : (s ++ d :: z).getLast? = some '>' := by rw [← hz, hlast]; simp
          rw [List.getLast?_append_of_ne_nil _ (List.cons_ne_nil d z)] at hget
          exact List.mem_of_getLast? hget
        have hblanks := hblank '>' (hz' ▸ List.mem_append_left t hend)
        exact absurd hblanks (by decide)
    · exact .code hx (ih hz.symm)

/-- White space at the ends of calm HTML can be taken away. -/
lemma Calm.strip {t : Text} (h : Calm words t) : Calm words (Text.strip t) := by
  obtain ⟨front, back, ht, -, hfront, hblank⟩ := Text.exists_strip t
  have hbracket : '<' ∉ front := fun hmem => absurd (hfront '<' hmem) (by decide)
  rw [ht, List.append_assoc] at h
  exact (h.of_text hbracket).of_append_blank hblank

end Parts

namespace Kept

/-- Kept HTML that may come back anywhere outside code. -/
structure Harmless (words : Text → Prop) (html : Text) : Prop where
  mark_free : Mark.opening ∉ html
  strange : Strange html
  calm : ∀ t, Calm words t → Calm words (html ++ t)

lemma placed?_strange {t : Text} {p : Placed} (h : placed? t = some p) : Strange t := by
  obtain ⟨m, whole, rest, hhead, -, rfl, -, rfl | rfl⟩ := placed?_cases h
  · obtain ⟨cs, rfl⟩ := List.head?_eq_some_iff.mp hhead
    exact strange_cons (by decide) _
  · exact strange_bracket _

lemma mark_mem_of_placed {t : Text} {p : Placed} (h : placed? t = some p) : Mark.opening ∈ t := by
  obtain ⟨m, whole, rest, hhead, -, rfl, -, rfl | rfl⟩ := placed?_cases h
  · exact List.mem_append_left _ (List.mem_of_head? hhead)
  · simp [List.mem_of_head? hhead]

section Scanning

variable (kept : List Text)

lemma restoreFrom_of_not_mem (fuel : ℕ) {t : Text} (h : Mark.opening ∉ t) : restoreFrom kept fuel 0 t = t := by
  induction t generalizing fuel with
  | nil => cases fuel <;> simp [restoreFrom]
  | cons c cs ih =>
    cases fuel with
    | zero => rw [restoreFrom]
    | succ fuel =>
      have hnone : placed? (c :: cs) = none := by
        rw [Option.eq_none_iff_forall_ne_some]
        exact fun p hp => h (mark_mem_of_placed hp)
      rw [restoreFrom_none kept fuel hnone, ih fuel (List.not_mem_of_not_mem_cons h)]

lemma restoreFrom_skip (fuel : ℕ) (m rest : Text) :
    restoreFrom kept (fuel + m.length) m.length (m ++ rest) = restoreFrom kept fuel 0 rest := by
  induction m with
  | nil => rfl
  | cons c cs ih => exact ih

/-- Text that no mark starts in is copied. -/
lemma restoreFrom_copy (fuel : ℕ) {x rest : Text}
    (h : ∀ u v, x = u ++ v → v ≠ [] → placed? (v ++ rest) = none) :
    restoreFrom kept (fuel + x.length) 0 (x ++ rest) = x ++ restoreFrom kept fuel 0 rest := by
  induction x with
  | nil => rfl
  | cons c cs ih =>
    have hnone : placed? (c :: (cs ++ rest)) = none := h [] (c :: cs) rfl (List.cons_ne_nil c cs)
    rw [List.cons_append, List.length_cons, ← Nat.add_assoc, restoreFrom_none kept _ hnone,
      ih fun u v huv => h (c :: u) v (by rw [huv]; rfl)]
    rfl

/-- No mark starts in code, not even one in a paragraph that goes on behind it. -/
lemma placed?_code {x u v : Text} (hx : IsCode words x) (huv : x = u ++ v) (hv : v ≠ []) (rest : Text) :
    placed? (v ++ rest) = none := by
  rw [Option.eq_none_iff_forall_ne_some]
  intro p hp
  have hfree : Mark.opening ∉ v := fun hmem => hx.mark_free (huv ▸ List.mem_append_right u hmem)
  obtain ⟨y, c, hlast, hc⟩ := hx.last
  obtain ⟨m, whole, back, hhead, -, hsplit, -, rfl | rfl⟩ := placed?_cases hp
  · obtain ⟨d, v, rfl⟩ := List.exists_cons_of_ne_nil hv
    obtain ⟨cs, rfl⟩ := List.head?_eq_some_iff.mp hhead
    obtain ⟨rfl, -⟩ := List.cons.inj hsplit
    exact hfree List.mem_cons_self
  · obtain ⟨cs, rfl⟩ := List.head?_eq_some_iff.mp hhead
    have hlead : "<p>".toList ++ [Mark.opening] <+: v ++ rest := by
      rw [hsplit]
      exact ⟨cs ++ "</p>".toList ++ back, by simp⟩
    rcases List.prefix_or_prefix_of_prefix hlead (List.prefix_append v rest) with hin | hin
    · exact hfree (hin.subset (by simp))
    · -- the opening tag would end the code
      have hends : ∀ v ∈ ("<p>".toList ++ [Mark.opening]).inits, v.getLast? = some '>' → v = "<p>".toList := by
        decide
      have hlastv : v.getLast? = some '>' := by
        have hget : x.getLast? = some '>' := by rw [hlast]; simp
        rwa [huv, List.getLast?_append_of_ne_nil _ hv] at hget
      obtain rfl := hends v ((List.mem_inits ..).mpr hin) hlastv
      have hsame : u ++ ['<'] ++ ['p', '>'] = y ++ [c, '>'] := by
        rw [← hlast, huv]
        simp
      exact hc (List.cons.inj (List.append_inj_right' hsame rfl)).1.symm

end Scanning

section Restoring

variable {kept : List Text} (hkept : ∀ html ∈ kept, Harmless words html)
include hkept

/-- What comes back for a mark may stand outside code. -/
lemma restoreFrom_placed (fuel : ℕ) {c : Char} {cs : Text} {p : Placed} (hp : placed? (c :: cs) = some p) :
    ∃ written, restoreFrom kept (fuel + 1) 0 (c :: cs) = written ++ restoreFrom kept fuel (p.size - 1) cs ∧
      Strange written ∧ ∀ t, Calm words t → Calm words (written ++ t) := by
  obtain ⟨n, wrapped, size⟩ := p
  rw [restoreFrom, hp]
  refine ⟨_, rfl, ?_⟩
  cases hentry : kept[n]? with
  | none =>
    obtain ⟨m, whole, rest, hhead, hm, hsplit, rfl, hwhole⟩ := placed?_cases hp
    rw [hsplit, List.take_left]
    rcases hwhole with rfl | rfl
    · obtain ⟨cs, rfl⟩ := List.head?_eq_some_iff.mp hhead
      exact ⟨strange_cons (by decide) _, fun t ht => ht.append_text (hm '<' (by decide))⟩
    · refine ⟨strange_bracket _, fun t ht => ?_⟩
      rw [List.append_assoc, List.append_assoc]
      exact (ht.append_paragraph (.inr rfl)).append_text (hm '<' (by decide)) |>.append_paragraph (.inl rfl)
  | some html =>
    obtain ⟨hmark, hstrange, hcalm⟩ := hkept html (List.mem_of_getElem? hentry)
    dsimp only
    split
    · have hfree : Mark.opening ∉ "<p>".toList ++ html ++ "</p>".toList := by
        simp only [List.mem_append, not_or]
        exact ⟨⟨by decide, hmark⟩, by decide⟩
      rw [restoreFrom_of_not_mem _ _ hfree]
      refine ⟨strange_bracket _, fun t ht => ?_⟩
      rw [List.append_assoc, List.append_assoc]
      exact (hcalm _ (ht.append_paragraph (.inr rfl))).append_paragraph (.inl rfl)
    · rw [restoreFrom_of_not_mem _ _ hmark]
      exact ⟨hstrange, hcalm⟩

lemma agree_restoreFrom (fuel : ℕ) (t : Text) : Agree t (restoreFrom kept fuel 0 t) := by
  induction fuel generalizing t with
  | zero =>
    rw [restoreFrom]
    exact .refl t
  | succ fuel ih =>
    cases t with
    | nil =>
      rw [restoreFrom]
      · exact .nil
      · simp
    | cons c cs =>
      cases hplaced : placed? (c :: cs) with
      | none =>
        rw [restoreFrom_none kept fuel hplaced]
        exact .cons c (ih cs)
      | some p =>
        obtain ⟨written, hwritten, hstrange, -⟩ := restoreFrom_placed hkept fuel hplaced
        rw [hwritten]
        exact .strange (placed?_strange hplaced) (hstrange.append _)

lemma calm_restoreFrom {fuel : ℕ} {t : Text} (h : Calm words t) (hfuel : t.length ≤ fuel) :
    Calm words (restoreFrom kept fuel 0 t) := by
  induction hlength : t.length using Nat.strongRecOn generalizing fuel t with
  | _ n ih =>
    cases t with
    | nil =>
      rw [restoreFrom_of_not_mem kept fuel (by simp)]
      exact .nil
    | cons c cs =>
      rw [List.length_cons] at hfuel hlength
      obtain ⟨fuel, rfl⟩ : ∃ f, fuel = f + 1 := ⟨fuel - 1, by omega⟩
      cases hplaced : placed? (c :: cs) with
      | some p =>
        obtain ⟨written, hwritten, -, hcalm⟩ := restoreFrom_placed hkept fuel hplaced
        obtain ⟨m, whole, rest, hhead, hm, hsplit, hsize, hwhole⟩ := placed?_cases hplaced
        have hrest : Calm words rest := by
          rw [hsplit] at h
          rcases hwhole with rfl | rfl
          · exact h.of_text (hm '<' (by decide))
          · rw [List.append_assoc, List.append_assoc] at h
            exact ((h.of_paragraph (.inl rfl)).of_text (hm '<' (by decide))).of_paragraph (.inr rfl)
        obtain ⟨d, whole, rfl⟩ : ∃ d w, whole = d :: w := by
          refine List.exists_cons_of_ne_nil ?_
          rintro rfl
          rcases hwhole with rfl | hwhole
          · cases hhead
          · cases hwhole
        rw [List.cons_append] at hsplit
        obtain ⟨rfl, rfl⟩ := List.cons.inj hsplit
        rw [List.length_append] at hfuel hlength
        obtain ⟨fuel, rfl⟩ : ∃ f, fuel = f + whole.length := ⟨fuel - whole.length, by omega⟩
        rw [hwritten, hsize, List.length_cons, Nat.add_sub_cancel, restoreFrom_skip]
        exact hcalm _ (ih rest.length (by omega) hrest (by omega) rfl)
      | none =>
        generalize hv : c :: cs = v at h
        cases h with
        | nil => cases hv
        | char hc ht =>
          obtain ⟨rfl, rfl⟩ := List.cons.inj hv
          rw [restoreFrom_none kept fuel hplaced]
          exact .char hc (ih cs.length (by omega) ht (by omega) rfl)
        | tag hsign ht =>
          obtain ⟨rfl, rfl⟩ := List.cons.inj hv
          rw [restoreFrom_none kept fuel hplaced]
          refine .tag ?_ (ih cs.length (by omega) ht (by omega) rfl)
          rwa [← (agree_restoreFrom hkept fuel cs).ofTag?]
        | @code x t hx ht =>
          have htotal := congrArg List.length hv
          rw [List.length_append, List.length_cons] at htotal
          have hpos := List.length_pos_iff.mpr hx.ne_nil
          obtain ⟨f, hf⟩ : ∃ f, fuel + 1 = f + x.length := ⟨fuel + 1 - x.length, by omega⟩
          rw [hf, restoreFrom_copy kept f fun u v huv hv => placed?_code hx huv hv t]
          exact .code hx (ih t.length (by omega) ht (by omega) rfl)

/-- Calm HTML stays calm when harmless HTML comes back into it. -/
theorem Harmless.calm_restore {t : Text} (h : Calm words t) : Calm words (restore kept t) :=
  calm_restoreFrom hkept h ((Nat.le_succ _).trans (le_fuel kept _))

end Restoring

end Kept

end Sitewright.Markdown
