import Sitewright.Proofs.LayoutMark

/-!
Kept HTML comes back. A mark alone in a paragraph gives way to the HTML it stands for, and what does
not look like a mark is copied, also from one piece of kept HTML to the next.
-/
namespace Sitewright.Markdown

lemma Mark.html?_some {t : Text} {n size : ℕ} (h : Mark.html? t = some (n, size)) :
    ∃ m rest, t = m ++ rest ∧ size = m.length ∧ m.head? = some Mark.opening ∧ ∀ c ∈ ['<', '&'], c ∉ m := by
  unfold Mark.html? Mark.numbered? at h
  obtain ⟨inner, hinner, h⟩ := Option.bind_eq_some_iff.mp h
  rw [List.isPrefixOf?_eq_some_iff_append_eq] at hinner
  split at h
  · cases h
  · rename_i digits c more _ hspan
    obtain ⟨rfl, hdigits⟩ := Text.spanWhile_eq hspan
    split at h
    · rename_i hclosing
      subst hclosing
      obtain ⟨-, rfl⟩ := Prod.mk.inj (Option.some.inj h)
      refine ⟨[Mark.opening, 'h'] ++ digits ++ [Mark.closing], more, ?_, ?_, rfl, fun c hc hmem => ?_⟩
      · rw [← hinner]
        simp
      · simp
        omega
      · have hframe : ∀ c ∈ ['<', '&'], c ∉ [Mark.opening, 'h'] ∧ c.isDigit = false ∧
            c ∉ [Mark.closing] := Text.forall_of_all (by decide)
        obtain ⟨hopening, hdigit, hclosing⟩ := hframe c hc
        rcases List.mem_append.mp hmem with hmem | hmem
        · rcases List.mem_append.mp hmem with hmem | hmem
          · exact hopening hmem
          · exact absurd (hdigits c hmem) (by simp [hdigit])
        · exact hclosing hmem
    · cases h
  · cases h

namespace Kept

lemma bracket_paragraph {m a b : Text} (hm : '<' ∉ m)
    (hab : "<p>".toList ++ m ++ "</p>".toList = a ++ '<' :: b) (ha : a ≠ []) :
    ∃ b', b = '/' :: b' := by
  rw [List.append_assoc] at hab
  obtain ⟨c, a, rfl⟩ := List.exists_cons_of_ne_nil ha
  have hab : "p>".toList ++ m ++ "</p>".toList = a ++ '<' :: b := by
    rw [List.append_assoc]
    exact (List.cons.inj hab).2
  rcases List.append_eq_append_iff.mp hab with ⟨z, rfl, hz⟩ | ⟨z, hz, hb⟩
  · match z with
    | [] =>
      obtain ⟨-, rfl⟩ := List.cons.inj hz
      exact ⟨_, rfl⟩
    | _ :: z =>
      have htail : "/p>".toList = z ++ '<' :: b := (List.cons.inj hz).2
      have hmem : '<' ∈ "/p>".toList := by
        rw [htail]
        simp
      exact absurd hmem (by decide)
  · cases z with
    | nil =>
      obtain ⟨-, rfl⟩ := List.cons.inj hb
      exact ⟨_, rfl⟩
    | cons d z =>
      obtain ⟨rfl, -⟩ := List.cons.inj hb
      have hmem : '<' ∈ "p>".toList ++ m := by
        rw [hz]
        simp
      rcases List.mem_append.mp hmem with hmem | hmem
      · exact absurd hmem (by decide)
      · exact absurd hmem hm

/-- The place of a mark is the mark, or the whole paragraph that it is alone in. -/
lemma placed?_cases {t : Text} {p : Placed} (h : placed? t = some p) :
    ∃ m whole rest, m.head? = some Mark.opening ∧ (∀ c ∈ ['<', '&'], c ∉ m) ∧ t = whole ++ rest ∧
      p.size = whole.length ∧ (whole = m ∨ whole = "<p>".toList ++ m ++ "</p>".toList) := by
  simp only [placed?, Option.orElse_eq_orElse, Option.orElse_eq_or, Option.or_eq_some_iff,
    Option.map_eq_some_iff] at h
  rcases h with h | ⟨-, ⟨n, size⟩, h, rfl⟩
  · obtain ⟨inner, hinner, hplaced⟩ := Option.bind_eq_some_iff.mp h
    obtain ⟨⟨n, size⟩, hmark, hclosed⟩ := Option.bind_eq_some_iff.mp hplaced
    rw [List.isPrefixOf?_eq_some_iff_append_eq] at hinner
    obtain ⟨m, rest, rfl, rfl, hhead, hm⟩ := Mark.html?_some hmark
    rw [List.drop_left] at hclosed
    split at hclosed
    · rename_i hclose
      obtain ⟨rest, rfl⟩ := List.isPrefixOf_iff_prefix.mp hclose
      obtain rfl := Option.some.inj hclosed
      refine ⟨m, "<p>".toList ++ m ++ "</p>".toList, rest, hhead, hm, ?_, ?_, .inr rfl⟩
      · rw [← hinner]
        simp
      · simp
    · cases hclosed
  · obtain ⟨m, rest, rfl, rfl, hhead, hm⟩ := Mark.html?_some h
    exact ⟨m, m, rest, hhead, hm, rfl, rfl, .inl rfl⟩

/-- A bracket inside the place of a mark is the one that opens the end tag of its paragraph, and there
is no entity in it. -/
lemma placed?_some {t : Text} {p : Placed} (h : placed? t = some p) :
    ∃ m rest, t = m ++ rest ∧ p.size = m.length ∧ '&' ∉ m ∧
      ∀ a b, m = a ++ '<' :: b → a ≠ [] → ∃ b', b = '/' :: b' := by
  obtain ⟨m, whole, rest, -, hm, rfl, hsize, rfl | rfl⟩ := placed?_cases h
  · refine ⟨whole, rest, rfl, hsize, hm '&' (by decide), fun a b hab _ => ?_⟩
    have hbracket := hm '<' (by decide)
    rw [hab] at hbracket
    simp at hbracket
  · refine ⟨_, rest, rfl, hsize, fun hmem => ?_, fun a b hab ha => ?_⟩
    · rcases List.mem_append.mp hmem with hmem | hmem
      · rcases List.mem_append.mp hmem with hmem | hmem
        · revert hmem; decide
        · exact hm '&' (by decide) hmem
      · revert hmem; decide
    · exact bracket_paragraph (hm '<' (by decide)) hab ha

/-- The place of a mark ends before a bracket that opens no end tag. -/
lemma size_placed {u v : Text} {c : Char} {p : Placed} (hu : u ≠ []) (hc : c ≠ '/')
    (h : placed? (u ++ '<' :: c :: v) = some p) : p.size ≤ u.length := by
  obtain ⟨m, rest, hsplit, hsize, -, hinside⟩ := placed?_some h
  rw [hsize]
  rcases List.append_eq_append_iff.mp hsplit with ⟨z, rfl, hz⟩ | ⟨z, rfl, -⟩
  · cases z with
    | nil => simp
    | cons d z =>
      obtain ⟨rfl, htail⟩ := List.cons.inj hz
      obtain ⟨b, rfl⟩ := hinside u z rfl hu
      exact absurd (List.cons.inj htail).1 hc
  · simp

/-- Text in which no mark starts, and that no mark reaches into, paragraphs around marks included. -/
structure Sturdy (word : Text) : Prop where
  still : ∀ u x v, word = u ++ x → x ≠ [] → placed? (x ++ v) = none
  clear : ∀ u v p, u ≠ [] → placed? (u ++ (word ++ v)) = some p → p.size ≤ u.length

lemma placed?_eq_none {c : Char} (cs : Text) (h : c ≠ '<' ∧ c ≠ Mark.opening) :
    placed? (c :: cs) = none := by
  simp [placed?, Mark.html?, Mark.numbered?, List.isPrefixOf?, h.1.symm, h.2.symm]

lemma placed?_append_eq_none {x : Text} (v : Text) (hne : x ≠ [])
    (h : ∀ c ∈ x, c ≠ '<' ∧ c ≠ Mark.opening) : placed? (x ++ v) = none := by
  obtain ⟨c, cs, rfl⟩ := List.exists_cons_of_ne_nil hne
  exact placed?_eq_none _ (h c List.mem_cons_self)

/-- A tag of no paragraph is sturdy. -/
lemma sturdy_of_tag {c : Char} {rest : Text} (hc : c ≠ '/' ∧ c ≠ 'p')
    (htail : ∀ d ∈ c :: rest, d ≠ '<' ∧ d ≠ Mark.opening) : Sturdy ('<' :: c :: rest) where
  still := by
    intro u x v hsplit hne
    cases u with
    | nil =>
      obtain rfl : '<' :: c :: rest = x := hsplit
      simp [placed?, Mark.html?, Mark.numbered?, List.isPrefixOf?, hc.2.symm, Mark.opening]
    | cons d u =>
      have hx : c :: rest = u ++ x := (List.cons.inj hsplit).2
      exact placed?_append_eq_none v hne fun d hd => htail d (hx ▸ List.mem_append_right u hd)
  clear := fun _ _ _ hu h => size_placed hu hc.1 h

/-- Text that starts with an entity and holds no tags is sturdy. -/
lemma sturdy_of_entity {rest : Text} (h : ∀ d ∈ '&' :: rest, d ≠ '<' ∧ d ≠ Mark.opening) :
    Sturdy ('&' :: rest) where
  still := fun u _ v hsplit hne =>
    placed?_append_eq_none v hne fun d hd => h d (hsplit ▸ List.mem_append_right u hd)
  clear := by
    intro u v p hu hplaced
    obtain ⟨m, after, hsplit, hsize, hand, -⟩ := placed?_some hplaced
    rw [hsize]
    exact Text.length_le_of_not_mem hsplit hand

/-- A mark alone in a paragraph is found with the paragraph. -/
lemma placed?_markedParagraph (n : ℕ) (v : Text) : placed? (markedParagraph n ++ v) =
    some ⟨n, true, (Mark.html n).length + 7⟩ := by
  have hopening : "<p>".toList.isPrefixOf? (markedParagraph n ++ v) =
      some (Mark.html n ++ ("</p>".toList ++ v)) :=
    List.isPrefixOf?_eq_some_iff_append_eq.mpr (by simp [markedParagraph])
  have hclosing : "</p>".toList.isPrefixOf ("</p>".toList ++ v) = true :=
    List.isPrefixOf_iff_prefix.mpr (List.prefix_append _ _)
  simp only [placed?, hopening, Option.bind_some, Mark.html?_html, List.drop_left, if_pos hclosing]
  rfl

section Scanning

variable (kept : List Text) (fuel : ℕ)

lemma restoreFrom_none {c : Char} {cs : Text} (h : placed? (c :: cs) = none) :
    restoreFrom kept (fuel + 1) 0 (c :: cs) = c :: restoreFrom kept fuel 0 cs := by
  rw [restoreFrom, h]

lemma restoreFrom_some {c : Char} {cs : Text} {p : Placed} (h : placed? (c :: cs) = some p) :
    ∃ written, restoreFrom kept (fuel + 1) 0 (c :: cs) =
      written ++ restoreFrom kept fuel (p.size - 1) cs := by
  rw [restoreFrom, h]
  exact ⟨_, rfl⟩

lemma prefix_restoreFrom {x v : Text} (hx : ∀ u y, x = u ++ y → y ≠ [] → placed? (y ++ v) = none) :
    x <+: restoreFrom kept fuel 0 (x ++ v) := by
  induction x generalizing fuel with
  | nil => exact List.nil_prefix
  | cons c cs ih =>
    cases fuel with
    | zero =>
      rw [restoreFrom]
      exact List.prefix_append _ _
    | succ fuel =>
      have hnone : placed? (c :: (cs ++ v)) = none := hx [] (c :: cs) rfl (List.cons_ne_nil _ _)
      rw [List.cons_append, restoreFrom_none _ _ hnone]
      refine List.cons_prefix_cons.mpr ⟨rfl, ih fuel fun u y hsplit hy => ?_⟩
      exact hx (c :: u) y (congrArg (c :: ·) hsplit) hy

variable {word : Text} (hword : Sturdy word)
include hword

/-- Sturdy text is copied. -/
lemma Sturdy.infix_restoreFrom {skip : ℕ} {u : Text} (v : Text) (hskip : skip ≤ u.length) :
    word <:+: restoreFrom kept fuel skip (u ++ (word ++ v)) := by
  induction fuel generalizing skip u with
  | zero =>
    rw [restoreFrom]
    exact (List.prefix_append _ _).isInfix.trans (List.suffix_append _ _).isInfix
  | succ fuel ih =>
    cases u with
    | nil =>
      obtain rfl : skip = 0 := Nat.le_zero.mp hskip
      exact (prefix_restoreFrom kept (fuel + 1) fun u x hsplit hne => hword.still u x v hsplit hne).isInfix
    | cons d u =>
      rw [List.cons_append]
      cases skip with
      | succ skip =>
        rw [restoreFrom]
        exact ih (Nat.le_of_succ_le_succ hskip)
      | zero =>
        cases hplaced : placed? (d :: (u ++ (word ++ v))) with
        | none =>
          rw [restoreFrom_none _ _ hplaced]
          exact (ih (Nat.zero_le _)).trans (List.suffix_cons _ _).isInfix
        | some p =>
          obtain ⟨written, hwritten⟩ := restoreFrom_some kept fuel hplaced
          have hsize := hword.clear (d :: u) v p (List.cons_ne_nil d u) hplaced
          rw [List.length_cons] at hsize
          rw [hwritten]
          exact (ih (by omega)).trans (List.suffix_append _ _).isInfix

/-- A mark alone in a paragraph gives way to the kept HTML, with all that is sturdy in it. -/
lemma Sturdy.infix_at_mark {html : Text} {n : ℕ} (hhtml : word <:+: html)
    (hkept : kept[n]? = some html) (v : Text) :
    word <:+: restoreFrom kept (fuel + 1) 0 (markedParagraph n ++ v) := by
  obtain ⟨cs, hcs⟩ : ∃ cs, markedParagraph n ++ v = '<' :: cs := ⟨_, rfl⟩
  rw [hcs, restoreFrom, ← hcs, placed?_markedParagraph]
  simp only [hkept]
  obtain ⟨html', hhtml', hword'⟩ : ∃ html', html' = (if true && !isBlock html then
      "<p>".toList ++ html ++ "</p>".toList else html) ∧ word <:+: html' := by
    refine ⟨_, rfl, ?_⟩
    split
    · exact hhtml.trans ((List.suffix_append _ _).isInfix.trans (List.prefix_append _ _).isInfix)
    · exact hhtml
  rw [← hhtml']
  obtain ⟨a, b, rfl⟩ := hword'
  rw [List.append_assoc]
  exact (hword.infix_restoreFrom _ fuel b (Nat.zero_le a.length)).trans (List.prefix_append _ _).isInfix

lemma Sturdy.infix_of_mark {html : Text} {n : ℕ} (hhtml : word <:+: html)
    (hkept : kept[n]? = some html) {skip : ℕ} {u : Text} (v : Text) (hskip : skip ≤ u.length)
    (hfuel : u.length < fuel) :
    word <:+: restoreFrom kept fuel skip (u ++ (markedParagraph n ++ v)) := by
  induction fuel generalizing skip u with
  | zero => exact absurd hfuel (Nat.not_lt_zero _)
  | succ fuel ih =>
    cases u with
    | nil =>
      obtain rfl : skip = 0 := Nat.le_zero.mp hskip
      exact hword.infix_at_mark kept fuel hhtml hkept v
    | cons d u =>
      rw [List.length_cons] at hfuel
      rw [List.cons_append]
      cases skip with
      | succ skip =>
        rw [restoreFrom]
        exact ih (Nat.le_of_succ_le_succ hskip) (Nat.lt_of_succ_lt_succ hfuel)
      | zero =>
        cases hplaced : placed? (d :: (u ++ (markedParagraph n ++ v))) with
        | none =>
          rw [restoreFrom_none _ _ hplaced]
          exact (ih (Nat.zero_le _) (Nat.lt_of_succ_lt_succ hfuel)).trans
            (List.suffix_cons _ _).isInfix
        | some p =>
          obtain ⟨written, hwritten⟩ := restoreFrom_some kept fuel hplaced
          obtain ⟨rest, hrest⟩ : ∃ rest, markedParagraph n ++ v = '<' :: 'p' :: rest := ⟨_, rfl⟩
          have hsize := hrest ▸ hplaced
          replace hsize := size_placed (List.cons_ne_nil d u) (by decide) hsize
          rw [List.length_cons] at hsize
          rw [hwritten]
          exact (ih (by omega) (Nat.lt_of_succ_lt_succ hfuel)).trans (List.suffix_append _ _).isInfix

end Scanning

lemma le_fuel (kept : List Text) (n : ℕ) : n ≤ kept.foldl (fun n html => n + html.length + 8) n := by
  induction kept generalizing n with
  | nil => exact le_rfl
  | cons k ks ih =>
    have hstep : n ≤ n + k.length + 8 := by omega
    exact hstep.trans (ih _)

/-- A mark alone in a paragraph gives way to the kept HTML, with all that is sturdy in it. -/
theorem infix_restore {word html t : Text} {kept : List Text} {n : ℕ} (hword : Sturdy word)
    (hhtml : word <:+: html) (hkept : kept[n]? = some html) (h : markedParagraph n <:+: t) :
    word <:+: restore kept t := by
  obtain ⟨u, v, rfl⟩ := h
  have hlength := le_fuel kept ((u ++ markedParagraph n ++ v).length + 1)
  rw [List.append_assoc] at hlength ⊢
  refine hword.infix_of_mark kept _ hhtml hkept v (Nat.zero_le _) ?_
  simp only [List.length_append] at hlength ⊢
  omega

end Kept
end Sitewright.Markdown
