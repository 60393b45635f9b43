import Sitewright.Proofs.Token

/-!
What the scan for tokens finds: every token where it starts, a token with the paragraph it is alone
in, and nothing in literal text.
-/
namespace Sitewright.RawTable
open Text (spanWhile spanWhile_eq spanWhile_stop isBlank isBlank_of_mem_blankLine)

section Finding

variable {nonce : Text}

/-- A number with a given beginning and a given end. -/
def IsNumbered (lead close token : Text) : Prop :=
  ∃ digits, digits ≠ [] ∧ (∀ c ∈ digits, Text.isDigit c = true) ∧ token = lead ++ digits ++ close

lemma isNumbered_ofNat (lead close : Text) (n : ℕ) :
    IsNumbered lead close (lead ++ Text.ofNat n ++ close) :=
  ⟨_, Nat.toDigits_ne_nil, fun _ => Text.isDigit_of_mem_ofNat, rfl⟩

lemma numberedAt?_some {lead close t token : Text} (h : numberedAt? lead close t = some token) :
    IsNumbered lead close token ∧ token <+: t := by
  unfold numberedAt? at h
  obtain ⟨rest, hrest, h⟩ := Option.bind_eq_some_iff.mp h
  rw [List.isPrefixOf?_eq_some_iff_append_eq] at hrest
  split at h
  · cases h
  · rename_i digits after hne hspan
    split at h
    · rename_i hclose
      obtain ⟨rfl, hdigits⟩ := spanWhile_eq hspan
      obtain ⟨more, rfl⟩ := List.isPrefixOf_iff_prefix.mp hclose
      obtain rfl := Option.some.inj h
      exact ⟨⟨digits, hne, hdigits, rfl⟩, more, by rw [← hrest]; simp⟩
    · cases h

/-- A number is read up to its end if the end does not start with a digit. -/
lemma numberedAt?_eq_some {lead close t token : Text} {d : Char} (hd : Text.isDigit d = false) :
    numberedAt? lead (d :: close) t = some token ↔ IsNumbered lead (d :: close) token ∧ token <+: t := by
  refine ⟨numberedAt?_some, ?_⟩
  rintro ⟨⟨digits, hne, hdigits, rfl⟩, rest, rfl⟩
  have hspan : spanWhile Text.isDigit (digits ++ d :: (close ++ rest)) = (digits, _) :=
    spanWhile_stop hdigits hd
  have hlead : lead.isPrefixOf? (lead ++ digits ++ (d :: close) ++ rest) =
      some (digits ++ d :: (close ++ rest)) :=
    List.isPrefixOf?_eq_some_iff_append_eq.mpr (by simp)
  rw [numberedAt?, hlead, Option.bind_some]
  simp only [hspan]
  rw [if_pos (List.isPrefixOf_iff_prefix.mpr ⟨rest, by simp⟩)]

lemma blockTokenAt?_eq_some {t token : Text} : blockTokenAt? nonce t = some token ↔
    IsNumbered (blockLead nonce) "-->".toList token ∧ token <+: t :=
  numberedAt?_eq_some (by decide)

lemma inlineTokenAt?_eq_some {t token : Text} : inlineTokenAt? nonce t = some token ↔
    IsNumbered (inlineLead nonce) ['x'] token ∧ token <+: t :=
  numberedAt?_eq_some (by decide)

lemma blockTokenAt?_some {t token : Text} (h : blockTokenAt? nonce t = some token) :
    IsToken nonce token ∧ token <+: t ∧ t.head? = some '<' := by
  obtain ⟨⟨digits, -, hdigits, rfl⟩, more, rfl⟩ := numberedAt?_some h
  exact ⟨isToken_block nonce hdigits, ⟨more, rfl⟩, rfl⟩

lemma inlineTokenAt?_some {t token : Text} (h : inlineTokenAt? nonce t = some token) :
    IsToken nonce token ∧ token <+: t := by
  obtain ⟨⟨digits, -, hdigits, rfl⟩, hprefix⟩ := numberedAt?_some h
  exact ⟨isToken_inline nonce hdigits, hprefix⟩

lemma isNumbered_blockToken (n : ℕ) : IsNumbered (blockLead nonce) "-->".toList (blockToken nonce n) :=
  isNumbered_ofNat _ _ n

lemma blockTokenAt?_blockToken (n : ℕ) (rest : Text) :
    blockTokenAt? nonce (blockToken nonce n ++ rest) = some (blockToken nonce n) :=
  blockTokenAt?_eq_some.mpr ⟨isNumbered_blockToken n, List.prefix_append _ _⟩

lemma inlineTokenAt?_inlineToken (n : ℕ) (rest : Text) :
    inlineTokenAt? nonce (inlineToken nonce n ++ rest) = some (inlineToken nonce n) :=
  inlineTokenAt?_eq_some.mpr ⟨isNumbered_ofNat _ _ n, List.prefix_append _ _⟩

/-- A paragraph around a token as it stands in the text. -/
lemma paragraphAt?_eq {t : Text} {hit : Text.Hit Text} (h : paragraphAt? nonce t = some hit) :
    ∃ blanks token more rest, (∀ c ∈ blanks ++ more, isBlank c = true) ∧
      blockTokenAt? nonce (token ++ (more ++ ("</p>".toList ++ rest))) = some token ∧
      t = "<p>".toList ++ blanks ++ (token ++ (more ++ ("</p>".toList ++ rest))) ∧
      hit = ⟨token, ("<p>".toList ++ blanks ++ (token ++ more)).length + 4⟩ := by
  unfold paragraphAt? at h
  obtain ⟨inner, hinner, h⟩ := Option.bind_eq_some_iff.mp h
  rw [List.isPrefixOf?_eq_some_iff_append_eq] at hinner
  obtain ⟨token, htoken, h⟩ := Option.bind_eq_some_iff.mp h
  obtain ⟨-, ⟨after, hafter⟩, -⟩ := blockTokenAt?_some htoken
  simp only [← hafter, List.drop_left] at h htoken
  split at h
  · rename_i hclose
    obtain ⟨rest, hrest⟩ := List.isPrefixOf_iff_prefix.mp hclose
    replace hrest : "</p>".toList ++ rest = after.dropWhile isBlank := hrest
    refine ⟨inner.takeWhile isBlank, token, after.takeWhile isBlank, rest, ?_, ?_, ?_, ?_⟩
    · intro c hc
      rcases List.mem_append.mp hc with hc | hc
      · exact List.mem_takeWhile_imp hc
      · exact List.mem_takeWhile_imp hc
    · rw [hrest, List.takeWhile_append_dropWhile]
      exact htoken
    · rw [hrest, List.takeWhile_append_dropWhile, hafter, List.append_assoc,
        List.takeWhile_append_dropWhile, hinner]
    · obtain rfl := Option.some.inj h
      have hopening : "<p>".toList.length = 3 := rfl
      simp only [Text.spanWhile, List.length_append, hopening, Text.Hit.mk.injEq, true_and]
      omega
  · cases h

/-- A paragraph around a token: its opening tag, blanks, and the token. -/
lemma paragraphAt?_some {t : Text} {hit : Text.Hit Text} (h : paragraphAt? nonce t = some hit) :
    ∃ blanks token tail, t = "<p>".toList ++ blanks ++ tail ∧ (∀ c ∈ blanks, isBlank c = true) ∧
      IsToken nonce token ∧ token <+: tail ∧ tail.head? = some '<' := by
  obtain ⟨blanks, token, more, rest, hblanks, htoken, rfl, -⟩ := paragraphAt?_eq h
  obtain ⟨hlike, hprefix, hhead⟩ := blockTokenAt?_some htoken
  exact ⟨blanks, token, _, rfl, fun c hc => hblanks c (List.mem_append_left _ hc), hlike, hprefix, hhead⟩

/-- Whether a paragraph holds nothing but a token is decided behind the token. -/
lemma paragraphAt?_token {blanks token : Text} (hblanks : ∀ c ∈ blanks, isBlank c = true)
    (htoken : IsNumbered (blockLead nonce) "-->".toList token) (rest : Text) :
    paragraphAt? nonce ("<p>".toList ++ blanks ++ (token ++ rest)) =
      if "</p>".toList.isPrefixOf (rest.dropWhile isBlank) then
        some ⟨token, 3 + blanks.length + token.length + (rest.takeWhile isBlank).length + 4⟩
      else none := by
  have hlead : "<p>".toList.isPrefixOf? ("<p>".toList ++ blanks ++ (token ++ rest)) =
      some (blanks ++ (token ++ rest)) :=
    List.isPrefixOf?_eq_some_iff_append_eq.mpr (by simp)
  have hread : blockTokenAt? nonce (token ++ rest) = some token :=
    blockTokenAt?_eq_some.mpr ⟨htoken, List.prefix_append _ _⟩
  obtain ⟨tail, htail⟩ : ∃ tail, token = '<' :: tail := by
    obtain ⟨digits, -, -, rfl⟩ := htoken
    exact ⟨_, rfl⟩
  have hspan : spanWhile isBlank (blanks ++ (token ++ rest)) = (blanks, token ++ rest) := by
    rw [htail]
    exact spanWhile_stop hblanks (by decide)
  rw [paragraphAt?, hlead, Option.bind_some]
  simp only [hspan, hread, Option.bind_some, List.drop_left]
  rfl

/-- A paragraph that holds nothing but a token of a fence. -/
def IsLone (nonce token paragraph : Text) : Prop :=
  IsNumbered (blockLead nonce) "-->".toList token ∧
    ∃ before after, (∀ c ∈ before ++ after, isBlank c = true) ∧
      paragraph = "<p>".toList ++ before ++ (token ++ (after ++ "</p>".toList))

lemma IsLone.isToken {token paragraph : Text} (h : IsLone nonce token paragraph) : IsToken nonce token := by
  obtain ⟨⟨digits, -, hdigits, rfl⟩, -⟩ := h
  exact isToken_block nonce hdigits

/-- A paragraph is found with all of its text, whatever follows it. -/
lemma paragraphAt?_eq_some {t : Text} {hit : Text.Hit Text} : paragraphAt? nonce t = some hit ↔
    ∃ paragraph, IsLone nonce hit.value paragraph ∧ hit.size = paragraph.length ∧ paragraph <+: t := by
  have hclosing : "</p>".toList.length = 4 := rfl
  constructor
  · intro h
    obtain ⟨before, token, after, rest, hblanks, htoken, rfl, rfl⟩ := paragraphAt?_eq h
    refine ⟨_, ⟨(blockTokenAt?_eq_some.mp htoken).1, before, after, hblanks, rfl⟩, ?_, rest, ?_⟩
    · simp only [List.length_append, hclosing]
      omega
    · simp only [List.append_assoc]
  · rintro ⟨_, ⟨htoken, before, after, hblanks, rfl⟩, hsize, rest, rfl⟩
    have hfront : ∀ c ∈ before, isBlank c = true := fun c hc => hblanks c (List.mem_append_left _ hc)
    have hback : ∀ c ∈ after, isBlank c = true := fun c hc => hblanks c (List.mem_append_right _ hc)
    have hspan : spanWhile isBlank (after ++ ("</p>".toList ++ rest)) = (after, "</p>".toList ++ rest) :=
      spanWhile_stop hback (by decide)
    obtain ⟨htake, hdrop⟩ := Prod.mk.inj hspan
    have hsplit : "<p>".toList ++ before ++ (hit.value ++ (after ++ "</p>".toList)) ++ rest =
        "<p>".toList ++ before ++ (hit.value ++ (after ++ ("</p>".toList ++ rest))) := by
      simp only [List.append_assoc]
    rw [hsplit, paragraphAt?_token hfront htoken, hdrop, htake,
      if_pos (List.isPrefixOf_iff_prefix.mpr (List.prefix_append _ _))]
    have hopening : "<p>".toList.length = 3 := rfl
    have hlength : 3 + before.length + hit.value.length + after.length + 4 = hit.size := by
      simp only [hsize, List.length_append, hopening, hclosing]
      omega
    rw [hlength]

lemma Bounds.head_eq {rest : Text} (h : Bounds nonce rest) {c : Char} (hc : rest.head? = some c) :
    c = '\n' ∨ c = 'f' := by
  rcases h with rfl | ⟨r, rfl⟩ | ⟨n, r, rfl⟩
  · cases hc
  · exact .inl (Option.some.inj hc).symm
  · exact .inr (Option.some.inj hc).symm

lemma Bounds.head_ne {rest : Text} (h : Bounds nonce rest) : rest.head? ≠ some '<' :=
  fun hc => absurd (h.head_eq hc) (by decide)

lemma findToken_local (nonce : Text) : (findToken nonce).Local := fun _ _ _ => rfl

/-- What is found is a token of a fence with the paragraph around it, or a token by itself. -/
lemma findToken_cases {before t : Text} {hit : Text.Hit Text} (h : findToken nonce before t = some hit) :
    paragraphAt? nonce t = some hit ∨ ∃ token, hit = ⟨token, token.length⟩ ∧
      (blockTokenAt? nonce t = some token ∨ inlineTokenAt? nonce t = some token) := by
  simp only [findToken, Option.orElse_eq_orElse, Option.orElse_eq_or, Option.or_eq_some_iff,
    Option.map_eq_some_iff] at h
  rcases h with h | ⟨-, token, h | ⟨-, h⟩, rfl⟩
  · exact .inl h
  · exact .inr ⟨token, rfl, .inl h⟩
  · exact .inr ⟨token, rfl, .inr h⟩

/-- What is found stands in the text as a token or as the paragraph around one. -/
lemma findToken_source {before t : Text} {hit : Text.Hit Text} (h : findToken nonce before t = some hit) :
    ∃ source, source ≠ [] ∧ hit.size = source.length ∧ source <+: t ∧ IsToken nonce hit.value ∧
      (source = hit.value ∨ IsLone nonce hit.value source) := by
  rcases findToken_cases h with h | ⟨token, rfl, htoken⟩
  · obtain ⟨paragraph, hlone, hsize, hprefix⟩ := paragraphAt?_eq_some.mp h
    refine ⟨paragraph, ?_, hsize, hprefix, hlone.isToken, .inr hlone⟩
    obtain ⟨-, before, after, -, rfl⟩ := hlone
    simp
  · have hlike : IsToken nonce token ∧ token <+: t :=
      htoken.elim (fun h => ⟨(blockTokenAt?_some h).1, (blockTokenAt?_some h).2.1⟩) inlineTokenAt?_some
    obtain ⟨c, cs, rfl, -⟩ := hlike.1.head
    exact ⟨c :: cs, List.cons_ne_nil c cs, rfl, hlike.2, hlike.1, .inl rfl⟩

lemma findToken_none {before t : Text} (hparagraph : paragraphAt? nonce t = none)
    (htoken : ∀ token, IsToken nonce token → ¬ token <+: t) : findToken nonce before t = none := by
  have hblock : blockTokenAt? nonce t = none := by
    by_contra hne
    obtain ⟨token, h⟩ := Option.ne_none_iff_exists'.mp hne
    exact htoken token (blockTokenAt?_some h).1 (blockTokenAt?_some h).2.1
  have hinline : inlineTokenAt? nonce t = none := by
    by_contra hne
    obtain ⟨token, h⟩ := Option.ne_none_iff_exists'.mp hne
    exact htoken token (inlineTokenAt?_some h).1 (inlineTokenAt?_some h).2
  simp [findToken, hparagraph, hblock, hinline]

/-- Nothing is found where neither a token nor a paragraph starts. -/
lemma findToken_none_of_head {before t : Text} {c : Char} (h : t.head? = some c)
    (hc : c ≠ '<' ∧ c ≠ 'f') : findToken nonce before t = none := by
  refine findToken_none ?_ fun token htoken hprefix => ?_
  · by_contra hne
    obtain ⟨hit, hhit⟩ := Option.ne_none_iff_exists'.mp hne
    obtain ⟨blanks, token, tail, rfl, -⟩ := paragraphAt?_some hhit
    exact hc.1 (Option.some.inj h).symm
  · obtain ⟨d, tail, rfl, hd⟩ := htoken.head
    obtain ⟨more, rfl⟩ := hprefix
    obtain rfl : d = c := Option.some.inj h
    simp_all

lemma findToken_blockToken (before : Text) (n : ℕ) (rest : Text) :
    findToken nonce before (blockToken nonce n ++ rest) =
      some ⟨blockToken nonce n, (blockToken nonce n).length⟩ := by
  have hparagraph : paragraphAt? nonce (blockToken nonce n ++ rest) = none := rfl
  simp [findToken, hparagraph, blockTokenAt?_blockToken]

lemma findToken_inlineToken (before : Text) (n : ℕ) (rest : Text) :
    findToken nonce before (inlineToken nonce n ++ rest) =
      some ⟨inlineToken nonce n, (inlineToken nonce n).length⟩ := by
  have hparagraph : paragraphAt? nonce (inlineToken nonce n ++ rest) = none := rfl
  have hblock : blockTokenAt? nonce (inlineToken nonce n ++ rest) = none := rfl
  simp [findToken, hparagraph, hblock, inlineTokenAt?_inlineToken]

/-- A token alone in a paragraph is found with the paragraph. -/
lemma findToken_lone {token paragraph : Text} (h : IsLone nonce token paragraph) (before rest : Text) :
    findToken nonce before (paragraph ++ rest) = some ⟨token, paragraph.length⟩ := by
  have hparagraph : paragraphAt? nonce (paragraph ++ rest) = some ⟨token, paragraph.length⟩ :=
    paragraphAt?_eq_some.mpr ⟨paragraph, h, rfl, List.prefix_append _ _⟩
  rw [findToken, hparagraph]
  rfl

/-- The token of a masked fence is alone in a paragraph if only blanks stand in it besides. -/
lemma isLone_blockToken {blanks more : Text} (n : ℕ) (hblanks : ∀ c ∈ blanks, isBlank c = true)
    (hmore : ∀ c ∈ more, isBlank c = true) : IsLone nonce (blockToken nonce n)
      ("<p>".toList ++ (blanks ++ "\n\n".toList) ++
        (blockToken nonce n ++ ("\n\n".toList ++ more ++ "</p>".toList))) := by
  refine ⟨isNumbered_blockToken n, blanks ++ "\n\n".toList, "\n\n".toList ++ more, fun c hc => ?_, rfl⟩
  simp only [List.mem_append] at hc
  rcases hc with (hc | hc) | hc | hc
  · exact hblanks c hc
  · exact isBlank_of_mem_blankLine c hc
  · exact isBlank_of_mem_blankLine c hc
  · exact hmore c hc

lemma tag_once {w blanks blanks' : Text} (hw : w ≠ []) (h : ∀ c ∈ blanks', isBlank c = true) :
    w ++ ("<p>".toList ++ blanks) ≠ "<p>".toList ++ blanks' := by
  intro heq
  obtain ⟨d, w, rfl⟩ := List.exists_cons_of_ne_nil hw
  have htail : w ++ ("<p>".toList ++ blanks) = "p>".toList ++ blanks' := (List.cons.inj heq).2
  have hmem : '<' ∈ "p>".toList ++ blanks' := by
    rw [← htail]
    simp
  rcases List.mem_append.mp hmem with hmem | hmem
  · revert hmem; decide
  · have := h _ hmem
    revert this; decide

variable (hnonce : ∀ c ∈ nonce, c ∈ Digest.digits)
include hnonce

/-- In literal text a token is found only behind the opening tag of a paragraph that ends the
literal text. -/
lemma findToken_plain {before t rest : Text} (ht : t ≠ []) (hfree : ¬ nonce <:+: t)
    (hrest : Bounds nonce rest) (hopen : ∀ blanks, (∀ c ∈ blanks, isBlank c = true) →
      t = "<p>".toList ++ blanks → rest.head? ≠ some '\n') :
    findToken nonce before (t ++ rest) = none := by
  refine findToken_none ?_ fun token htoken => htoken.not_prefix_plain hnonce ht hfree hrest
  by_contra hne
  obtain ⟨hit, hhit⟩ := Option.ne_none_iff_exists'.mp hne
  obtain ⟨blanks, token, tail, hsplit, hblanks, htoken, hprefix, hhead⟩ := paragraphAt?_some hhit
  rcases List.append_eq_append_iff.mp hsplit with ⟨a, htag, rfl⟩ | ⟨a, rfl, rfl⟩
  · cases a with
    | nil => exact hrest.head_ne hhead
    | cons d a =>
      have hd : d = '\n' ∨ d = 'f' := hrest.head_eq rfl
      have hmem : d ∈ "<p>".toList ++ blanks := by rw [htag]; simp
      obtain rfl : d = '\n' := by
        refine hd.resolve_right ?_
        rintro rfl
        rcases List.mem_append.mp hmem with hmem | hmem
        · revert hmem; decide
        · have := hblanks _ hmem
          revert this; decide
      rcases List.append_eq_append_iff.mp htag with ⟨b, rfl, rfl⟩ | ⟨b, hb, hback⟩
      · exact hopen b (fun c hc => hblanks c (by simp [hc])) rfl rfl
      · cases b with
        | nil =>
          rw [List.append_nil] at hb
          exact hopen [] (by simp) (by simp [hb]) rfl
        | cons e b =>
          obtain ⟨rfl, -⟩ := List.cons.inj hback
          have : '\n' ∈ "<p>".toList := by rw [hb]; simp
          revert this; decide
  · by_cases ha : a = []
    · subst ha
      exact hrest.head_ne hhead
    · have hafree : ¬ nonce <:+: a := fun h => hfree (h.trans (List.suffix_append _ _).isInfix)
      exact htoken.not_prefix_plain hnonce ha hafree hrest hprefix

end Finding

end Sitewright.RawTable
