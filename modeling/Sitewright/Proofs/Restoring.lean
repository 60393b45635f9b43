import Sitewright.Proofs.Association
import Sitewright.Proofs.Masking
import Sitewright.Proofs.TokenScan

/-!
Restoring undoes masking: every construct comes back as its HTML, and the text between stays as it
is, but for the paragraph around a lone fence.
-/
namespace Sitewright

namespace Text

/-- How often a text that is not empty occurs in another one, overlaps included. -/
def occurrences (word : Text) : Text → ℕ
  | [] => 0
  | c :: cs => (if word <+: c :: cs then 1 else 0) + occurrences word cs

lemma occurrences_append {word : Text} (t rest : Text)
    (h : ∀ u v, t = u ++ v → v ≠ [] → ¬ word <+: v ++ rest) :
    occurrences word (t ++ rest) = occurrences word rest := by
  induction t with
  | nil => rfl
  | cons c cs ih =>
    have hhead : ¬ word <+: c :: (cs ++ rest) := h [] (c :: cs) rfl (by simp)
    rw [List.cons_append, occurrences, if_neg hhead, Nat.zero_add]
    exact ih fun u v huv hv => h (c :: u) v (by rw [huv]; rfl) hv

end Text

namespace RawTable
open Text (spanWhile_stop isBlank occurrences occurrences_append isBlank_of_mem_blankLine)

namespace Segments

/-- The literal text in front of the first construct. -/
def text : Segments → Text
  | last t => t
  | step t _ _ => t

/-- The masked text from the first construct on. -/
def behind : Segments → Text
  | last _ => []
  | step _ c rest => c.masked ++ rest.masked

/-- What comes before the opening tag of a paragraph and the white space that end a text. -/
def beforeParagraph? (t : Text) : Option Text :=
  (">p<".toList.isPrefixOf? (t.reverse.dropWhile isBlank)).map List.reverse

/-- What comes after the white space and the closing tag of a paragraph that start a text. -/
def afterParagraph? (t : Text) : Option Text := "</p>".toList.isPrefixOf? (t.dropWhile isBlank)

/-- The restored text, when `t` is left of the first literal text. A paragraph around a lone fence
is dropped with its white space. -/
def restoredFrom (t : Text) : Segments → Text
  | last _ => t
  | step _ (.link _ l) rest => t ++ (l.html ++ restoredFrom rest.text rest)
  | step _ (.fence _ _ html) rest =>
    match beforeParagraph? t, afterParagraph? rest.text with
    | some front, some back => front ++ (html ++ restoredFrom back rest)
    | _, _ => t ++ ("\n\n".toList ++ html ++ "\n\n".toList ++ restoredFrom rest.text rest)

/-- Literal text with the HTML of the constructs between. -/
def restored (s : Segments) : Text := restoredFrom s.text s

lemma masked_eq (s : Segments) : s.masked = s.text ++ s.behind := by
  cases s with
  | last t => simp [masked, text, behind]
  | step t c rest => rfl

lemma text_infix_source (s : Segments) : s.text <:+: s.source := by
  cases s with
  | last t => exact List.infix_rfl
  | step t c rest => exact (List.prefix_append _ _).isInfix

lemma rest_infix_source (t : Text) (c : Construct) (rest : Segments) :
    rest.source <:+: (step t c rest).source :=
  ((List.suffix_append _ _).trans (List.suffix_append _ _)).isInfix

lemma bounds_behind {nonce : Text} {s : Segments} (h : ∀ c ∈ s.constructs, c.Numbered nonce) :
    Bounds nonce s.behind := by
  cases s with
  | last t => exact .inl rfl
  | step t c rest =>
    have hc := h c (by simp [constructs])
    cases c with
    | fence token source html => exact .inr (.inl ⟨_, rfl⟩)
    | link token l =>
      obtain ⟨n, rfl⟩ := hc
      exact .inr (.inr ⟨n, rest.masked, rfl⟩)

lemma isPrefixOf?_dropWhile {d : Char} (hd : isBlank d = false) {word t back : Text} :
    (d :: word).isPrefixOf? (t.dropWhile isBlank) = some back ↔
      ∃ blanks, (∀ c ∈ blanks, isBlank c = true) ∧ t = blanks ++ (d :: word ++ back) := by
  rw [List.isPrefixOf?_eq_some_iff_append_eq]
  constructor
  · intro h
    exact ⟨t.takeWhile isBlank, fun c => Text.mem_spanWhile, by
      rw [h, List.takeWhile_append_dropWhile]⟩
  · rintro ⟨blanks, hblanks, rfl⟩
    exact (congrArg Prod.snd (spanWhile_stop hblanks hd)).symm

lemma afterParagraph?_some {t back : Text} : afterParagraph? t = some back ↔
    ∃ blanks, (∀ c ∈ blanks, isBlank c = true) ∧ t = blanks ++ ("</p>".toList ++ back) :=
  isPrefixOf?_dropWhile (by decide)

lemma beforeParagraph?_some {t front : Text} : beforeParagraph? t = some front ↔
    ∃ blanks, (∀ c ∈ blanks, isBlank c = true) ∧ t = front ++ ("<p>".toList ++ blanks) := by
  have hreverse : ∀ back, ">p<".toList.isPrefixOf? (t.reverse.dropWhile isBlank) = some back ↔
      ∃ blanks, (∀ c ∈ blanks, isBlank c = true) ∧ t.reverse = blanks ++ (">p<".toList ++ back) :=
    fun back => isPrefixOf?_dropWhile (by decide)
  unfold beforeParagraph?
  rw [Option.map_eq_some_iff]
  constructor
  · rintro ⟨back, hback, rfl⟩
    obtain ⟨blanks, hblanks, ht⟩ := (hreverse back).mp hback
    refine ⟨blanks.reverse, by simpa using hblanks, ?_⟩
    rw [← List.reverse_inj, ht]
    simp
  · rintro ⟨blanks, hblanks, rfl⟩
    refine ⟨front.reverse, (hreverse _).mpr ?_, by simp⟩
    exact ⟨blanks.reverse, by simpa using hblanks, by simp⟩

/-- A closing tag behind white space is all in the literal text. -/
lemma afterParagraph?_of_prefix {nonce t : Text} {s : Segments}
    (h : ∀ c ∈ s.constructs, c.Numbered nonce)
    (hclose : "</p>".toList <+: (t ++ s.behind).dropWhile isBlank) :
    ∃ back, afterParagraph? t = some back := by
  rw [List.dropWhile_append] at hclose
  split at hclose
  · -- The literal text is blank; what follows it begins with a token or not at all.
    exfalso
    obtain ⟨more, hmore⟩ := hclose
    cases s with
    | last t => simp [behind] at hmore
    | step t c rest =>
      have hc := h c (by simp [constructs])
      cases c with
      | fence token source html =>
        obtain ⟨n, rfl⟩ := hc
        have hsecond : some '/' = some '!' := congrArg (List.head? ∘ List.tail) hmore
        revert hsecond
        decide
      | link token l =>
        obtain ⟨n, rfl⟩ := hc
        have hfirst : some '<' = some 'f' := congrArg List.head? hmore
        revert hfirst
        decide
  · have hhead : ∀ d ∈ s.behind.head?, d ∉ "</p>".toList := by
      intro d hd
      rcases (bounds_behind h).head_eq hd with rfl | rfl <;> decide
    obtain ⟨back, hback⟩ := Text.prefix_of_head_not_mem hclose hhead
    exact ⟨back, List.isPrefixOf?_eq_some_iff_append_eq.mpr hback⟩

section Restore

variable {nonce : Text} (hnonce : ∀ c ∈ nonce, c ∈ Digest.digits) {s : Segments}
  (hnumbered : ∀ c ∈ s.constructs, c.Numbered nonce)
include hnonce hnumbered

/-- Before a fence nothing is found unless the fence is alone in its paragraph. -/
lemma findToken_before_fence {n : ℕ} {src html before t : Text} (ht : t ≠ [])
    (hfree : ¬ nonce <:+: t) (hopen : ∀ blanks, (∀ c ∈ blanks, isBlank c = true) →
      t = "<p>".toList ++ blanks → afterParagraph? s.text = none) :
    findToken nonce before (t ++
      ((Construct.fence (blockToken nonce n) src html).masked ++ s.masked)) = none := by
  have hbounds : Bounds nonce ((Construct.fence (blockToken nonce n) src html).masked ++ s.masked) :=
    .inr (.inl ⟨_, rfl⟩)
  by_cases htag : ∃ blanks, (∀ c ∈ blanks, isBlank c = true) ∧ t = "<p>".toList ++ blanks
  · obtain ⟨blanks, hblanks, rfl⟩ := htag
    refine findToken_none ?_ fun token htoken =>
      htoken.not_prefix_plain hnonce ht hfree hbounds
    have hwhite : ∀ c ∈ blanks ++ "\n\n".toList, isBlank c = true := fun c hc =>
      (List.mem_append.mp hc).elim (hblanks c) (isBlank_of_mem_blankLine c)
    have hmasked : "<p>".toList ++ blanks ++
        ((Construct.fence (blockToken nonce n) src html).masked ++ s.masked) =
        "<p>".toList ++ (blanks ++ "\n\n".toList) ++
          (blockToken nonce n ++ ("\n\n".toList ++ s.masked)) := by
      simp only [Construct.masked, List.append_assoc]
    rw [hmasked, paragraphAt?_token hwhite (isNumbered_blockToken _), if_neg]
    intro hclose
    rw [List.isPrefixOf_iff_prefix, masked_eq] at hclose
    obtain ⟨back, hback⟩ := afterParagraph?_of_prefix hnumbered hclose
    rw [hopen blanks hblanks rfl] at hback
    cases hback
  · exact findToken_plain hnonce ht hfree hbounds fun blanks hblanks h =>
      absurd ⟨blanks, hblanks, h⟩ htag

end Restore

section Substitute

variable {nonce : Text} (hnonce : ∀ c ∈ nonce, c ∈ Digest.digits) {write : Text → Text}

/-- Literal text is copied up to where something is found. -/
lemma substitute_literal {t rest : Text} (hfree : ¬ nonce <:+: t)
    (h : ∀ w, w <:+ t → w ≠ [] → ¬ nonce <:+: w → findToken nonce [] (w ++ rest) = none) :
    Text.substitute (findToken nonce) write (t ++ rest) =
      t ++ Text.substitute (findToken nonce) write rest := by
  refine Text.substitute_plain (findToken_local nonce) t rest fun v w hvw hw => ?_
  have hsuffix : w <:+ t := ⟨v, hvw.symm⟩
  exact h w hsuffix hw fun hin => hfree (hin.trans hsuffix.isInfix)

include hnonce

lemma substitute_link (n : ℕ) {t : Text} (rest : Text) (hfree : ¬ nonce <:+: t) :
    Text.substitute (findToken nonce) write (t ++ (inlineToken nonce n ++ rest)) =
      t ++ (write (inlineToken nonce n) ++ Text.substitute (findToken nonce) write rest) := by
  have hhead : (inlineToken nonce n ++ rest).head? ≠ some '\n' := by
    intro h
    have hfirst : some 'f' = some '\n' := h
    revert hfirst
    decide
  rw [substitute_literal hfree fun w _ hw hin => findToken_plain hnonce hw hin
    (.inr (.inr ⟨n, rest, rfl⟩)) fun _ _ _ => hhead]
  rw [Text.substitute_hit (findToken_local nonce) (findToken_inlineToken [] n rest) rfl
    (List.cons_ne_nil _ _)]

variable {s : Segments}

/-- A paragraph around a lone fence goes away with its white space. -/
lemma substitute_paragraph (n : ℕ) (src html : Text) {t front back : Text} (hfree : ¬ nonce <:+: t)
    (hfront : beforeParagraph? t = some front) (hback : afterParagraph? s.text = some back) :
    Text.substitute (findToken nonce) write (t ++
        ((Construct.fence (blockToken nonce n) src html).masked ++ s.masked)) =
      front ++ (write (blockToken nonce n) ++
        Text.substitute (findToken nonce) write (back ++ s.behind)) := by
  obtain ⟨blanks, hblanks, rfl⟩ := beforeParagraph?_some.mp hfront
  obtain ⟨more, hmore, htext⟩ := afterParagraph?_some.mp hback
  obtain ⟨paragraph, hparagraph⟩ : ∃ paragraph, paragraph = "<p>".toList ++
    (blanks ++ "\n\n".toList) ++ (blockToken nonce n ++ ("\n\n".toList ++ more ++ "</p>".toList)) :=
    ⟨_, rfl⟩
  have hsplit : "<p>".toList ++ blanks ++ ((Construct.fence (blockToken nonce n) src html).masked ++
      s.masked) = paragraph ++ (back ++ s.behind) := by
    rw [masked_eq, htext, hparagraph]
    simp only [Construct.masked, List.append_assoc]
  have hfind : findToken nonce [] (paragraph ++ (back ++ s.behind)) =
      some ⟨blockToken nonce n, paragraph.length⟩ := by
    rw [hparagraph]
    exact findToken_lone (isLone_blockToken n hblanks hmore) [] _
  rw [List.append_assoc, hsplit, Text.substitute_plain (findToken_local nonce) front _ ?_,
    Text.substitute_hit (findToken_local nonce) hfind rfl (by simp [hparagraph])]
  intro v w hvw hw
  rw [← hsplit, ← List.append_assoc]
  have hwfree : ¬ nonce <:+: w ++ ("<p>".toList ++ blanks) := fun hin =>
    hfree (hin.trans (by
      rw [hvw, List.append_assoc]
      exact (List.suffix_append _ _).isInfix))
  exact findToken_plain hnonce (by simp [hw]) hwfree (.inr (.inl ⟨_, rfl⟩))
    fun blanks' hblanks' h => absurd h (tag_once hw hblanks')

variable (hnumbered : ∀ c ∈ s.constructs, c.Numbered nonce)
include hnumbered

lemma substitute_fence (n : ℕ) (src html : Text) {t : Text} (hfree : ¬ nonce <:+: t)
    (hopen : beforeParagraph? t = none ∨ afterParagraph? s.text = none) :
    Text.substitute (findToken nonce) write (t ++
        ((Construct.fence (blockToken nonce n) src html).masked ++ s.masked)) =
      t ++ ("\n\n".toList ++ write (blockToken nonce n) ++ "\n\n".toList ++
        Text.substitute (findToken nonce) write s.masked) := by
  have hfeed : ∀ rest, findToken nonce [] ('\n' :: rest) = none := fun rest =>
    findToken_none_of_head rfl (by decide)
  have hfeeds : ∀ rest, Text.substitute (findToken nonce) write ("\n\n".toList ++ rest) =
      "\n\n".toList ++ Text.substitute (findToken nonce) write rest := by
    intro rest
    have hlocal := findToken_local nonce
    exact (Text.substitute_none hlocal (hfeed _)).trans
      (congrArg _ (Text.substitute_none hlocal (hfeed _)))
  rw [substitute_literal hfree fun w hsuffix hw hin => ?_]
  · have hmasked : (Construct.fence (blockToken nonce n) src html).masked ++ s.masked =
        "\n\n".toList ++ (blockToken nonce n ++ ("\n\n".toList ++ s.masked)) := by
      simp only [Construct.masked, List.append_assoc]
    rw [hmasked, hfeeds, Text.substitute_hit (findToken_local nonce)
      (findToken_blockToken [] n _) rfl (List.cons_ne_nil _ _), hfeeds]
    simp only [List.append_assoc]
  · refine findToken_before_fence hnonce hnumbered hw hin fun blanks hblanks hw => ?_
    obtain ⟨front, hfront⟩ := hsuffix
    refine hopen.resolve_left fun hnone => ?_
    rw [beforeParagraph?_some.mpr ⟨blanks, hblanks, by rw [← hw, hfront]⟩] at hnone
    cases hnone

end Substitute

/-- Scanning a masked text puts the HTML of every construct in its place. -/
lemma substitute_masked {nonce : Text} (hnonce : ∀ c ∈ nonce, c ∈ Digest.digits)
    {write : Text → Text} {s : Segments} (hnumbered : ∀ c ∈ s.constructs, c.Numbered nonce)
    (hwrite : ∀ c ∈ s.constructs, write c.token = c.html) (hfree : ¬ nonce <:+: s.source)
    {t : Text} (ht : t <:+ s.text) :
    Text.substitute (findToken nonce) write (t ++ s.behind) = s.restoredFrom t := by
  -- `t` is all of the first stretch, or what the end of a paragraph before it has left
  induction s generalizing t with
  | last u =>
    have htfree : ¬ nonce <:+: t := fun hin => hfree (hin.trans ht.isInfix)
    rw [behind, substitute_literal htfree fun w _ hw hin =>
      findToken_plain hnonce hw hin (.inl rfl) fun _ _ _ => by simp]
    simp [Text.substitute, Text.pieces, Text.piecesFrom, restoredFrom]
  | step u c rest ih =>
    have htfree : ¬ nonce <:+: t := fun hin =>
      hfree (hin.trans (ht.isInfix.trans (text_infix_source (step u c rest))))
    have hrestfree : ¬ nonce <:+: rest.source := fun hin =>
      hfree (hin.trans (rest_infix_source u c rest))
    have hrestnumbered : ∀ c ∈ rest.constructs, c.Numbered nonce := fun c hc =>
      hnumbered c (List.mem_cons_of_mem _ hc)
    have ih := @ih hrestnumbered (fun c hc => hwrite c (List.mem_cons_of_mem _ hc)) hrestfree
    have hc := hnumbered c List.mem_cons_self
    have hhtml := hwrite c List.mem_cons_self
    cases c with
    | link token l =>
      obtain ⟨n, rfl⟩ := hc
      replace hhtml : write (inlineToken nonce n) = l.html := hhtml
      simp only [behind, Construct.masked, restoredFrom]
      rw [substitute_link hnonce n _ htfree, hhtml, masked_eq, ih List.suffix_rfl]
    | fence token src html =>
      obtain ⟨n, rfl⟩ := hc
      replace hhtml : write (blockToken nonce n) = html := hhtml
      simp only [behind, restoredFrom]
      cases hfront : beforeParagraph? t with
      | none =>
        rw [substitute_fence hnonce hrestnumbered n src html htfree (.inl hfront), hhtml, masked_eq,
          ih List.suffix_rfl]
      | some front =>
        cases hback : afterParagraph? rest.text with
        | none =>
          rw [substitute_fence hnonce hrestnumbered n src html htfree (.inr hback), hhtml, masked_eq,
            ih List.suffix_rfl]
        | some back =>
          obtain ⟨more, -, htext⟩ := afterParagraph?_some.mp hback
          have hsuffix : back <:+ rest.text := ⟨more ++ "</p>".toList, by simp [htext]⟩
          rw [substitute_paragraph hnonce n src html htfree hfront hback, hhtml, ih hsuffix]

end Segments

section Counting

variable {nonce : Text} (hnonce : ∀ c ∈ nonce, c ∈ Digest.digits)

lemma Construct.Numbered.isToken {c : Construct} (h : c.Numbered nonce) : IsToken nonce c.token := by
  cases c with
  | fence token source html =>
    obtain ⟨n, rfl⟩ := h
    exact isToken_blockToken nonce n
  | link token l =>
    obtain ⟨n, rfl⟩ := h
    exact isToken_inlineToken nonce n

lemma Construct.Numbered.findToken {c : Construct} (h : c.Numbered nonce) (rest : Text) :
    findToken nonce [] (c.token ++ rest) = some ⟨c.token, c.token.length⟩ := by
  cases c with
  | fence token source html =>
    obtain ⟨n, rfl⟩ := h
    exact findToken_blockToken [] n rest
  | link token l =>
    obtain ⟨n, rfl⟩ := h
    exact findToken_inlineToken [] n rest

/-- One token starts another one only if they are the same. -/
lemma Construct.Numbered.token_eq {c d : Construct} (hc : c.Numbered nonce) (hd : d.Numbered nonce)
    {rest : Text} (h : c.token <+: d.token ++ rest) : d.token = c.token := by
  obtain ⟨more, hmore⟩ := h
  have hfind := hc.findToken more
  rw [hmore, hd.findToken rest] at hfind
  exact congrArg Text.Hit.value (Option.some.inj hfind)

include hnonce

lemma occurrences_token {c d : Construct} (hc : c.Numbered nonce) (hd : d.Numbered nonce)
    (rest : Text) : occurrences c.token (d.token ++ rest) =
      (if d.token = c.token then 1 else 0) + occurrences c.token rest := by
  obtain ⟨e, tail, htail, -⟩ := hd.isToken.head
  have hstart : c.token <+: d.token ++ rest ↔ d.token = c.token :=
    ⟨hc.token_eq hd, fun h => h ▸ List.prefix_append _ _⟩
  have hinside : occurrences c.token (tail ++ rest) = occurrences c.token rest :=
    occurrences_append tail rest fun u v huv hv =>
      hd.isToken.not_prefix_inside hnonce hc.isToken (u := e :: u) (by rw [htail, huv]; rfl)
        (by simp) hv
  rw [htail, List.cons_append, occurrences, hinside]
  rw [htail, List.cons_append] at hstart
  simp only [hstart]

lemma occurrences_construct {c d : Construct} (hc : c.Numbered nonce) (hd : d.Numbered nonce)
    (rest : Text) : occurrences c.token (d.masked ++ rest) =
      (if d.token = c.token then 1 else 0) + occurrences c.token rest := by
  cases d with
  | link token l => exact occurrences_token hnonce hc hd rest
  | fence token source html =>
    have hfeeds : ∀ t, occurrences c.token ("\n\n".toList ++ t) = occurrences c.token t := by
      intro t
      refine occurrences_append _ t fun u v huv hv hprefix => ?_
      obtain ⟨e, tail, htail, he⟩ := hc.isToken.head
      obtain ⟨x, v, rfl⟩ := List.exists_cons_of_ne_nil hv
      rw [htail] at hprefix
      obtain ⟨rfl, -⟩ := List.cons_prefix_cons.mp hprefix
      have hmem : e ∈ "\n\n".toList := by rw [huv]; simp
      have hstart : ∀ e ∈ "\n\n".toList, e ∉ ['<', 'f'] := by simp
      exact hstart e hmem he
    have htoken := occurrences_token hnonce hc hd ("\n\n".toList ++ rest)
    simp only [Construct.masked, List.append_assoc, hfeeds] at htoken ⊢
    exact htoken

lemma occurrences_text {c : Construct} (hc : c.Numbered nonce) {s : Segments}
    (hnumbered : ∀ d ∈ s.constructs, d.Numbered nonce) (hfree : ¬ nonce <:+: s.source) :
    occurrences c.token s.masked = occurrences c.token s.behind := by
  rw [s.masked_eq]
  refine occurrences_append _ _ fun u v huv hv => ?_
  refine hc.isToken.not_prefix_plain hnonce hv (fun hin => hfree ?_) (Segments.bounds_behind hnumbered)
  have hsuffix : v <:+ s.text := ⟨u, huv.symm⟩
  exact hin.trans (hsuffix.isInfix.trans s.text_infix_source)

/-- A token occurs in a masked text as often as it stands for a construct. -/
lemma occurrences_masked {c : Construct} (hc : c.Numbered nonce) {s : Segments}
    (hnumbered : ∀ d ∈ s.constructs, d.Numbered nonce) (hfree : ¬ nonce <:+: s.source) :
    occurrences c.token s.masked = (s.constructs.map Construct.token).count c.token := by
  rw [occurrences_text hnonce hc hnumbered hfree]
  induction s with
  | last t => rfl
  | step t d rest ih =>
    have hrest : ∀ d ∈ rest.constructs, d.Numbered nonce := fun d hd =>
      hnumbered d (List.mem_cons_of_mem _ hd)
    have hrestfree : ¬ nonce <:+: rest.source := fun hin =>
      hfree (hin.trans (Segments.rest_infix_source t d rest))
    rw [Segments.behind, occurrences_construct hnonce hc (hnumbered d List.mem_cons_self),
      occurrences_text hnonce hc hrest hrestfree, ih hrest hrestfree]
    simp only [Segments.constructs, List.map_cons, List.count_cons, beq_iff_eq]
    exact Nat.add_comm _ _

end Counting

lemma restore_masked {table : RawTable} (hnonce : ∀ c ∈ table.nonce, c ∈ Digest.digits)
    {s : Segments} (hentries : table.entries.Perm (s.constructs.map Construct.entry))
    (hnodup : (s.constructs.map Construct.token).Nodup)
    (hnumbered : ∀ c ∈ s.constructs, c.Numbered table.nonce) (hfree : ¬ table.nonce <:+: s.source) :
    restore table s.masked = s.restored := by
  have hkeys : (table.entries.map Prod.fst).Nodup := by
    refine (hentries.map Prod.fst).nodup_iff.mpr ?_
    rwa [List.map_map]
  have hlookup : ∀ c ∈ s.constructs, (table.entries.lookup c.token).getD c.token = c.html := by
    intro c hc
    rw [lookup_of_mem hkeys (hentries.mem_iff.mpr (List.mem_map_of_mem hc)), Option.getD_some]
  unfold restore
  split
  · rename_i hempty
    cases s with
    | last t => rfl
    | step t c rest =>
      rw [List.isEmpty_iff.mp hempty] at hentries
      exact absurd hentries.nil_eq (by simp [Segments.constructs])
  · rw [s.masked_eq]
    exact Segments.substitute_masked hnonce hnumbered hlookup hfree List.suffix_rfl

/-- Masking and restoring change nothing but fences and links. One cut of the body into literal
text and constructs gives the body, the masked text with each token once, and the restored text. -/
theorem restore_protect (body : Text) (h : ¬ nonceOf body <:+: body) :
    ∃ s : Segments, s.source = body ∧ s.Matched [] ∧ (protect body).1 = s.masked ∧
      (protect body).2.entries.Perm (s.constructs.map Construct.entry) ∧
      (s.constructs.map Construct.token).Nodup ∧
      (∀ c ∈ s.constructs, occurrences c.token (protect body).1 = 1) ∧
      restore (protect body).2 (protect body).1 = s.restored := by
  obtain ⟨s, hsource, hmatched, hmasked, hentries, hnodup, hnumbered⟩ := exists_segments body
  have hfree : ¬ nonceOf body <:+: s.source := hsource ▸ h
  refine ⟨s, hsource, hmatched, hmasked, hentries, hnodup, fun c hc => ?_, ?_⟩
  · rw [hmasked, occurrences_masked nonceOf_mem (hnumbered c hc) hnumbered hfree]
    exact List.count_eq_one_of_mem hnodup (List.mem_map_of_mem hc)
  · rw [hmasked]
    have htable : (protect body).2.nonce = nonceOf body := by rw [protect_eq]; rfl
    rw [← htable] at hnumbered hfree
    exact restore_masked (htable ▸ nonceOf_mem) hentries hnodup hnumbered hfree

/-- A body with a raw fence and a link. -/
def fenceAndLink : Text := ":::html\n<b>\n:::\nGo [on](/a)\x7bget\x7d.".toList

theorem restore_protect_fenceAndLink : ¬ nonceOf fenceAndLink <:+: fenceAndLink ∧
    ∃ s : Segments, s.source = fenceAndLink ∧ s.Matched [] ∧ (protect fenceAndLink).1 = s.masked ∧
      (protect fenceAndLink).2.entries.Perm (s.constructs.map Construct.entry) ∧
      (s.constructs.map Construct.token).Nodup ∧
      (∀ c ∈ s.constructs, occurrences c.token (protect fenceAndLink).1 = 1) ∧
      restore (protect fenceAndLink).2 (protect fenceAndLink).1 = s.restored := by
  have h : ¬ nonceOf fenceAndLink <:+: fenceAndLink := by decide +kernel
  exact ⟨h, restore_protect fenceAndLink h⟩

end RawTable
end Sitewright
