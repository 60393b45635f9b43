import Mathlib.Data.List.Basic
import Sitewright.Proofs.Token
import Sitewright.Markdown.RawHtml

/-!
The scan for raw HTML. What it has written stays written; and a comment that stands at the start of a
line, outside of any raw block, is kept as a block of its own.
-/
namespace Sitewright.Markdown

/-- Does nothing in a text open markup, code, or a character reference? -/
def IsProse (t : Text) : Prop := ∀ c ∈ t, c ∉ ['<', '&', '`', '~']

lemma IsProse.append {a b : Text} (ha : IsProse a) (hb : IsProse b) : IsProse (a ++ b) :=
  fun c hc => (List.mem_append.mp hc).elim (ha c) (hb c)

lemma isProse_blankLine : IsProse "\n\n".toList := by
  simp [IsProse]

/-- Prose, and tokens of fences on paragraphs of their own. -/
inductive Prosaic (nonce : Text) : Text → Prop
  | prose {p : Text} (hp : IsProse p) : Prosaic nonce p
  | fence {p : Text} (hp : IsProse p) (n : ℕ) {u : Text} (hu : Prosaic nonce u) :
    Prosaic nonce (p ++ "\n\n".toList ++ (RawTable.blockToken nonce n ++ "\n\n".toList) ++ u)

lemma getElem?_mono {α : Type} {a b : List α} (h : a <+: b) {n : ℕ} {x : α} (hx : a[n]? = some x) :
    b[n]? = some x := by
  obtain ⟨c, rfl⟩ := h
  rw [List.getElem?_append_left (List.getElem?_eq_some_iff.mp hx).1]
  exact hx

namespace RawHtml

section Later

/-- A later state of the scan: what was written and kept before is still there. -/
structure Later (s s' : RawHtml) : Prop where
  clean : s.clean <:+ s'.clean
  kept : s.kept <+: s'.kept

lemma Later.trans {a b c : RawHtml} (h : Later a b) (h' : Later b c) : Later a c :=
  ⟨h.clean.trans h'.clean, h.kept.trans h'.kept⟩

lemma later_of_eq {s s' : RawHtml} (hclean : s'.clean = s.clean) (hkept : s'.kept = s.kept) :
    Later s s' :=
  ⟨hclean ▸ List.suffix_rfl, hkept ▸ List.prefix_rfl⟩

lemma Later.refl (s : RawHtml) : Later s s := later_of_eq rfl rfl

lemma later_keepText (s : RawHtml) (t : Text) : Later s (s.keepText t) :=
  ⟨List.suffix_cons _ _, List.prefix_rfl⟩

lemma later_keepRaw (s : RawHtml) (t : Text) : Later s (s.keepRaw t) := later_of_eq rfl rfl

lemma later_keepBlock (s : RawHtml) (html : Text) : Later s (s.keepBlock html) :=
  ⟨(List.suffix_cons _ _).trans (List.suffix_cons _ _), List.prefix_append _ _⟩

/-- Finding the current line touches nothing but the starts of lines. -/
lemma locate_eq (s : RawHtml) : ∃ starts, s.locate = { s with starts } := by
  have hnote : ∀ n s, ∃ starts, noteStarts s n = { s with starts } := by
    intro n
    induction n with
    | zero => exact fun s => ⟨s.starts, rfl⟩
    | succ n ih =>
      intro s
      obtain ⟨starts, hstarts⟩ := ih { s with starts := s.starts ++ [_] }
      exact ⟨starts, by rw [noteStarts, hstarts]⟩
  exact hnote _ s

lemma atLineStart_eq (s : RawHtml) : ∃ b starts, s.atLineStart = (b, { s with starts }) := by
  unfold atLineStart
  split
  · exact ⟨_, _, rfl⟩
  · split
    · exact ⟨_, _, rfl⟩
    · obtain ⟨starts, h⟩ := s.locate_eq
      rw [h]
      exact ⟨_, starts, rfl⟩

lemma blankFollows_eq (s : RawHtml) (size : ℕ) :
    ∃ b starts, s.blankFollows size = (b, { s with starts }) := by
  obtain ⟨starts, h⟩ := s.locate_eq
  unfold blankFollows
  rw [h]
  exact ⟨_, starts, rfl⟩

lemma later_advance (s : RawHtml) (t : Text) : Later s (s.advance t) := by
  unfold advance
  simp only []
  split <;> exact later_of_eq rfl rfl

lemma later_onText (s : RawHtml) (t : Text) : Later s (s.onText t) := by
  unfold onText
  simp only []
  repeat' split
  all_goals
    first
    | exact later_of_eq rfl rfl
    | exact ⟨List.suffix_cons _ _, List.prefix_rfl⟩

lemma later_onEmpty (s : RawHtml) (t : Text) (isBlock : Bool) : Later s (s.onEmpty t isBlock) := by
  unfold onEmpty
  split
  · exact later_keepRaw s t
  · obtain ⟨starts, lines, hstart⟩ := s.atLineStart_eq
    rw [hstart]
    simp only []
    split
    · obtain ⟨blank, lines', hblank⟩ := blankFollows_eq { s with starts := lines } t.length
      rw [hblank]
      refine Later.trans ?_ (later_keepBlock _ _)
      simp only []
      repeat' split
      all_goals
        first
        | exact later_of_eq rfl rfl
        | exact ⟨List.suffix_cons _ _, List.prefix_rfl⟩
    · exact ⟨List.suffix_cons _ _, List.prefix_rfl⟩

lemma later_onStart (s : RawHtml) (tag source : Text) : Later s (s.onStart tag source) := by
  unfold onStart
  split
  · exact later_onEmpty s source true
  · obtain ⟨starts, lines, hstart⟩ := s.atLineStart_eq
    rw [hstart]
    simp only []
    repeat' split
    all_goals
      first
      | exact later_of_eq rfl rfl
      | exact ⟨List.suffix_cons _ _, List.prefix_rfl⟩
      | exact ⟨(List.suffix_cons _ _).trans (List.suffix_cons _ _), List.prefix_rfl⟩

/-- The end of a raw block keeps the block. -/
lemma later_close (s : RawHtml) (size : ℕ) (html : RawHtml → Text) : Later s
    (let (blank, s) := s.blankFollows size
      let s := if blank then s.keepRaw ['\n'] else { s with trailing := true }
      { s with inside := false, raw := [] }.keepBlock (html s)) := by
  obtain ⟨blank, starts, hblank⟩ := s.blankFollows_eq size
  rw [hblank]
  refine Later.trans ?_ (later_keepBlock _ _)
  cases blank <;> exact later_of_eq rfl rfl

lemma later_onEnd (s : RawHtml) (tag : Text) : Later s (s.onEnd tag) := by
  unfold onEnd
  extract_lets s₁ _ source s₂ s₃
  have hlocate : Later s s₁ := by
    obtain ⟨starts, h⟩ := s.locate_eq
    unfold s₁
    rw [h]
    exact later_of_eq rfl rfl
  have hclosed : Later s₁ s₃ := by
    refine (later_keepRaw s₁ source).trans ?_
    unfold s₃
    split <;> exact later_of_eq rfl rfl
  refine hlocate.trans ?_
  split
  · refine hclosed.trans ?_
    split
    · exact later_close s₃ (List.length source) fun s => s.raw.reverse.flatten
    · exact .refl s₃
  · exact later_keepText _ _

/-- A construct that is read from a text and then handled keeps what its handling keeps. -/
lemma later_of_map {α : Type} {s s' : RawHtml} {after : Text} {read : Option α} {handle : α → RawHtml × Text}
    (hhandle : ∀ x, Later s (handle x).1) (h : read.map handle = some (s', after)) : Later s s' := by
  obtain ⟨x, -, heq⟩ := Option.map_eq_some_iff.mp h
  have hlater := hhandle x
  rwa [heq] at hlater

lemma later_atLineStart (s : RawHtml) : Later s s.atLineStart.2 := by
  obtain ⟨starts, lines, hstart⟩ := s.atLineStart_eq
  rw [hstart]
  exact later_of_eq rfl rfl

lemma later_bogus {s s' : RawHtml} {t after : Text} (h : s.bogus? t = some (s', after)) : Later s s' :=
  later_of_map (fun _ => later_onEmpty s _ false) h

lemma later_declaration {s s' : RawHtml} {t after : Text}
    (h : s.declaration? t = some (s', after)) : Later s s' := by
  refine s.later_atLineStart.trans ?_
  unfold declaration? at h
  simp only [] at h
  split at h
  · obtain ⟨rfl, -⟩ := Prod.mk.inj (Option.some.inj h)
    exact later_onText _ _
  split at h
  · exact later_of_map (fun _ => later_onEmpty _ _ _) h
  split at h
  · cases hbogus : s.atLineStart.2.bogus? t with
    | none =>
      rw [hbogus] at h
      obtain ⟨rfl, -⟩ := Prod.mk.inj (Option.some.inj h)
      exact later_onText _ _
    | some p =>
      rw [hbogus] at h
      obtain rfl : p = (s', after) := Option.some.inj h
      exact later_bogus hbogus
  split at h
  · exact later_of_map (fun _ => later_onEmpty _ _ _) h
  · exact later_bogus h

lemma later_instruction {s s' : RawHtml} {t after : Text}
    (h : s.instruction? t = some (s', after)) : Later s s' := by
  refine s.later_atLineStart.trans ?_
  unfold instruction? at h
  simp only [] at h
  split at h
  · exact later_of_map (fun _ => later_onEmpty _ _ _) h
  · obtain ⟨rfl, -⟩ := Prod.mk.inj (Option.some.inj h)
    exact later_onText _ _

lemma later_endTag {s s' : RawHtml} {t after : Text} (h : s.endTag? t = some (s', after)) :
    Later s s' := by
  obtain ⟨⟨upTo, after'⟩, -, heq⟩ := Option.map_eq_some_iff.mp h
  simp only [] at heq
  repeat' split at heq
  all_goals
    obtain ⟨rfl, -⟩ := Prod.mk.inj heq
    first
    | exact later_onText _ _
    | exact later_onEnd _ _
    | exact later_onEmpty _ _ _
    | exact (later_onEnd _ _).trans (later_of_eq rfl rfl)

lemma later_startTag (s : RawHtml) (t : Text) : Later s (s.startTag t).1 := by
  unfold startTag
  split
  · exact later_onText _ _
  · simp only []
    split
    · exact later_onText _ _
    · exact later_onEmpty _ _ _
    · refine Later.trans ?_ (later_onStart _ _ _)
      split <;> exact later_of_eq rfl rfl

lemma later_construct {s s' : RawHtml} {t after : Text} (h : s.construct? t = some (s', after)) :
    Later s s' := by
  unfold construct? at h
  split at h
  · exact later_endTag h
  · obtain ⟨⟨body, tight, rest⟩, -, heq⟩ := Option.map_eq_some_iff.mp h
    simp only [] at heq
    split at heq
    · obtain ⟨rfl, -⟩ := Prod.mk.inj heq
      exact later_onEmpty _ _ _
    · obtain ⟨rfl, -⟩ := Prod.mk.inj heq
      exact later_onText _ _
  · exact later_instruction h
  · exact later_declaration h
  · rename_i c rest _ _ _ _
    have heq := Option.some.inj h
    split at heq
    · have hlater := later_startTag s ('<' :: c :: rest)
      rwa [heq] at hlater
    · obtain ⟨rfl, -⟩ := Prod.mk.inj heq
      exact later_onText _ _
  · cases h

lemma later_step (s : RawHtml) (t : Text) : Later s ((s.onText t).advance t) :=
  (later_onText s t).trans (later_advance _ _)

lemma later_pass (final : Bool) (fuel : ℕ) (s : RawHtml) (t : Text) :
    Later s (pass final fuel s t).1 := by
  induction fuel generalizing s t with
  | zero => exact .refl s
  | succ fuel ih =>
    unfold pass
    extract_lets plain?
    clear_value plain?
    cases plain? with
    | none => exact .refl s
    | some plain =>
      have hplain : Later s (if plain.isEmpty then s else (s.onText plain).advance plain) := by
        split
        · exact .refl s
        · exact later_step _ _
      revert hplain
      simp only []
      generalize (if plain.isEmpty then s else (s.onText plain).advance plain) = s₁
      generalize t.drop plain.length = t₁
      intro hplain
      refine hplain.trans ?_
      split
      · exact .refl s₁
      · split
        · rename_i hconstruct
          exact ((later_construct hconstruct).trans (later_advance _ _)).trans (ih _ _)
        · split
          · exact (later_step _ _).trans (ih _ _)
          · exact .refl s₁
      · split
        · exact ((later_onEmpty _ _ _).trans (later_advance _ _)).trans (ih _ _)
        · split
          · simp only []
            exact later_step _ _
          · exact .refl s₁
      · split
        · exact ((later_onEmpty _ _ _).trans (later_advance _ _)).trans (ih _ _)
        · exact (later_step _ _).trans (ih _ _)

end Later

section Token

/-- A comment ends at the first two dashes before a closing bracket. -/
lemma comment?_eq {body : Text} (rest : Text)
    (hbody : ∀ c ∈ body, Text.isBlank c = false ∧ c ≠ '>') (hlast : body.getLast? ≠ some '-') :
    comment? (body ++ ("-->".toList ++ rest)) = some (body, true, rest) := by
  induction body with
  | nil => rfl
  | cons c cs ih =>
    have hopen : ∀ {more after}, "--".toList ++ more = c :: (cs ++ ("-->".toList ++ rest)) →
        more.dropWhile Text.isBlank ≠ '>' :: after := by
      intro more after hmore hclosed
      cases cs with
      | nil =>
        obtain ⟨rfl, -⟩ := List.cons.inj hmore
        exact hlast rfl
      | cons d ds =>
        obtain rfl : more = ds ++ ("-->".toList ++ rest) :=
          (List.cons.inj (List.cons.inj hmore).2).2
        cases ds with
        | nil => exact absurd (List.cons.inj hclosed).1 (by decide)
        | cons e es =>
          obtain ⟨hblank, hbracket⟩ := hbody e (by simp)
          rw [List.cons_append, List.dropWhile_cons_of_neg (by simp [hblank])] at hclosed
          exact hbracket (List.cons.inj hclosed).1
    have hcs : comment? (cs ++ ("-->".toList ++ rest)) = some (cs, true, rest) := by
      refine ih (fun d hd => hbody d (List.mem_cons_of_mem _ hd)) fun h => hlast ?_
      cases cs with
      | nil => cases h
      | cons d ds => rwa [List.getLast?_cons_cons]
    rw [List.cons_append, comment?]
    split
    · rename_i tight after hclosed
      obtain ⟨more, hmore, hafter⟩ := Option.bind_eq_some_iff.mp hclosed
      rw [List.isPrefixOf?_eq_some_iff_append_eq] at hmore
      split at hafter
      · rename_i hbracket
        exact absurd hbracket (hopen hmore)
      · cases hafter
    · rw [hcs]
      rfl

variable {nonce : Text} (hnonce : ∀ c ∈ nonce, c ∈ Digest.digits)
include hnonce

/-- The token of a fence is one comment. -/
lemma construct?_blockToken (s : RawHtml) (n : ℕ) (rest : Text) :
    s.construct? (RawTable.blockToken nonce n ++ rest) =
      some (s.onEmpty (RawTable.blockToken nonce n) true, rest) := by
  obtain ⟨body, htoken, hbody, hlast⟩ := RawTable.blockToken_eq hnonce n
  have hplain : ∀ c ∈ RawTable.letters, Text.isBlank c = false ∧ c ≠ '>' :=
    Text.forall_of_all (by decide)
  have hcomment := comment?_eq rest (fun c hc => hplain c (hbody c hc)) hlast
  have hsource : RawTable.blockToken nonce n ++ rest =
      '<' :: '!' :: '-' :: '-' :: (body ++ ("-->".toList ++ rest)) := by
    rw [htoken]
    simp
  rw [hsource]
  unfold construct?
  simp only [hcomment, Option.map_some, if_true]
  rw [htoken, List.append_assoc]

end Token

section Prose

/-- The scan is outside of raw blocks and of elements without markup. -/
structure Outside (s : RawHtml) : Prop where
  inside : s.inside = false
  verbatimTag : s.verbatimTag = none

/-- A line starts behind a blank line. -/
structure LineStart (s : RawHtml) : Prop extends Outside s where
  trailing : s.trailing = false
  column : s.column = 0
  clean : ∃ last more, s.clean = last :: more ∧ "\n\n".toList <:+ last

/-- Is the word part of kept HTML whose mark stands between blank lines? -/
def Placed (word : Text) (s : RawHtml) : Prop :=
  ∃ m last more html, ("\n\n".toList :: Mark.html m :: last :: more) <:+ s.clean ∧
    "\n\n".toList <:+ last ∧ s.kept[m]? = some html ∧ word <:+: html

lemma Placed.later {word : Text} {s s' : RawHtml} (h : Placed word s) (hlater : Later s s') :
    Placed word s' := by
  obtain ⟨m, last, more, html, hclean, hlast, hkept, hword⟩ := h
  exact ⟨m, last, more, html, hclean.trans hlater.clean, hlast, getElem?_mono hlater.kept hkept, hword⟩

lemma Placed.flatten {word : Text} {s : RawHtml} (h : Placed word s) : ∃ m front back html,
    s.clean.reverse.flatten = front ++ "\n\n".toList ++ Mark.html m ++ "\n\n".toList ++ back ∧
      s.kept[m]? = some html ∧ word <:+: html := by
  obtain ⟨m, last, more, html, ⟨later, hclean⟩, ⟨lead, hlast⟩, hkept, hword⟩ := h
  refine ⟨m, more.reverse.flatten ++ lead, later.reverse.flatten, html, ?_, hkept, hword⟩
  rw [← hclean, ← hlast]
  simp only [List.reverse_append, List.reverse_cons, List.flatten_append, List.flatten_cons,
    List.flatten_nil, List.append_assoc, List.append_nil]

lemma Outside.advance {s : RawHtml} (hs : Outside s) (t : Text) : Outside (s.advance t) := by
  unfold RawHtml.advance
  simp only []
  split <;> exact ⟨hs.inside, hs.verbatimTag⟩

/-- Behind text that ends in a blank line a line starts. -/
lemma Outside.lineStart {s : RawHtml} (hs : Outside s) (p : Text) :
    LineStart ((s.onText (p ++ "\n\n".toList)).advance (p ++ "\n\n".toList)) := by
  have hfeed : (p ++ "\n\n".toList).contains '\n' = true := by simp
  have htext : s.onText (p ++ "\n\n".toList) =
      { s with trailing := false, clean := (p ++ "\n\n".toList) :: s.clean } := by
    have hreset : (if s.trailing then { s with trailing := false } else s) =
        { s with trailing := false } := by
      obtain ⟨⟩ := s
      split
      · rfl
      · simp_all
    unfold onText
    simp only [hfeed, Bool.and_true, hreset]
    simp only [hs.inside, Bool.false_eq_true, if_false, keepText]
  have hcount : (p ++ "\n\n".toList).count '\n' ≠ 0 := by simp
  have htail : ((p ++ "\n\n".toList).reverse.takeWhile (· ≠ '\n')).length = 0 := by simp
  rw [htext, RawHtml.advance]
  simp only [hcount, htail, if_false]
  exact ⟨⟨hs.inside, hs.verbatimTag⟩, rfl, rfl, _, _, rfl, List.suffix_append _ _⟩

/-- A comment where a line starts is kept as a block of its own. -/
lemma LineStart.onEmpty {s : RawHtml} (hs : LineStart s) (t : Text) :
    Outside (s.onEmpty t true) ∧ Placed t (s.onEmpty t true) := by
  obtain ⟨last, more, hclean, hlast⟩ := hs.clean
  have hsuffix : "\n\n".toList.isSuffixOf last = true := List.isSuffixOf_iff_suffix.mpr hlast
  have hstart : s.atLineStart = (true, s) := by
    unfold atLineStart
    rw [if_pos hs.column]
  have hkept : ∀ html : Text, (s.kept ++ [html])[s.kept.length]? = some html := by simp
  obtain ⟨blank, starts, hblank⟩ := s.blankFollows_eq t.length
  unfold RawHtml.onEmpty
  simp only [hs.inside, hs.trailing, hstart, hblank, hclean, Bool.or_self, Bool.and_self,
    Bool.false_eq_true, if_false, if_true]
  cases blank with
  | true =>
    simp only [if_true, hsuffix, Bool.not_true, Bool.false_and, Bool.false_eq_true, if_false]
    exact ⟨⟨rfl, hs.verbatimTag⟩, _, last, more, _, List.suffix_rfl, hlast, hkept _,
      (List.prefix_append _ _).isInfix⟩
  | false =>
    simp only [hsuffix, Bool.not_true, Bool.false_and, Bool.false_eq_true, if_false]
    exact ⟨⟨rfl, hs.verbatimTag⟩, _, last, more, _, List.suffix_rfl, hlast, hkept _,
      List.infix_rfl⟩

variable {nonce : Text} (hnonce : ∀ c ∈ nonce, c ∈ Digest.digits)
include hnonce

/-- A token of a fence behind prose is kept as a block of its own. -/
lemma pass_fence {s : RawHtml} (hs : Outside s) {p : Text} (hp : ∀ c ∈ p, c ≠ '<' ∧ c ≠ '&')
    (final : Bool) (fuel n : ℕ) (rest : Text) :
    ∃ s', pass final (fuel + 1) s (p ++ "\n\n".toList ++ (RawTable.blockToken nonce n ++ rest)) =
      pass final fuel s' rest ∧ Outside s' ∧ Placed (RawTable.blockToken nonce n) s' := by
  obtain ⟨token, htoken⟩ : ∃ token, token = RawTable.blockToken nonce n := ⟨_, rfl⟩
  obtain ⟨tail, htail⟩ : ∃ tail, token ++ rest = '<' :: tail := by
    rw [htoken]
    exact ⟨_, rfl⟩
  have hplain : ∀ c ∈ p ++ "\n\n".toList, (decide (c ≠ '<') && decide (c ≠ '&')) = true := by
    intro c hc
    rcases List.mem_append.mp hc with hc | hc
    · simpa using hp c hc
    · obtain rfl : c = '\n' := by simpa using hc
      rfl
  have htake : (p ++ "\n\n".toList ++ (token ++ rest)).takeWhile
      (fun c => c ≠ '<' && c ≠ '&') = p ++ "\n\n".toList := by
    rw [List.takeWhile_append_of_pos hplain, htail]
    simp
  have hempty : (p ++ "\n\n".toList).isEmpty = false := by simp
  obtain ⟨s₁, hs₁⟩ : ∃ s₁, s₁ = (s.onText (p ++ "\n\n".toList)).advance (p ++ "\n\n".toList) := ⟨_, rfl⟩
  have hstart : LineStart s₁ := hs₁ ▸ hs.lineStart p
  obtain ⟨houtside, hplaced⟩ := hstart.onEmpty token
  have hconstruct : s₁.construct? ('<' :: tail) = some (s₁.onEmpty token true, rest) := by
    rw [← htail, htoken]
    exact construct?_blockToken hnonce s₁ n rest
  rw [← htoken]
  refine ⟨(s₁.onEmpty token true).advance
    (('<' :: tail).take (('<' :: tail).length - rest.length)), ?_, houtside.advance _,
    hplaced.later (later_advance _ _)⟩
  rw [pass, hs.verbatimTag]
  simp only [htake, List.drop_left, hempty, ← hs₁, Bool.false_eq_true, if_false]
  simp only [htail, hconstruct]

/-- Prose and tokens of fences do not lead the scan into a raw block. -/
lemma pass_prosaic {u : Text} (hu : Prosaic nonce u) {s : RawHtml} (hs : Outside s) (final : Bool)
    {fuel : ℕ} (hfuel : u.length < fuel) {lead : Text} (hlead : IsProse lead) (n : ℕ) (rest : Text) :
    Placed (RawTable.blockToken nonce n)
      (pass final fuel s (lead ++ (u ++ "\n\n".toList ++ (RawTable.blockToken nonce n ++ rest)))).1 := by
  have hbracket : ∀ {t : Text}, IsProse t → ∀ c ∈ t, c ≠ '<' ∧ c ≠ '&' := by
    intro t ht c hc
    have hprose := ht c hc
    simp only [List.mem_cons, not_or] at hprose
    exact ⟨hprose.1, hprose.2.1⟩
  -- `lead` is the blank line behind the fence before, which is read with the prose after it
  induction hu generalizing s fuel lead with
  | @prose p hp =>
    obtain ⟨fuel, rfl⟩ : ∃ f, fuel = f + 1 := ⟨fuel - 1, by omega⟩
    have htext : lead ++ (p ++ "\n\n".toList ++ (RawTable.blockToken nonce n ++ rest)) =
        (lead ++ p) ++ "\n\n".toList ++ (RawTable.blockToken nonce n ++ rest) := by
      simp only [List.append_assoc]
    obtain ⟨s', hpass, -, hplaced⟩ := pass_fence hnonce hs (hbracket (hlead.append hp)) final fuel n rest
    rw [htext, hpass]
    exact hplaced.later (later_pass _ _ _ _)
  | @fence p hp m u hu ih =>
    obtain ⟨fuel, rfl⟩ : ∃ f, fuel = f + 1 := ⟨fuel - 1, by omega⟩
    have htext : lead ++ (p ++ "\n\n".toList ++ (RawTable.blockToken nonce m ++ "\n\n".toList) ++ u ++
          "\n\n".toList ++ (RawTable.blockToken nonce n ++ rest)) =
        (lead ++ p) ++ "\n\n".toList ++ (RawTable.blockToken nonce m ++ ("\n\n".toList ++
          (u ++ "\n\n".toList ++ (RawTable.blockToken nonce n ++ rest)))) := by
      simp only [List.append_assoc]
    obtain ⟨s', hpass, houtside, -⟩ := pass_fence hnonce hs (hbracket (hlead.append hp)) final fuel m
      ("\n\n".toList ++ (u ++ "\n\n".toList ++ (RawTable.blockToken nonce n ++ rest)))
    rw [htext, hpass]
    refine ih houtside ?_ isProse_blankLine
    have hfeeds : "\n\n".toList.length = 2 := rfl
    simp only [List.length_append, hfeeds] at hfuel
    omega

/-- The token of a fence behind such text is kept, and its mark stands between blank lines. -/
theorem extract_prosaic {u : Text} (hu : Prosaic nonce u) (n : ℕ) (rest : Text) (kept : List Text) :
    ∃ m front back html,
      (extract (u ++ "\n\n".toList ++ (RawTable.blockToken nonce n ++ rest)) kept).1 =
        front ++ "\n\n".toList ++ Mark.html m ++ "\n\n".toList ++ back ∧
      (extract (u ++ "\n\n".toList ++ (RawTable.blockToken nonce n ++ rest)) kept).2[m]? = some html ∧
      RawTable.blockToken nonce n <:+: html := by
  obtain ⟨source, hsource⟩ : ∃ source, source =
    u ++ "\n\n".toList ++ (RawTable.blockToken nonce n ++ rest) := ⟨_, rfl⟩
  have hfirst : Placed (RawTable.blockToken nonce n)
      (pass false (source.length + 1) { source, kept } source).1 := by
    have hfuel : u.length < source.length + 1 := by
      rw [hsource]
      simp only [List.length_append]
      omega
    have hnil : IsProse [] := by simp [IsProse]
    have hplaced := pass_prosaic hnonce hu (s := { source, kept }) ⟨rfl, rfl⟩ false hfuel hnil n rest
    rwa [List.nil_append, ← hsource] at hplaced
  rw [← hsource]
  unfold extract
  simp only []
  generalize pass false (source.length + 1) { source, kept } source = first at hfirst
  have hsecond : Placed (RawTable.blockToken nonce n)
      (pass true (source.length + 1) { first.1 with source := first.2 } first.2).1 :=
    Placed.later (s := { first.1 with source := first.2 }) (hfirst.later (later_of_eq rfl rfl))
      (later_pass _ _ _ _)
  generalize pass true (source.length + 1) { first.1 with source := first.2 } first.2 = second at hsecond
  have hthird : Placed (RawTable.blockToken nonce n)
      (if second.2.isEmpty then second.1 else second.1.onText second.2) := by
    split
    · exact hsecond
    · exact hsecond.later (later_onText _ _)
  generalize (if second.2.isEmpty then second.1 else second.1.onText second.2) = third at hthird
  refine Placed.flatten ?_
  split
  · exact hthird
  · exact hthird.later ⟨List.suffix_cons _ _, List.prefix_append _ _⟩

end Prose

end RawHtml
end Sitewright.Markdown
