import Sitewright.Proofs.BlockMark
import Sitewright.Proofs.Restoring
import Sitewright.Proofs.RawHtmlScan
import Sitewright.Markdown.Compile

/-!
Raw fences behind prose. Where nothing but prose and other fences stands before a fence, its token
reaches the blocks of the document in a block of raw HTML of its own.
-/
namespace Sitewright.Markdown

namespace FencedCode

lemma extractFrom_plain (kept : List Text) (before plain : Text) (n : ℕ) (t : Text) :
    ∃ rest, (extractFrom kept (Text.piecesFrom find before plain n t)).1 = plain.reverse ++ rest := by
  induction t generalizing before plain n with
  | nil => exact ⟨[], rfl⟩
  | cons c cs ih =>
    cases n with
    | succ n => exact ih _ _ _
    | zero =>
      unfold Text.piecesFrom
      split
      · exact ⟨_, rfl⟩
      · obtain ⟨rest, hrest⟩ := ih (c :: before) (c :: plain) 0
        exact ⟨c :: rest, by rw [hrest]; simp⟩

/-- Text that opens no code is kept. -/
lemma extract_append {w : Text} (hw : ∀ c ∈ w, c ≠ '`' ∧ c ≠ '~') (t : Text) :
    ∃ rest, (extract (w ++ t)).1 = w ++ rest := by
  have hkeep : ∀ before plain, ∃ rest,
      (extractFrom [] (Text.piecesFrom find before plain 0 (w ++ t))).1 = plain.reverse ++ w ++ rest := by
    induction w with
    | nil =>
      intro before plain
      obtain ⟨rest, hrest⟩ := extractFrom_plain [] before plain 0 t
      exact ⟨rest, by rw [List.nil_append, hrest, List.append_nil]⟩
    | cons c cs ih =>
      intro before plain
      have hnone : find before (c :: (cs ++ t)) = none := by
        obtain ⟨htick, htilde⟩ := hw c List.mem_cons_self
        unfold find
        split
        · simp [htick, htilde]
        · rfl
      obtain ⟨rest, hrest⟩ := ih (fun d hd => hw d (List.mem_cons_of_mem _ hd)) (c :: before) (c :: plain)
      refine ⟨rest, ?_⟩
      rw [List.cons_append, Text.piecesFrom, hnone, hrest]
      simp
  exact hkeep [] []

end FencedCode

namespace Block

lemma go_append {m : Text} (hm : '\n' ∉ m) (part t : Text) :
    parts.go part (m ++ t) = parts.go (m.reverse ++ part) t := by
  induction m generalizing part with
  | nil => rfl
  | cons c cs ih =>
    have hc : c ≠ '\n' := (List.ne_of_not_mem_cons hm).symm
    rw [List.cons_append, parts.go, ih (List.not_mem_of_not_mem_cons hm)]
    · simp
    · exact fun _ h => absurd h hc

/-- Text between blank lines is a part, but for line feeds before it. -/
lemma mem_parts {m : Text} (hm : '\n' ∉ m) (hne : m ≠ []) (x y : Text) :
    ∃ block ∈ parts (x ++ "\n\n".toList ++ m ++ "\n\n".toList ++ y), block.dropWhile (· = '\n') = m := by
  have hhead : m.dropWhile (· = '\n') = m := by
    obtain ⟨c, cs, rfl⟩ := List.exists_cons_of_ne_nil hne
    rw [List.dropWhile_cons_of_neg]
    simpa using (List.ne_of_not_mem_cons hm).symm
  have hgo : ∀ part x, ∃ block ∈ parts.go part (x ++ ('\n' :: '\n' :: (m ++ ('\n' :: '\n' :: y)))),
      block.dropWhile (· = '\n') = m := by
    intro part x
    fun_induction parts.go part x with
    | case1 part =>
      refine ⟨m, ?_, hhead⟩
      rw [List.nil_append, parts.go, go_append hm, parts.go]
      simp
    | case2 part cs ih =>
      obtain ⟨block, hblock, hdrop⟩ := ih
      exact ⟨block, List.mem_cons_of_mem _ hblock, hdrop⟩
    | case3 part c cs hblank ih =>
      cases hfeed : decide (c = '\n' ∧ cs = []) with
      | true =>
        -- the line feed that ends `x` makes a blank line with the one behind it
        obtain ⟨rfl, rfl⟩ := of_decide_eq_true hfeed
        obtain ⟨d, ds, rfl⟩ := List.exists_cons_of_ne_nil hne
        refine ⟨'\n' :: d :: ds, ?_, by simpa using hhead⟩
        rw [List.cons_append, List.nil_append, parts.go, parts.go, go_append hm, parts.go]
        · simp
        · rintro _ - h
          obtain ⟨rfl, -⟩ := List.cons.inj h
          exact hm List.mem_cons_self
      | false =>
        rw [List.cons_append, parts.go]
        · exact ih
        · intro rest hc hrest
          cases cs with
          | nil => simp [hc] at hfeed
          | cons d ds => exact hblank ds hc (by rw [(List.cons.inj hrest).1])
  have htext : x ++ "\n\n".toList ++ m ++ "\n\n".toList ++ y =
      x ++ ('\n' :: '\n' :: (m ++ ('\n' :: '\n' :: y))) := by simp
  rw [htext]
  exact hgo [] x

end Block

/-- Is the word part of a block of raw HTML that stands between blank lines? -/
def InRawBlock (word masked : Text) : Prop :=
  ∃ n html, (∃ block ∈ Block.parts (extracted masked).1, Block.IsMark n block) ∧
    (extracted masked).2[n]? = some html ∧ word <:+: html

section Prosaic

variable {nonce : Text} (hnonce : ∀ c ∈ nonce, c ∈ Digest.digits)
include hnonce

/-- A token of a fence opens no code. -/
lemma blockToken_no_code {n : ℕ} {c : Char} (h : c ∈ RawTable.blockToken nonce n) :
    c ≠ '`' ∧ c ≠ '~' := by
  have htail := RawTable.forall_tail_blockToken hnonce (p := fun c => c ≠ '`' ∧ c ≠ '~')
    (Text.forall_of_all (by decide)) (Text.forall_of_all (by decide)) n
  obtain ⟨tail, htoken⟩ : ∃ tail, RawTable.blockToken nonce n = '<' :: tail := ⟨_, rfl⟩
  rw [htoken] at h htail
  rcases List.mem_cons.mp h with rfl | h
  · decide
  · exact htail c h

lemma Prosaic.no_code {u : Text} (hu : Prosaic nonce u) : ∀ c ∈ u, c ≠ '`' ∧ c ≠ '~' := by
  have hprose : ∀ {t : Text}, IsProse t → ∀ c ∈ t, c ≠ '`' ∧ c ≠ '~' := by
    intro t ht c hc
    have hnot := ht c hc
    simp only [List.mem_cons, not_or] at hnot
    exact ⟨hnot.2.2.1, hnot.2.2.2.1⟩
  induction hu with
  | prose hp => exact hprose hp
  | fence hp n hu ih =>
    intro c hc
    simp only [List.mem_append] at hc
    rcases hc with ((hc | hc) | hc | hc) | hc
    · exact hprose hp c hc
    · exact hprose isProse_blankLine c hc
    · exact blockToken_no_code hnonce hc
    · exact hprose isProse_blankLine c hc
    · exact ih c hc

/-- The token of a fence behind prose reaches the blocks of a document. -/
lemma inRawBlock_of_prosaic {u : Text} (hu : Prosaic nonce u) (n : ℕ) (rest : Text) :
    InRawBlock (RawTable.blockToken nonce n)
      (u ++ "\n\n".toList ++ (RawTable.blockToken nonce n ++ rest)) := by
  have hcode : ∀ c ∈ u ++ "\n\n".toList ++ RawTable.blockToken nonce n, c ≠ '`' ∧ c ≠ '~' := by
    intro c hc
    rcases List.mem_append.mp hc with hc | hc
    · rcases List.mem_append.mp hc with hc | hc
      · exact hu.no_code hnonce c hc
      · obtain rfl : c = '\n' := by simpa using hc
        decide
    · exact blockToken_no_code hnonce hc
  obtain ⟨more, hmore⟩ := FencedCode.extract_append hcode rest
  obtain ⟨m, front, back, html, hclean, hkept, hword⟩ := RawHtml.extract_prosaic hnonce hu n more
    (FencedCode.extract (u ++ "\n\n".toList ++ RawTable.blockToken nonce n ++ rest)).2
  have hextracted : extracted (u ++ "\n\n".toList ++ (RawTable.blockToken nonce n ++ rest)) =
      RawHtml.extract (u ++ "\n\n".toList ++ (RawTable.blockToken nonce n ++ more))
        (FencedCode.extract (u ++ "\n\n".toList ++ RawTable.blockToken nonce n ++ rest)).2 := by
    rw [← List.append_assoc _ _ rest, ← List.append_assoc _ _ more, ← hmore, extracted]
  rw [← hextracted] at hclean hkept
  refine ⟨m, html, ?_, hkept, hword⟩
  rw [hclean]
  exact Block.mem_parts (fun h => (Mark.isPart_of_mem h).ne (by decide) rfl) (List.cons_ne_nil _ _) _ _

end Prosaic

end Sitewright.Markdown

namespace Sitewright.RawTable
open Text (Piece)
open Markdown (IsProse Prosaic)

namespace Segments

/-- Is the literal text prose? -/
def Plain : Segments → Prop
  | last t => IsProse t
  | step t _ rest => IsProse t ∧ rest.Plain

lemma plain_prepend {t : Text} {s : Segments} (ht : IsProse t) (hs : s.Plain) : (s.prepend t).Plain := by
  cases s with
  | last u => exact ht.append hs
  | step u c rest => exact ⟨ht.append hs.1, hs.2⟩

lemma prepend_append (t : Text) (s u : Segments) : s.prepend t ++ u = (s ++ u).prepend t := by
  cases s with
  | last w =>
    cases u <;> simp [prepend, last_append]
  | step w c rest => rfl

/-- Prose stays prose when its links are masked. -/
lemma LinksOnly.isProse {nonce : Text} (hnonce : ∀ c ∈ nonce, c ∈ Digest.digits) {before : Text}
    {q : Segments} (h : q.LinksOnly before) (hnumbered : ∀ c ∈ q.constructs, c.Numbered nonce)
    (hsource : IsProse q.source) : IsProse q.masked := by
  have hletters : ∀ c ∈ letters, c ∉ ['<', '&', '`', '~'] :=
    Text.forall_of_all (by decide)
  induction q generalizing before with
  | last t => exact hsource
  | step t c rest ih =>
    cases c with
    | fence token src html => exact h.elim
    | link token l =>
      obtain ⟨n, rfl⟩ := hnumbered _ List.mem_cons_self
      have hrest : IsProse rest.masked :=
        ih h.2.2 (fun c hc => hnumbered c (List.mem_cons_of_mem _ hc))
          fun c hc => hsource c (List.mem_append_right _ (List.mem_append_right _ hc))
      have ht : IsProse t := fun c hc => hsource c (List.mem_append_left _ hc)
      have htoken : IsProse (inlineToken nonce n) := fun c hc =>
        hletters c (mem_letters_of_mem_inlineToken hnonce hc)
      exact ht.append (htoken.append hrest)

/-- A body of prose and fences is masked as prose and tokens of fences. -/
lemma prosaic_masked {nonce : Text} (hnonce : ∀ c ∈ nonce, c ∈ Digest.digits) {before : Text}
    {f q : Segments} (hf : f.FencesOnly nonce) (hplain : f.Plain) (hq : q.LinksOnly before)
    (hnumbered : ∀ c ∈ q.constructs, c.Numbered nonce) (hsource : q.source = f.masked) :
    Prosaic nonce q.masked := by
  -- links never reach into the token of a fence, so each fence cuts the links into two
  induction f generalizing before q with
  | last t => exact .prose (hq.isProse hnonce hnumbered (hsource ▸ hplain))
  | step t c rest ih =>
    obtain ⟨n, src, html, rfl⟩ := hf c List.mem_cons_self
    obtain ⟨q₁, q₂, rfl, rfl, hq₂⟩ := hq.split_frame hnonce hsource
    obtain ⟨hq₁, hqrest⟩ := (linksOnly_append ..).mp hq
    rw [linksOnly_prepend] at hqrest
    rw [constructs_append, constructs_prepend] at hnumbered
    have hfront := hq₁.isProse hnonce (fun c hc => hnumbered c (List.mem_append_left _ hc)) hplain.1
    have hback := ih (fun c hc => hf c (List.mem_cons_of_mem _ hc)) hplain.2 hqrest
      (fun c hc => hnumbered c (List.mem_append_right _ hc)) hq₂
    have hmasked : (q₁ ++ q₂.prepend (Construct.fence (blockToken nonce n) src html).masked).masked =
        q₁.masked ++ "\n\n".toList ++ (blockToken nonce n ++ "\n\n".toList) ++ q₂.masked := by
      simp [Construct.masked]
    rw [hmasked]
    exact .fence hfront n hback

end Segments

/-- Does a piece of a body hold no markup, raw fences aside? -/
def IsProsePiece : Piece Region → Prop
  | .plain p => IsProse p
  | .found (.raw _ _) => True
  | .found (.code s) => IsProse s

lemma plain_fenced (nonce : Text) {n : ℕ} {ps : List (Piece Region)} (h : ∀ p ∈ ps, IsProsePiece p) :
    (fenced nonce n ps).Plain := by
  induction ps generalizing n with
  | nil => simp [fenced, Segments.Plain, IsProse]
  | cons p ps ih =>
    have hp := h p List.mem_cons_self
    have hps : ∀ n, (fenced nonce n ps).Plain := fun n =>
      @ih n fun p hp => h p (List.mem_cons_of_mem _ hp)
    rcases p with p | ⟨source, html⟩ | s
    · exact Segments.plain_prepend hp (hps n)
    · exact ⟨by simp [IsProse], hps (n + 1)⟩
    · exact Segments.plain_prepend hp (hps n)

lemma fenced_append (nonce : Text) (n : ℕ) (ps qs : List (Piece Region)) :
    fenced nonce n (ps ++ qs) =
      fenced nonce n ps ++ fenced nonce (n + (fenced nonce n ps).constructs.length) qs := by
  induction ps generalizing n with
  | nil => simp [fenced, Segments.last_append, Segments.constructs]
  | cons p ps ih =>
    rcases p with p | ⟨source, html⟩ | s
    · simp [fenced, ih, Segments.prepend_append]
    · simp [fenced, ih, Segments.constructs, Segments.step_append, Nat.add_assoc, Nat.add_comm 1]
    · simp [fenced, ih, Segments.prepend_append]

/-- A fence among the pieces of a text is read somewhere. -/
lemma exists_rawAt?_of_mem {t source html : Text}
    (h : .found (.raw source html) ∈ Text.pieces Region.find t) :
    ∃ before after, Region.rawAt? before (source ++ after) = some (.raw source html) := by
  obtain ⟨before, after, size, hfind⟩ := (Text.located_pieces Region.find_exact t).find_of_mem h
  obtain ⟨r, hr, heq⟩ := Option.map_eq_some_iff.mp hfind
  obtain rfl : r = .raw source html := congrArg Text.Hit.value heq
  exact ⟨before, after, Region.rawAt?_of_at? hr⟩

/-- A fence opens with colons. -/
lemma colon_mem_of_fence {t source html : Text}
    (h : .found (.raw source html) ∈ Text.pieces Region.find t) : ':' ∈ t := by
  obtain ⟨before, after, hfence⟩ := exists_rawAt?_of_mem h
  obtain ⟨opening, body, closing, rest, -, hcolon, -, -, hraw⟩ := Region.rawAt?_some hfence
  obtain ⟨rfl, -⟩ : source = opening ++ body ++ closing ∧ _ := by simpa using hraw
  rw [← Text.sourceOf_pieces Region.find_exact t]
  refine List.mem_flatMap.mpr ⟨_, h, ?_⟩
  exact List.mem_append_left _ (List.mem_append_left _ hcolon)

section Fence

variable {body source html : Text} {front back : List (Piece Region)}
  (h : Text.pieces Region.find body = front ++ .found (.raw source html) :: back)

/-- The number of a fence behind some pieces of a body. -/
def fenceNumber (body : Text) (front : List (Piece Region)) : ℕ :=
  (fenced (nonceOf body) 0 front).constructs.length

include h

lemma fenceCut_eq : fenceCut body = fenced (nonceOf body) 0 front ++
    Segments.step [] (.fence (blockToken (nonceOf body) (fenceNumber body front)) source html)
      (fenced (nonceOf body) (fenceNumber body front + 1) back) := by
  rw [fenceCut, h, fenced_append, Nat.zero_add]
  rfl

/-- A fence has an entry of its own in the table. -/
lemma lookup_fence : (protect body).2.entries.lookup
    (blockToken (nonceOf body) (fenceNumber body front)) = some html := by
  rw [protect_eq]
  refine lookup_of_mem ?_ ?_
  · simpa [extend, Construct.entry, Function.comp_def] using tokens_nodup body
  · have hmem : Construct.fence (blockToken (nonceOf body) (fenceNumber body front)) source html ∈
        (fenceCut body).constructs := by
      rw [fenceCut_eq h, Segments.constructs_append]
      exact List.mem_append_right _ List.mem_cons_self
    exact List.mem_map_of_mem (List.mem_append_left _ hmem)

/-- The token of a fence behind prose stands behind prose in the masked body. -/
lemma exists_prosaic_front (hfront : ∀ p ∈ front, IsProsePiece p) :
    ∃ u rest, Prosaic (nonceOf body) u ∧ (protect body).1 = u ++ "\n\n".toList ++
      (blockToken (nonceOf body) (fenceNumber body front) ++ rest) := by
  have hsource : (linkCut body).source = (fenced (nonceOf body) 0 front).masked ++
      ((Construct.fence (blockToken (nonceOf body) (fenceNumber body front)) source html).masked ++
        (fenced (nonceOf body) (fenceNumber body front + 1) back).masked) := by
    rw [linkCut, source_prose, Text.sourceOf_pieces Region.find_exact, fenceCut_eq h,
      Segments.masked_append]
    rfl
  obtain ⟨q₁, q₂, hcut, hq₁, -⟩ := (linksOnly_linkCut body).split_frame nonceOf_mem hsource
  have hlinks := linksOnly_linkCut body
  have hnumbered := numbered_of_mem body
  rw [hcut] at hlinks hnumbered
  rw [Segments.constructs_append] at hnumbered
  have hprosaic : Prosaic (nonceOf body) q₁.masked :=
    Segments.prosaic_masked nonceOf_mem (fencesOnly_fenced _ _ _) (plain_fenced _ hfront)
      ((Segments.linksOnly_append ..).mp hlinks).1
      (fun c hc => hnumbered c (List.mem_append_right _ (List.mem_append_left _ hc))) hq₁
  refine ⟨q₁.masked, "\n\n".toList ++ q₂.masked, hprosaic, ?_⟩
  rw [protect_eq, hcut, Segments.masked_append, Segments.masked_prepend]
  simp [Construct.masked]

end Fence

end Sitewright.RawTable
