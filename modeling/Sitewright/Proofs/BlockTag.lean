import Sitewright.Proofs.CodeToken
import Sitewright.Proofs.KeptRun
import Sitewright.Proofs.Labelling

/-!
Highlighted blocks in what is done to a page. The tag of a block may hold further text; nothing that is
replaced in a page starts inside the tag or reaches into it, so each edit goes on anew at every tag.
-/
namespace Sitewright

namespace Text

variable {α : Type}

section Joining

lemma Alternating.addPlain {ps : List (Piece α)} (h : Alternating ps) (u : Text) : Alternating (addPlain u ps) := by
  cases h with
  | last t => exact .last _
  | step t v h => exact .step _ v h

/-- Pieces with one plain stretch on both sides of every construct. -/
def joined : List (Piece α) → List (Piece α)
  | [] => [.plain []]
  | .plain t :: ps => addPlain t (joined ps)
  | .found v :: ps => .plain [] :: .found v :: joined ps

lemma alternating_joined (ps : List (Piece α)) : Alternating (joined ps) := by
  induction ps with
  | nil => exact .last []
  | cons p ps ih =>
    cases p with
    | plain t => exact ih.addPlain t
    | found v => exact .step [] v ih

@[simp] lemma sourceOf_joined (write : α → Text) (ps : List (Piece α)) :
    sourceOf write (joined ps) = sourceOf write ps := by
  induction ps with
  | nil => rfl
  | cons p ps ih =>
    cases p with
    | plain t => rw [joined, sourceOf_addPlain, ih, sourceOf_cons, Piece.source]
    | found v => rw [joined, sourceOf_cons, sourceOf_cons, ih, sourceOf_cons, Piece.source, List.nil_append]

@[simp] lemma constructs_joined (ps : List (Piece α)) : constructs (joined ps) = constructs ps := by
  induction ps with
  | nil => rfl
  | cons p ps ih =>
    cases p with
    | plain t => exact (constructs_addPlain t (joined ps)).trans ih
    | found v => exact congrArg (v :: ·) ih

end Joining

section Splitting

variable {find : Finder α} {write : α → Text} (hlocal : find.Local)
include hlocal

/-- A text is edited part by part if what is found in the first part is found there without the rest. -/
lemma substitute_append {p r : Text} (hsame : ∀ u v, p = u ++ v → v ≠ [] → find [] (v ++ r) = find [] v)
    (hsize : ∀ u v hit, p = u ++ v → find [] v = some hit → hit.size ≤ v.length) :
    substitute find write (p ++ r) = substitute find write p ++ substitute find write r := by
  induction hlen : p.length using Nat.strongRecOn generalizing p with
  | _ n ih =>
    cases p with
    | nil => rfl
    | cons c cs =>
      have hdrop : ∀ k ≤ cs.length, substitute find write ((cs ++ r).drop k) =
          substitute find write (cs.drop k) ++ substitute find write r := by
        intro k hk
        have hback : c :: cs = (c :: cs.take k) ++ cs.drop k := by
          rw [List.cons_append, List.take_append_drop]
        rw [List.drop_append_of_le_length hk]
        refine ih (cs.drop k).length ?_ (fun u v huv hv => ?_) (fun u v hit huv hhit => ?_) rfl
        · rw [← hlen, List.length_drop, List.length_cons]
          omega
        · exact hsame (c :: cs.take k ++ u) v (by rw [hback, huv, List.append_assoc]) hv
        · exact hsize (c :: cs.take k ++ u) v hit (by rw [hback, huv, List.append_assoc]) hhit
      have hhead : find [] (c :: (cs ++ r)) = find [] (c :: cs) := hsame [] (c :: cs) rfl (List.cons_ne_nil c cs)
      rw [List.cons_append]
      cases hfind : find [] (c :: cs) with
      | none =>
        rw [substitute_none hlocal hfind, substitute_none hlocal (hhead.trans hfind)]
        exact congrArg (c :: ·) (hdrop 0 (Nat.zero_le _))
      | some hit =>
        have hle := hsize [] (c :: cs) hit rfl hfind
        rw [List.length_cons] at hle
        rw [substitute_cons hlocal hfind, substitute_cons hlocal (hhead.trans hfind),
          hdrop (hit.size - 1) (by omega), List.append_assoc]

end Splitting

/-- Replacing a text is editing at the places where it is found. -/
lemma replace_eq_substitute {old : Text} (hold : old ≠ []) (new t : Text) :
    replace old new t = substitute (findLiteral old) (fun _ => new) t := by
  have hrun : ∀ before plain skip, sourceOf (fun _ => new) (piecesFrom (findLiteral old) before plain skip t) =
      plain.reverse ++ replaceFrom old new skip t := by
    induction t with
    | nil =>
      intro before plain skip
      cases skip <;> exact congrArg (plain.reverse ++ ·) rfl
    | cons c cs ih =>
      intro before plain skip
      cases skip with
      | succ skip => exact ih _ _ _
      | zero =>
        rw [piecesFrom, findLiteral_eq hold, replaceFrom]
        cases old.isPrefixOf (c :: cs) with
        | true =>
          have hrest : sourceOf (fun _ => new) (piecesFrom (findLiteral old) (c :: before) [] (old.length - 1) cs) =
              replaceFrom old new (old.length - 1) cs := ih (c :: before) [] (old.length - 1)
          simp only [if_true, sourceOf_cons, Piece.source, hrest]
        | false => simpa using ih (c :: before) (c :: plain) 0
  rw [replace, if_neg (by simpa using hold), substitute_eq_sourceOf]
  exact (hrun [] [] 0).symm

/-- A word whose first character alone may be the given one is not found across it either. -/
lemma isPrefixOf?_cut_tail {w t : Text} {d : Char} (hw : d ∉ w.tail) (ht : t ≠ []) (s : Text) :
    w.isPrefixOf? (t ++ d :: s) = (w.isPrefixOf? t).map (· ++ d :: s) := by
  obtain ⟨c, cs, rfl⟩ := List.exists_cons_of_ne_nil ht
  cases w with
  | nil => rfl
  | cons a w =>
    rw [List.cons_append, List.isPrefixOf?, List.isPrefixOf?]
    split
    · exact isPrefixOf?_cut hw cs s
    · rfl

lemma isPrefixOf_cut_tail {w t : Text} {d : Char} (hw : d ∉ w.tail) (ht : t ≠ []) (s : Text) :
    w.isPrefixOf (t ++ d :: s) = w.isPrefixOf t := by
  rw [← List.isSome_isPrefixOf?_eq_isPrefixOf, ← List.isSome_isPrefixOf?_eq_isPrefixOf,
    isPrefixOf?_cut_tail hw ht, Option.isSome_map]

lemma isPrefixOf_cut {w : Text} {d : Char} (hw : d ∉ w) (t s : Text) :
    w.isPrefixOf (t ++ d :: s) = w.isPrefixOf t := by
  rw [← List.isSome_isPrefixOf?_eq_isPrefixOf, ← List.isSome_isPrefixOf?_eq_isPrefixOf,
    isPrefixOf?_cut hw, Option.isSome_map]

end Text

namespace RawTable
open Text (isBlank isPrefixOf?_cut_tail isPrefixOf_cut isPrefixOf_cut_tail spanWhile_cut)

section Tokens

variable {nonce : Text}

lemma numberedAt?_cut {lead close t : Text} {d : Char} (hlead : d ∉ lead.tail) (hclose : d ∉ close)
    (hdigit : Text.isDigit d = false) (ht : t ≠ []) (s : Text) :
    numberedAt? lead close (t ++ d :: s) = numberedAt? lead close t := by
  rw [numberedAt?, numberedAt?, isPrefixOf?_cut_tail hlead ht]
  cases lead.isPrefixOf? t with
  | none => rfl
  | some rest =>
    rw [Option.map_some, Option.bind_some, Option.bind_some, spanWhile_cut hdigit]
    cases hdigits : (Text.spanWhile Text.isDigit rest).1 with
    | nil =>
      have hspan : Text.spanWhile Text.isDigit rest = ([], (Text.spanWhile Text.isDigit rest).2) := by
        rw [← hdigits]
      rw [hspan]
    | cons c digits =>
      have hspan : Text.spanWhile Text.isDigit rest = (c :: digits, (Text.spanWhile Text.isDigit rest).2) := by
        rw [← hdigits]
      rw [hspan]
      dsimp only
      rw [isPrefixOf_cut hclose]

lemma blockTokenAt?_tag (s : Text) : blockTokenAt? nonce ('<' :: 'd' :: s) = none := by
  have hlead : (blockLead nonce).isPrefixOf? ('<' :: 'd' :: s) = none := rfl
  rw [blockTokenAt?, numberedAt?, hlead, Option.bind_none]

variable (hnonce : '<' ∉ nonce)
include hnonce

lemma blockTokenAt?_cut (t s : Text) : blockTokenAt? nonce (t ++ '<' :: 'd' :: s) = blockTokenAt? nonce t := by
  by_cases ht : t = []
  · subst ht
    exact blockTokenAt?_tag s
  · have hlead : '<' ∉ (blockLead nonce).tail := by
      have htail : (blockLead nonce).tail = "!--flint-raw-".toList ++ nonce ++ ['-'] := rfl
      rw [htail, List.mem_append, List.mem_append]
      exact fun hmem => hmem.elim (fun hmem => hmem.elim (by decide) hnonce) (by decide)
    exact numberedAt?_cut hlead (by decide) (by decide) ht _

lemma inlineTokenAt?_cut {t : Text} (ht : t ≠ []) (s : Text) :
    inlineTokenAt? nonce (t ++ '<' :: s) = inlineTokenAt? nonce t := by
  have hlead : '<' ∉ (inlineLead nonce).tail := by
    have htail : (inlineLead nonce).tail = "lintraw".toList ++ nonce ++ ['i'] := rfl
    rw [htail, List.mem_append, List.mem_append]
    exact fun hmem => hmem.elim (fun hmem => hmem.elim (by decide) hnonce) (by decide)
  exact numberedAt?_cut hlead (by decide) (by decide) ht s

lemma paragraphAt?_cut {t : Text} (ht : t ≠ []) (s : Text) :
    paragraphAt? nonce (t ++ '<' :: 'd' :: s) = paragraphAt? nonce t := by
  rw [paragraphAt?, paragraphAt?, isPrefixOf?_cut_tail (by decide) ht]
  cases "<p>".toList.isPrefixOf? t with
  | none => rfl
  | some rest =>
    rw [Option.map_some, Option.bind_some, Option.bind_some, spanWhile_cut (by decide)]
    dsimp only
    rw [blockTokenAt?_cut hnonce]
    cases htoken : blockTokenAt? nonce (Text.spanWhile isBlank rest).2 with
    | none => rfl
    | some token =>
      have hle := (blockTokenAt?_some htoken).2.1.length_le
      rw [Option.bind_some, Option.bind_some, List.drop_append_of_le_length hle, spanWhile_cut (by decide)]
      dsimp only
      have hclose : ∀ r : Text, "</p>".toList.isPrefixOf (r ++ '<' :: 'd' :: s) = "</p>".toList.isPrefixOf r := by
        intro r
        by_cases hr : r = []
        · subst hr
          rfl
        · exact isPrefixOf_cut_tail (by decide) hr _
      rw [hclose]

/-- No token is found across the tag of a block. -/
lemma findToken_cut {t : Text} (ht : t ≠ []) (s : Text) :
    findToken nonce [] (t ++ '<' :: 'd' :: s) = findToken nonce [] t := by
  rw [findToken, findToken, paragraphAt?_cut hnonce ht, blockTokenAt?_cut hnonce, inlineTokenAt?_cut hnonce ht]

end Tokens

end RawTable

namespace Fence
open Markdown (Mark.ampersand Mark.opening)
open Text (Alternating Piece Trimmed constructs sourceOf)

/-- The tag of a highlighted block with a further text in it. -/
def tagAnd (x : Text) : Text := tagLead ++ x ++ ['>']

lemma tagAnd_nil : tagAnd [] = highlightTag := by
  rw [tagAnd, List.append_nil, highlightTag_eq]

/-- A page is cut at a tag of a highlighted block whatever stands around the tag. -/
lemma pieces_tag (t rest : Text) : Text.pieces findTag (t ++ (highlightTag ++ rest)) =
    Text.pieces findTag t ++ .found () :: Text.pieces findTag rest := by
  obtain ⟨hsource, hscanned⟩ := (Text.pieces_eq_iff exact_findTag).mp (rfl : Text.pieces findTag t = _)
  obtain ⟨hsource', hscanned'⟩ := (Text.pieces_eq_iff exact_findTag).mp (rfl : Text.pieces findTag rest = _)
  obtain ⟨more, hmore⟩ : ∃ more, highlightTag ++ rest = '<' :: more := ⟨_, rfl⟩
  refine (Text.pieces_eq_iff exact_findTag).mpr
    ⟨?_, hscanned.append exact_findTag (fun b u hu => ?_) (fun b => ?_) (fun b => ?_)⟩
  · rw [Text.sourceOf_append, Text.sourceOf_cons, hsource, hsource', Piece.source]
  · rw [hsource', hmore, findTag, Text.findLiteral_eq (by decide), Text.findLiteral_eq (by decide),
      Text.isPrefixOf_cut_tail (by decide) hu]
  · rw [hsource', findTag, Text.findLiteral_eq (by decide),
      if_pos (List.isPrefixOf_iff_prefix.mpr ⟨rest, rfl⟩)]
  · exact hscanned'.anywhere fun _ _ _ => rfl

/-- A text that nothing in a page is told by. -/
def Inert (x : Text) : Prop := ∀ c ∈ x, c ∉ ['<', 'f', Mark.opening]

lemma inert_nil : Inert [] := fun _ hc => absurd hc List.not_mem_nil

lemma tagAnd_eq (x : Text) : ∃ rest, tagAnd x = '<' :: 'd' :: rest ∧ (Inert x → Inert ('d' :: rest)) := by
  refine ⟨"iv class=\"codehilite\"".toList ++ x ++ ['>'], rfl, fun hx c hc => ?_⟩
  have hframe : ∀ c ∈ 'd' :: "iv class=\"codehilite\"".toList ++ ['>'], c ∉ ['<', 'f', Mark.opening] :=
    Text.forall_of_all (by decide)
  rcases List.mem_cons.mp hc with rfl | hc
  · exact hframe _ List.mem_cons_self
  · rcases List.mem_append.mp hc with hc | hc
    · rcases List.mem_append.mp hc with hc | hc
      · exact hframe c (List.mem_append_left _ (List.mem_cons_of_mem _ hc))
      · exact hx c hc
    · exact hframe c (List.mem_append_right _ hc)

/-- What ends a tag starts with the tag, or with a character that nothing is told by. -/
lemma tagAnd_suffix {x u v : Text} (hx : Inert x) (h : tagAnd x = u ++ v) (hv : v ≠ []) :
    u = [] ∧ v = tagAnd x ∨ ∃ c cs, v = c :: cs ∧ c ∉ ['<', 'f', Mark.opening] := by
  obtain ⟨rest, htag, hrest⟩ := tagAnd_eq x
  cases u with
  | nil => exact .inl ⟨rfl, h.symm⟩
  | cons d u =>
    obtain ⟨c, cs, rfl⟩ := List.exists_cons_of_ne_nil hv
    rw [htag] at h
    refine .inr ⟨c, cs, rfl, hrest hx c ?_⟩
    rw [(List.cons.inj h).2]
    simp

/-- An edit of a page that goes on anew at every tag of a highlighted block. -/
def Splits (f : Text → Text) : Prop :=
  ∀ x, Inert x → ∀ p q, f (p ++ (tagAnd x ++ q)) = f p ++ (tagAnd x ++ f q)

lemma Splits.comp {f g : Text → Text} (hf : Splits f) (hg : Splits g) : Splits fun t => f (g t) := by
  intro x hx p q
  dsimp only
  rw [hg x hx, hf x hx]

lemma splits_restore {table : RawTable} (hnonce : ∀ c ∈ table.nonce, c ∈ Digest.digits) :
    Splits table.restore := by
  intro x hx p q
  have hlocal := RawTable.findToken_local table.nonce
  unfold RawTable.restore
  split
  · rfl
  · rw [Text.substitute_append hlocal, Text.substitute_plain hlocal (tagAnd x) q]
    · intro u v hsplit hv
      rcases tagAnd_suffix hx hsplit hv with ⟨-, rfl⟩ | ⟨c, cs, rfl, hc⟩
      · obtain ⟨rest, htag, -⟩ := tagAnd_eq x
        have hparagraph : RawTable.paragraphAt? table.nonce ('<' :: 'd' :: (rest ++ q)) = none := rfl
        have hinline : RawTable.inlineTokenAt? table.nonce ('<' :: 'd' :: (rest ++ q)) = none := rfl
        rw [htag, List.cons_append, List.cons_append, RawTable.findToken, hparagraph,
          RawTable.blockTokenAt?_tag, hinline]
        rfl
      · simp only [List.mem_cons, not_or] at hc
        exact RawTable.findToken_none_of_head rfl ⟨hc.1, hc.2.1⟩
    · intro u v _ hv
      obtain ⟨rest, htag, -⟩ := tagAnd_eq x
      rw [htag]
      exact RawTable.findToken_cut (fun hmem => absurd (hnonce '<' hmem) (by decide)) hv (rest ++ q)
    · intro u v hit _ h
      obtain ⟨m, rest, rfl, hsize, -⟩ := RawTable.findToken_some hnonce h
      rw [hsize, List.length_append]
      exact Nat.le_add_right _ _

lemma splits_replace : Splits (Text.replace Mark.ampersand ['&']) := by
  intro x hx p q
  have hne : Mark.ampersand ≠ [] := List.cons_ne_nil _ _
  have hlocal : (Text.findLiteral Mark.ampersand).Local := fun _ _ _ => rfl
  simp only [Text.replace_eq_substitute hne]
  rw [Text.substitute_append hlocal, Text.substitute_plain hlocal (tagAnd x) q]
  · intro u v hsplit hv
    rw [Text.findLiteral_eq_none hne]
    have hhead : ∀ c cs, c ∉ [Mark.opening] → ¬ Mark.ampersand <+: c :: cs := by
      rintro c cs hc ⟨rest, hrest⟩
      exact hc (by simp [(List.cons.inj hrest).1])
    rcases tagAnd_suffix hx hsplit hv with ⟨-, rfl⟩ | ⟨c, cs, rfl, hc⟩
    · obtain ⟨rest, htag, -⟩ := tagAnd_eq x
      rw [htag]
      exact hhead _ _ (by decide)
    · simp only [List.mem_cons, not_or] at hc
      exact hhead _ _ (by simpa using hc.2.2.1)
  · intro u v _ _
    obtain ⟨rest, htag, -⟩ := tagAnd_eq x
    rw [htag, Text.findLiteral_eq hne, Text.findLiteral_eq hne, List.cons_append, Text.isPrefixOf_cut (by decide)]
  · intro u v hit _ h
    obtain ⟨hsize, -, hlead⟩ := Text.exact_findLiteral hne _ _ _ h
    rw [hsize]
    exact hlead.length_le

section Pieces

variable {α : Type}

/-- A page cut at the tags of highlighted blocks, with what is said about each block written into its tag. -/
def written (x : α → Text) (ps : List (Piece α)) : Text := sourceOf (fun v => tagAnd (x v)) ps

lemma written_step (x : α → Text) (t : Text) (v : α) (ps : List (Piece α)) :
    written x (.plain t :: .found v :: ps) = t ++ (tagAnd (x v) ++ written x ps) := rfl

/-- A piece whose plain text is edited. -/
def edited (f : Text → Text) : Piece α → Piece α
  | .plain t => .plain (f t)
  | .found v => .found v

/-- An edit is made in each stretch between tags. -/
lemma Splits.written_eq {f : Text → Text} (hf : Splits f) {ps : List (Piece α)} (hps : Alternating ps)
    {x : α → Text} (hx : ∀ v, Inert (x v)) : f (written x ps) = written x (ps.map (edited f)) := by
  induction hps with
  | last t =>
    have hlast : ∀ u, written x [.plain u] = u := fun u => List.append_nil u
    rw [hlast, List.map_singleton]
    exact (hlast (f t)).symm
  | step t v h ih =>
    rw [List.map_cons, List.map_cons, written_step, hf _ (hx v), ih]
    rfl

lemma alternating_edited (f : Text → Text) {ps : List (Piece α)} (hps : Alternating ps) :
    Alternating (ps.map (edited f)) := by
  induction hps with
  | last t => exact .last _
  | step t v h ih => exact .step _ v ih

lemma constructs_edited (f : Text → Text) (ps : List (Piece α)) : constructs (ps.map (edited f)) = constructs ps := by
  induction ps with
  | nil => rfl
  | cons p ps ih =>
    cases p with
    | plain t => exact ih
    | found v => exact congrArg (v :: ·) ih

lemma written_last (x : α → Text) (t : Text) : written x [.plain t] = t := List.append_nil t

lemma trimmed_tagAnd (x : Text) : tagAnd x ≠ [] ∧ Trimmed (tagAnd x) := by
  obtain ⟨rest, htag, -⟩ := tagAnd_eq x
  refine ⟨by rw [htag]; exact List.cons_ne_nil _ _, fun c hc => ?_, fun c hc => ?_⟩
  · rw [htag] at hc
    exact Option.some.inj hc ▸ rfl
  · rw [tagAnd, List.getLast?_concat] at hc
    exact Option.some.inj hc ▸ rfl

lemma exists_dropWhile_written {ps : List (Piece α)} (hps : Alternating ps) : ∃ ps', Alternating ps' ∧
    constructs ps' = constructs ps ∧ ∀ x, (written x ps).dropWhile Text.isBlank = written x ps' := by
  cases hps with
  | last t =>
    refine ⟨_, .last (t.dropWhile Text.isBlank), rfl, fun x => ?_⟩
    rw [written_last, written_last]
  | @step t v ps h =>
    refine ⟨_, .step (t.dropWhile Text.isBlank) v h, rfl, fun x => ?_⟩
    obtain ⟨hne, hhead, -⟩ := trimmed_tagAnd (x v)
    rw [written_step, Text.dropWhile_append_stop hne hhead, written_step]

lemma exists_dropEndWhile_written {ps : List (Piece α)} (hps : Alternating ps) : ∃ ps', Alternating ps' ∧
    constructs ps' = constructs ps ∧ ∀ x, Text.dropEndWhile Text.isBlank (written x ps) = written x ps' := by
  induction hps with
  | last t =>
    refine ⟨_, .last (Text.dropEndWhile Text.isBlank t), rfl, fun x => ?_⟩
    rw [written_last, written_last]
  | @step t v ps h ih =>
    obtain ⟨ps', hps', hconstructs, heq⟩ := ih
    refine ⟨_, .step t v hps', congrArg (v :: ·) hconstructs, fun x => ?_⟩
    obtain ⟨hne, -, hlast⟩ := trimmed_tagAnd (x v)
    rw [written_step, Text.dropEndWhile_append_stop hne hlast, heq, written_step]

/-- White space around a page is that around its pieces. -/
lemma exists_strip_written {ps : List (Piece α)} (hps : Alternating ps) : ∃ ps', Alternating ps' ∧
    constructs ps' = constructs ps ∧ ∀ x, Text.strip (written x ps) = written x ps' := by
  obtain ⟨front, hfront, hconstructs, heq⟩ := exists_dropWhile_written hps
  obtain ⟨ps', hps', hconstructs', heq'⟩ := exists_dropEndWhile_written hfront
  refine ⟨ps', hps', hconstructs'.trans hconstructs, fun x => ?_⟩
  rw [Text.strip, Text.trim, heq, heq']

end Pieces

end Fence

namespace Markdown.Kept
open Fence (Inert tagAnd written)
open Text (Piece constructs sourceOf)

variable {α : Type}

/-- Kept HTML: as it is, or the HTML of a highlighted block, of which the text behind its tag is given. -/
def opened (x : α → Text) : Option α × Text → Text
  | (none, html) => html
  | (some v, rest) => tagAnd (x v) ++ rest

lemma isBlock_tagAnd (x rest : Text) : isBlock (tagAnd x ++ rest) = true := rfl

lemma restore_tagAnd (kept : List Text) {x : Text} (hx : Inert x) (rest : Text) :
    restore kept (tagAnd x ++ rest) = tagAnd x ++ restore kept rest := by
  obtain ⟨more, htag, hmore⟩ := Fence.tagAnd_eq x
  have hsturdy : Sturdy (tagAnd x) := by
    rw [htag]
    refine sturdy_of_tag (by decide) fun d hd => ?_
    have hnot := hmore hx d hd
    simp only [List.mem_cons, not_or] at hnot
    exact ⟨hnot.1, hnot.2.2.1⟩
  exact restore_append fun u y hsplit hy => hsturdy.still u y rest hsplit hy

/-- Kept HTML put back in place of a mark, with what is kept before it. -/
lemma exists_restore_mark (kept : List (Option α × Text))
    (ih : ∀ n < kept.length, ∀ t, ∃ ps : List (Piece α),
      (∀ v ∈ constructs ps, ∃ rest, (some v, rest) ∈ kept.take n) ∧
      ∀ x, (∀ v, Inert (x v)) → restore ((kept.take n).map (opened x)) t = written x ps)
    (p : Placed) (mark : Text) : ∃ ps : List (Piece α), (∀ v ∈ constructs ps, ∃ rest, (some v, rest) ∈ kept) ∧
      ∀ x, (∀ v, Inert (x v)) → atMark (kept.map (opened x)) p mark = written x ps := by
  cases hentry : kept[p.number]? with
  | none =>
    refine ⟨[.plain mark], fun v hv => absurd hv List.not_mem_nil, fun x hx => ?_⟩
    rw [atMark, List.getElem?_map, hentry, Option.map_none]
    exact (List.append_nil mark).symm
  | some e =>
    obtain ⟨hn, -⟩ := List.getElem?_eq_some_iff.mp hentry
    obtain ⟨v?, html⟩ := e
    cases v? with
    | none =>
      obtain ⟨ps, hmem, heq⟩ := ih p.number hn (wrap p.wrapped html)
      refine ⟨ps, fun v hv => ?_, fun x hx => ?_⟩
      · obtain ⟨rest, hrest⟩ := hmem v hv
        exact ⟨rest, List.mem_of_mem_take hrest⟩
      · rw [atMark, List.getElem?_map, hentry, Option.map_some, ← List.map_take]
        exact heq x hx
    | some v =>
      obtain ⟨ps, hmem, heq⟩ := ih p.number hn html
      refine ⟨.found v :: ps, fun w hw => ?_, fun x hx => ?_⟩
      · rcases List.mem_cons.mp hw with rfl | hw
        · exact ⟨html, List.mem_of_getElem? hentry⟩
        · obtain ⟨rest, hrest⟩ := hmem w hw
          exact ⟨rest, List.mem_of_mem_take hrest⟩
      · rw [atMark, List.getElem?_map, hentry, Option.map_some, ← List.map_take]
        dsimp only [opened]
        rw [wrap, isBlock_tagAnd, Bool.not_true, Bool.and_false, if_neg Bool.false_ne_true,
          restore_tagAnd _ (hx v), heq x hx]
        rfl

/-- With the highlighted blocks among what is kept, a text is put back together around their tags. -/
theorem exists_restore (kept : List (Option α × Text)) (t : Text) : ∃ ps : List (Piece α),
    (∀ v ∈ constructs ps, ∃ rest, (some v, rest) ∈ kept) ∧
    ∀ x : α → Text, (∀ v, Inert (x v)) → restore (kept.map (opened x)) t = written x ps := by
  -- kept HTML refers only to what was kept before it, and the rest of a text is shorter
  induction hkept : kept.length using Nat.strongRecOn generalizing kept t with
  | _ m ihKept =>
    subst hkept
    induction ht : t.length using Nat.strongRecOn generalizing t with
    | _ n ih =>
      subst ht
      cases hplaced : placed? t with
      | none =>
        cases t with
        | nil => exact ⟨[], fun v hv => absurd hv List.not_mem_nil, fun x _ => restore_nil⟩
        | cons c cs =>
          obtain ⟨ps, hmem, heq⟩ := ih cs.length (Nat.lt_succ_self _) cs rfl
          refine ⟨.plain [c] :: ps, hmem, fun x hx => ?_⟩
          rw [restore_of_none hplaced, heq x hx]
          rfl
      | some p =>
        have hshorter : (t.drop p.size).length < t.length := by
          have hsize := placed?_size_ne_zero hplaced
          have ht : t ≠ [] := by
            rintro rfl
            cases hplaced
          have hpos := List.length_pos_iff.mpr ht
          rw [List.length_drop]
          omega
        obtain ⟨back, hback, hbackEq⟩ := ih _ hshorter (t.drop p.size) rfl
        obtain ⟨front, hfront, hfrontEq⟩ := exists_restore_mark kept
          (fun n hn t => ihKept _ (by rw [List.length_take]; omega) (kept.take n) t rfl) p (t.take p.size)
        refine ⟨front ++ back, fun v hv => ?_, fun x hx => ?_⟩
        · rw [Text.mem_constructs, List.mem_append, ← Text.mem_constructs, ← Text.mem_constructs] at hv
          exact hv.elim (hfront v) (hback v)
        · rw [restore_of_some hplaced, hfrontEq x hx, hbackEq x hx]
          exact (Text.sourceOf_append _ front back).symm

end Markdown.Kept

end Sitewright
