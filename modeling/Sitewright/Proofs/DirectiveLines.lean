import Sitewright.Proofs.Expansion

/-!
The lines of directives. What is replaced begins and ends with a line of its stretch of the body; these are
lines of the body too, except next to a code span, where a stretch may begin or end inside a line.
-/
namespace Sitewright

open Text (EndsLine Piece atLineEnd atLineStart pieces sourceOf)

namespace Region

/-- Code that starts inside a line is a code span. -/
lemma spanAt?_of_inside {before after : Text} {r : Region} (hbefore : atLineStart before = false)
    (h : at? before after = some r) : spanAt? after = some r := by
  have hraw : rawAt? before after = none := by
    rw [rawAt?, hbefore, if_neg Bool.false_ne_true]
  have hfenced : fencedAt? before after = none := by
    rw [fencedAt?, hbefore, if_neg Bool.false_ne_true]
  have hindented : indentedAt? before after = none := by
    have hblank : behindBlankLine before = false := by
      cases before with
      | nil => cases hbefore
      | cons c before =>
        have hc : decide (c = '\n') = false := hbefore
        rw [behindBlankLine_cons, hc, Bool.false_and]
    rw [indentedAt?_eq, hblank, Bool.false_and, if_neg Bool.false_ne_true]
  rw [at?, hraw, hfenced, hindented] at h
  exact h

/-- Indented code ends with a line, or with the text. -/
lemma indentedAt?_lineEnd {before rest : Text} {r : Region} (h : indentedAt? before (r.source ++ rest) = some r)
    (hline : ¬ EndsLine true r.source) : rest = [] := by
  rw [indentedAt?_eq, Option.ite_none_right_eq_some] at h
  have hcode : indentedLines true (r.source ++ rest) = r.source := by
    have := congrArg source (Option.some.inj h.2)
    rwa [source] at this
  obtain ⟨rest₀, hrest₀, hend⟩ := indentedLines_some true (r.source ++ rest)
  rw [hcode] at hrest₀ hend
  obtain rfl := List.append_cancel_left hrest₀
  rcases hend with rfl | ⟨hnil, -⟩ | hlast
  · rfl
  · exact absurd (.inl ⟨hnil, rfl⟩) hline
  · exact absurd (.inr ⟨_, (List.dropLast_append_getLast? _ hlast).symm⟩) hline

/-- Code behind which a line goes on is a code span. -/
lemma spanAt?_of_goesOn {before rest : Text} {r : Region} (h : at? before (r.source ++ rest) = some r)
    (hrest : atLineEnd rest = false) (hline : ¬ EndsLine true r.source) :
    spanAt? (r.source ++ rest) = some r := by
  have hgoes : ¬ atLineEnd rest = true := by rw [hrest]; decide
  simp only [at?, Option.orElse_eq_orElse, Option.orElse_eq_or, Option.or_eq_some_iff] at h
  rcases h with hraw | ⟨-, hfenced | ⟨-, hindented | ⟨-, hspan⟩⟩⟩
  · exact absurd (rawAt?_lines hraw).2.1 hgoes
  · exact absurd (fencedAt?_lineEnd hfenced) hgoes
  · exact absurd (congrArg atLineEnd (indentedAt?_lineEnd hindented hline)) hgoes
  · exact hspan

/-- A code span ends in a tick. -/
lemma spanAt?_last {r : Region} {t : Text} (h : spanAt? t = some r) : ∃ w, r = .code (w ++ ['`']) := by
  obtain ⟨ticks, c, cs, rfl, hne, hticks, hc⟩ := spanAt?_some h
  rw [spanAt?_cons hne hticks hc, Option.ite_none_left_eq_some] at h
  obtain ⟨rest, hrest, rfl⟩ := Option.map_eq_some_iff.mp h.2
  have hlength : ticks.length ≠ 0 := fun hzero => hne (List.length_eq_zero_iff.mp hzero)
  obtain ⟨w, rfl⟩ := exists_tick_of_spanRest? hlength (Ne.symm hlength) hrest
  exact ⟨ticks ++ c :: w, congrArg code (List.append_assoc ticks (c :: w) ['`']).symm⟩

/-- A code span starts with a tick. -/
lemma spanAt?_head {r : Region} {t : Text} (h : spanAt? t = some r) : ∃ cs, t = '`' :: cs := by
  obtain ⟨ticks, c, cs, rfl, hne, hticks, -⟩ := spanAt?_some h
  obtain ⟨d, ds, rfl⟩ := List.exists_cons_of_ne_nil hne
  exact ⟨ds ++ c :: cs, by rw [hticks d List.mem_cons_self]; rfl⟩

/-- Where a region stands among the pieces of a text, it is read. -/
lemma at?_of_located {front back : List (Piece Region)} {r : Region}
    (h : Text.Located find source [] (front ++ .found r :: back)) :
    at? (sourceOf source front).reverse (r.source ++ sourceOf source back) = some r := by
  obtain ⟨size, hfind⟩ := h.find_at
  rw [List.append_nil] at hfind
  obtain ⟨r', hat, heq⟩ := Option.map_eq_some_iff.mp hfind
  obtain rfl : r' = r := congrArg Text.Hit.value heq
  exact hat

end Region

namespace Directive

section Blocks

/-- What a piece of a body is cut into: a stretch at its directives. -/
def blocksOf : Piece Region → List (Piece (Text × Directive))
  | .plain p => pieces find.withSource p
  | .found r => [.plain r.source]

/-- A body cut at the blocks that listings are put in place of, each with its text and what it says. -/
def blocks (body : Text) : List (Piece (Text × Directive)) := (pieces Region.find body).flatMap blocksOf

lemma exact_find : find.withSource.Exact Prod.fst := by
  refine Text.Finder.exact_withSource fun before after hit h => ?_
  obtain ⟨-, d, rest, rfl, hsize, hd, -⟩ := find_some h
  rw [hsize, List.length_append]
  exact ⟨fun hnil => hd.ne_nil (List.length_eq_zero_iff.mp hnil), Nat.le_add_right _ _⟩

lemma sourceOf_blocksOf (p : Piece Region) : sourceOf Prod.fst (blocksOf p) = p.source Region.source := by
  cases p with
  | plain t => exact Text.sourceOf_pieces exact_find t
  | found r => exact List.append_nil _

lemma sourceOf_flatMap_blocksOf (ps : List (Piece Region)) :
    sourceOf Prod.fst (ps.flatMap blocksOf) = sourceOf Region.source ps := by
  induction ps with
  | nil => rfl
  | cons p ps ih =>
    rw [List.flatMap_cons, Text.sourceOf_append, sourceOf_blocksOf, ih, Text.sourceOf_cons]

/-- A block lies in one of the stretches. -/
lemma stretch_of_block {ps : List (Piece Region)} {b : Text × Directive} {front back : List (Piece (Text × Directive))}
    (h : ps.flatMap blocksOf = front ++ .found b :: back) : ∃ as p bs qs rs, ps = as ++ .plain p :: bs ∧
      pieces find.withSource p = qs ++ .found b :: rs ∧ front = as.flatMap blocksOf ++ qs ∧
      back = rs ++ bs.flatMap blocksOf := by
  induction ps generalizing front with
  | nil => simp at h
  | cons a ps ih =>
    rw [List.flatMap_cons, List.append_eq_append_iff] at h
    rcases h with ⟨rest, rfl, hrest⟩ | ⟨inner, ha, hback⟩
    · obtain ⟨as, p, bs, qs, rs, rfl, hp, rfl, rfl⟩ := ih hrest
      exact ⟨a :: as, p, bs, qs, rs, rfl, hp, by simp, rfl⟩
    · cases inner with
      | nil =>
        have hnil : ps.flatMap blocksOf = [] ++ .found b :: back := hback.symm
        obtain ⟨as, p, bs, qs, rs, rfl, hp, hqs, rfl⟩ := ih hnil
        obtain ⟨has, rfl⟩ := List.append_eq_nil_iff.mp hqs.symm
        refine ⟨a :: as, p, bs, [], rs, rfl, hp, ?_, rfl⟩
        rw [List.flatMap_cons, has, ha]
        simp
      | cons x rs =>
        obtain ⟨rfl, rfl⟩ := List.cons.inj hback
        cases a with
        | plain p => exact ⟨[], p, ps, front, rs, rfl, ha, rfl, rfl⟩
        | found r =>
          have hmem : Piece.found b ∈ blocksOf (.found r) := ha ▸ List.mem_append_right front List.mem_cons_self
          cases List.mem_singleton.mp hmem

section Expanding

variable (components : Components) (children : List Child) (mode : Option Text)

/-- What is written for a piece of a body that is cut at its blocks. -/
def expandPiece : Piece (Text × Directive) → Except ComponentError Text
  | .plain t => .ok t
  | .found b => expand components children mode b.2

lemma substituteM_eq_blocks (t : Text) : Text.substituteM find (expand components children mode) t = do
    let parts ← (pieces find.withSource t).mapM (expandPiece components children mode)
    return parts.flatten := by
  rw [Text.substituteM, ← Text.map_pieces_withSource, List.mapM_map]
  refine congrArg (fun write => List.mapM write (pieces find.withSource t) >>= fun parts => pure parts.flatten) ?_
  funext q
  cases q <;> rfl

/-- Listings are put in place of the blocks, and all else stays. -/
lemma expandAll_eq_blocks (body : Text) : expandAll components children mode body = do
    let parts ← (blocks body).mapM (expandPiece components children mode)
    return parts.flatten := by
  rw [expandAll, editOutsideCodeM, blocks]
  induction pieces Region.find body with
  | nil => rfl
  | cons p ps ih =>
    rw [List.mapM_cons, List.flatMap_cons, List.mapM_append]
    generalize (List.mapM _ ps : Except ComponentError _) = parts at ih ⊢
    generalize (List.mapM _ (ps.flatMap blocksOf) : Except ComponentError _) = parts' at ih ⊢
    have htail : ∀ t : Text, (do let rest ← parts; pure (t ++ rest.flatten)) =
        (do let rest ← parts'; pure (t ++ rest.flatten) : Except ComponentError Text) := fun t => by
      have hmap := congrArg (Functor.map (t ++ ·)) ih
      simpa only [map_bind, map_pure] using hmap
    cases p with
    | plain t =>
      simp only [substituteM_eq_blocks, blocksOf, bind_assoc, pure_bind, List.flatten_cons, List.flatten_append,
        htail]
    | found r =>
      have hsource : (blocksOf (.found r)).mapM (expandPiece components children mode) = pure [r.source] := rfl
      have hok : (.ok r.source : Except ComponentError Text) = pure r.source := rfl
      simp only [hsource, hok, bind_assoc, pure_bind, List.flatten_cons, List.flatten_append, List.flatten_nil,
        List.append_nil, htail]

end Expanding

lemma block_lines {p : Text} {b : Text × Directive} {qs rs : List (Piece (Text × Directive))}
    (h : pieces find.withSource p = qs ++ .found b :: rs) :
    IsDirective b.1 ∧ EndsLine true (sourceOf Prod.fst qs) ∧ atLineEnd (sourceOf Prod.fst rs) = true := by
  obtain ⟨size, hfind⟩ := (h ▸ Text.located_pieces exact_find p).find_at
  rw [List.append_nil] at hfind
  obtain ⟨hit, hhit, heq⟩ := Option.map_eq_some_iff.mp hfind
  obtain ⟨hstart, d, rest, hafter, hsize, hd, hend⟩ := find_some hhit
  have hb : b.1 = d := by
    rw [← congrArg (fun hit => hit.value.1) heq, hafter, hsize]
    exact List.take_left
  rw [hb] at hafter ⊢
  obtain rfl := List.append_cancel_left hafter
  exact ⟨hd, Text.atLineStart_reverse.mp hstart, hend⟩

/-- A code span ends at a place, in front of which stands the one text and behind which the other. -/
def BehindSpan (front back : Text) : Prop := ∃ before span, front = before ++ span ∧
  Region.at? before.reverse (span ++ back) = some (.code span) ∧ Region.spanAt? (span ++ back) = some (.code span)

/-- A code span starts at a place. -/
def BeforeSpan (front back : Text) : Prop := ∃ span rest, back = span ++ rest ∧
  Region.at? front.reverse back = some (.code span) ∧ Region.spanAt? back = some (.code span)

lemma BehindSpan.inside {front back : Text} (h : BehindSpan front back) : ¬ EndsLine true front := by
  obtain ⟨before, span, rfl, -, hspan⟩ := h
  obtain ⟨w, hw⟩ := Region.spanAt?_last hspan
  obtain rfl := Region.code.inj hw
  rintro (⟨hnil, -⟩ | ⟨u, hu⟩)
  · simp at hnil
  · rw [← List.append_assoc] at hu
    cases (List.append_inj' hu rfl).2

lemma BeforeSpan.inside {front back : Text} (h : BeforeSpan front back) : atLineEnd back = false := by
  obtain ⟨span, rest, -, -, hspan⟩ := h
  obtain ⟨cs, rfl⟩ := Region.spanAt?_head hspan
  rfl

section Stretch

variable {as bs : List (Piece Region)} {p d y : Text}

/-- A directive starts a line of the body, or a code span ends in front of its stretch. -/
lemma behindSpan {x : Text} (hlocated : Text.Located Region.find Region.source [] (as ++ .plain p :: bs))
    (halternating : Text.Alternating (as ++ .plain p :: bs)) (hp : p = x ++ (d ++ y)) (hd : IsDirective d)
    (hx : EndsLine true x) (hfront : ¬ EndsLine true (sourceOf Region.source as ++ x)) :
    BehindSpan (sourceOf Region.source as ++ x) (d ++ (y ++ sourceOf Region.source bs)) := by
  have hxnil : x = [] := by
    by_contra hne
    exact hfront (hx.append fun hnil => absurd hnil hne)
  subst hxnil
  rw [List.append_nil] at hfront ⊢
  obtain ⟨rfl | ⟨lead, r, rfl⟩, -⟩ := halternating.around
  · exact absurd (.inl ⟨rfl, rfl⟩) hfront
  · rw [List.append_assoc] at hlocated
    have hat : Region.at? (sourceOf Region.source lead).reverse
        (r.source ++ sourceOf Region.source (.plain p :: bs)) = some r := Region.at?_of_located hlocated
    have hback : sourceOf Region.source (.plain p :: bs) = d ++ (y ++ sourceOf Region.source bs) := by
      rw [Text.sourceOf_cons, hp, Piece.source, List.nil_append, List.append_assoc]
    have hsource : sourceOf Region.source (lead ++ [.found r]) = sourceOf Region.source lead ++ r.source := by
      rw [Text.sourceOf_append, Text.sourceOf_cons]
      exact congrArg (sourceOf Region.source lead ++ ·) (List.append_nil _)
    rw [hback] at hat
    rw [hsource] at hfront ⊢
    have hgoes : atLineEnd (d ++ (y ++ sourceOf Region.source bs)) = false := by
      obtain ⟨tail, rfl⟩ := hd.head
      rfl
    have hline : ¬ EndsLine true r.source := fun hline =>
      hfront (hline.append fun hnil => absurd hnil (Region.at?_read hat).1)
    have hspan := Region.spanAt?_of_goesOn hat hgoes hline
    obtain ⟨w, rfl⟩ := Region.spanAt?_last hspan
    exact ⟨_, _, rfl, hat, hspan⟩

/-- A directive ends a line of the body, or a code span starts behind its stretch. -/
lemma beforeSpan {x : Text} (hlocated : Text.Located Region.find Region.source [] (as ++ .plain p :: bs))
    (halternating : Text.Alternating (as ++ .plain p :: bs)) (hp : p = x ++ (d ++ y)) (hd : IsDirective d)
    (hy : atLineEnd y = true) (hback : atLineEnd (y ++ sourceOf Region.source bs) = false) :
    BeforeSpan (sourceOf Region.source as ++ (x ++ d)) (y ++ sourceOf Region.source bs) := by
  have hynil : y = [] := by
    by_contra hne
    rw [Text.atLineEnd_append hy fun hnil => absurd hnil hne] at hback
    cases hback
  subst hynil
  rw [List.nil_append] at hback ⊢
  obtain ⟨-, rfl | ⟨r, trail, rfl⟩⟩ := halternating.around
  · cases hback
  · rw [List.append_cons] at hlocated
    have hat := Region.at?_of_located hlocated
    have hfront : sourceOf Region.source (as ++ [.plain p]) = sourceOf Region.source as ++ (x ++ d) := by
      rw [Text.sourceOf_append, Text.sourceOf_cons, hp, List.append_nil]
      exact congrArg (sourceOf Region.source as ++ ·) (List.append_nil _)
    rw [hfront] at hat
    have hstart : atLineStart (sourceOf Region.source as ++ (x ++ d)).reverse = false := by
      obtain ⟨c, tail, hreverse, hc⟩ := hd.reverse_head
      rw [List.reverse_append, List.reverse_append, hreverse]
      exact decide_eq_false hc
    have hspan := Region.spanAt?_of_inside hstart hat
    obtain ⟨w, rfl⟩ := Region.spanAt?_last hspan
    exact ⟨_, _, rfl, hat, hspan⟩

end Stretch

/-- A listing is put in place of each directive of a body that is found, and of nothing else. A directive
starts with a line of the body unless it stands right behind a code span, and it ends with one unless it
stands right in front of a code span. -/
theorem blocks_lines (body : Text) :
    sourceOf Prod.fst (blocks body) = body ∧
    (∀ components children mode, expandAll components children mode body = do
      let parts ← (blocks body).mapM (expandPiece components children mode)
      return parts.flatten) ∧
    ∀ front b back, blocks body = front ++ .found b :: back →
      IsDirective b.1 ∧
      (¬ EndsLine true (sourceOf Prod.fst front) ↔
        BehindSpan (sourceOf Prod.fst front) (b.1 ++ sourceOf Prod.fst back)) ∧
      (atLineEnd (sourceOf Prod.fst back) = false ↔
        BeforeSpan (sourceOf Prod.fst front ++ b.1) (sourceOf Prod.fst back)) := by
  refine ⟨?_, fun components children mode => expandAll_eq_blocks components children mode body, ?_⟩
  · rw [blocks, sourceOf_flatMap_blocksOf, Text.sourceOf_pieces Region.find_exact]
  · intro front b back h
    obtain ⟨as, p, bs, qs, rs, hps, hp, rfl, rfl⟩ := stretch_of_block h
    obtain ⟨hd, hx, hy⟩ := block_lines hp
    have hlocated := hps ▸ Text.located_pieces Region.find_exact body
    have halternating := hps ▸ Text.alternating_pieces Region.find body
    have hstretch : p = sourceOf Prod.fst qs ++ (b.1 ++ sourceOf Prod.fst rs) := by
      have hsource := Text.sourceOf_pieces exact_find p
      rw [hp, Text.sourceOf_append, Text.sourceOf_cons] at hsource
      exact hsource.symm
    simp only [Text.sourceOf_append, sourceOf_flatMap_blocksOf]
    refine ⟨hd, ⟨behindSpan hlocated halternating hstretch hd hx, BehindSpan.inside⟩, ?_, BeforeSpan.inside⟩
    rw [List.append_assoc]
    exact beforeSpan hlocated halternating hstretch hd hy

/-- In the middle of a line, behind a code span. -/
example : (blocks "a `x`:::children\n:::".toList).map (Piece.map Prod.fst) =
    [.plain "a ".toList, .plain "`x`".toList, .plain [], .found ":::children\n:::".toList, .plain []] := by
  rfl

end Blocks

end Directive
end Sitewright
