import Sitewright.Proofs.Directive
import Sitewright.Proofs.Masking
import Sitewright.Proofs.RegionFork

/-!
What a body is read as once its directives are replaced by listings. A listing is written as a raw fence;
whether it is read as one depends on the lines around it, on its own lines, and on the ticks in front of it.
-/
namespace Sitewright.Directive

open Text (Piece Quiet Scanned atLineEnd atLineStart breakAtLine sourceOf)
open Region (Forked SameEdge find_eq_some find_of_forked quiet_of_forked rawAt? rawAt?_of rawClose? spanAt? spanAt?_of_quiet)

/-- The raw fence that a listing is written as. -/
def fenceOf (html : Text) : Region := .raw (":::html\n".toList ++ html ++ "\n:::".toList) html

/-- A body with its scan, and the pieces that are left of it once the text of each directive is replaced
by the fence of a listing. If `lines` holds, each directive stands on lines of its own. -/
inductive Spliced (lines : Prop) : Text → Text → List (Piece Region) → Prop
  | last {before t} (hquiet : Quiet Region.find before t []) : Spliced lines before t [.plain t]
  | region {before q r body ps} (hquiet : Quiet Region.find before q (r.source ++ body))
      (hfind : Region.find (q.reverse ++ before) (r.source ++ body) = some ⟨r, r.source.length⟩)
      (h : Spliced lines (r.source.reverse ++ (q.reverse ++ before)) body ps) :
      Spliced lines before (q ++ (r.source ++ body)) (.plain q :: .found r :: ps)
  | listing {before q d body ps} (html : Text) (hquiet : Quiet Region.find before q (d ++ body))
      (hd : IsDirective d) (hlines : lines → atLineStart (q.reverse ++ before) = true ∧ atLineEnd body = true)
      (h : Spliced lines (d.reverse ++ (q.reverse ++ before)) body ps) :
      Spliced lines before (q ++ (d ++ body)) (.plain q :: .found (fenceOf html) :: ps)

lemma IsDirective.head {d : Text} (h : IsDirective d) : ∃ tail, d = ':' :: tail := by
  obtain ⟨tail, rfl⟩ := h.lead_prefix
  exact ⟨_, rfl⟩

/-- Where the body ends a line, it does so with its directives replaced. -/
lemma Spliced.atLineEnd_eq {lines : Prop} {before body : Text} {ps : List (Piece Region)}
    (h : Spliced lines before body ps) : atLineEnd (sourceOf Region.source ps) = atLineEnd body := by
  cases h with
  | last hquiet => rw [sourceOf, List.flatMap_singleton, Piece.source]
  | @region before q r body ps hquiet hfind h =>
    obtain ⟨c, cs, hsource⟩ := List.exists_cons_of_ne_nil (Region.find_exact _ _ _ hfind).2.1
    cases q with
    | nil => rw [Text.sourceOf_cons, Text.sourceOf_cons, Piece.source, Piece.source, hsource]; rfl
    | cons c q => rfl
  | @listing before q d body ps html hquiet hd hlines h =>
    obtain ⟨tail, rfl⟩ := hd.head
    cases q with
    | nil => rfl
    | cons c q => rfl

/-- Every raw fence stands on lines of its own and holds no line that closes it, and no code span starts in
the prose between the regions. -/
def Intact (before : Text) : List (Piece Region) → Prop
  | [] => True
  | .plain q :: ps =>
    (∀ u v, q = u ++ v → v ≠ [] → spanAt? (v ++ sourceOf Region.source ps) = none) ∧
      Intact (q.reverse ++ before) ps
  | .found (.raw src html) :: ps =>
    (atLineStart before = true ∧ atLineEnd (sourceOf Region.source ps) = true ∧
      breakAtLine rawClose? true html = none) ∧ Intact (src.reverse ++ before) ps
  | .found (.code src) :: ps => Intact (src.reverse ++ before) ps

lemma Intact.tail {before : Text} {r : Region} {ps : List (Piece Region)}
    (h : Intact before (.found r :: ps)) : Intact (r.source.reverse ++ before) ps := by
  cases r with
  | raw src html => exact h.2
  | code src => exact h

lemma IsDirective.reverse_head {d : Text} (h : IsDirective d) : ∃ c tail, d.reverse = c :: tail ∧ c ≠ '\n' := by
  obtain ⟨u, blanks, rfl, -, -, hblanks⟩ := h.close_suffix
  rcases List.eq_nil_or_concat' blanks with rfl | ⟨blanks, c, rfl⟩
  · exact ⟨':', _, by simp only [List.append_nil, List.reverse_append]; rfl, by decide⟩
  · refine ⟨c, _, by simp only [List.reverse_append, List.reverse_singleton]; rfl, ?_⟩
    rintro rfl
    exact absurd (hblanks '\n' (by simp)) (by decide)

lemma sameEdge_listing {before before' d html : Text} (hd : IsDirective d) :
    SameEdge (d.reverse ++ before) ((fenceOf html).source.reverse ++ before') := by
  obtain ⟨c, tail, hreverse, hc⟩ := hd.reverse_head
  have hfence : (fenceOf html).source.reverse =
      ':' :: (":::html\n".toList ++ html ++ "\n::".toList).reverse := by
    rw [fenceOf, Region.source, show "\n:::".toList = "\n::".toList ++ [':'] from rfl, ← List.append_assoc,
      List.reverse_append]
    rfl
  rw [hreverse, hfence]
  exact SameEdge.of_not_start _ _ hc (by decide)

section Scan

variable {before before' : Text} {lines : Prop}

/-- A directive on lines of its own and a listing in its place begin alike; the last line of the directive would
close a fence. -/
lemma forked_listing {d body : Text} (html rest : Text) (hd : IsDirective d) (hstart : atLineStart before = true)
    (hend : atLineEnd body = true) : Forked before (d ++ body) ((fenceOf html).source ++ rest) := by
  obtain ⟨u, blanks, hsplit, hu, -, hblanks⟩ := hd.close_suffix
  obtain ⟨tail, rfl⟩ := hd.head
  refine .fork [] hstart ?_ (.inl rfl)
  have hclose : rawClose? (close ++ blanks ++ body) = some (close ++ blanks) :=
    Region.rawClose?_eq_some.mpr ⟨blanks, body, rfl, rfl, hblanks, hend⟩
  have hlines : ':' :: tail ++ body = u ++ (close ++ blanks ++ body) := by rw [hsplit, List.append_assoc]
  refine (congrArg (fun t => (breakAtLine rawClose? true t).isSome) hlines).trans (Text.breakAtLine_isSome hu ?_)
  rw [hclose]
  rfl

lemma Spliced.forked {body : Text} {ps : List (Piece Region)} (h : Spliced lines before body ps)
    (hedge : SameEdge before before') (hps : Intact before' ps) :
    Forked before body (sourceOf Region.source ps) := by
  induction h generalizing before' with
  | @last before t hquiet =>
    have hsource : sourceOf Region.source [.plain t] = t := by simp [sourceOf, Piece.source]
    rw [hsource]
    exact .same t
  | @region before q r body ps hquiet hfind h ih =>
    exact (ih ((hedge.append q.reverse).append r.source.reverse) hps.2.tail).prepend.prepend
  | @listing before q d body ps html hquiet hd hlines h ih =>
    obtain ⟨-, ⟨hstart, hend, -⟩, -⟩ := hps
    rw [h.atLineEnd_eq] at hend
    exact (forked_listing html _ hd ((hedge.append q.reverse).start.trans hstart) hend).prepend

/-- A listing is read as its fence. -/
lemma at?_fenceOf {html rest : Text} (hstart : atLineStart before = true)
    (hhtml : breakAtLine rawClose? true html = none) (hend : atLineEnd rest = true) :
    Region.at? before ((fenceOf html).source ++ rest) = some (fenceOf html) := by
  have hraw : rawAt? before ((":::html\n".toList ++ (html ++ ['\n']) ++ ":::".toList) ++ rest) =
      some (.raw (":::html\n".toList ++ (html ++ ['\n']) ++ ":::".toList)
        (Region.dropLastFeed (html ++ ['\n']))) := by
    refine rawAt?_of hstart (Region.rawOpen?_eq_some.mpr ⟨[], rfl, rfl, by simp⟩) ?_
    refine Text.breakAtLine_eq_some.mpr ⟨.inr ⟨html, rfl⟩, ?_, fun u v huv hv hu => ?_⟩
    · exact Region.rawClose?_eq_some.mpr ⟨[], rest, rfl, rfl, by simp, hend⟩
    · obtain ⟨w, rfl⟩ : ∃ w, v = w ++ ['\n'] := by
        have hline : Text.EndsLine true (html ++ ['\n']) := .inr ⟨html, rfl⟩
        rw [huv] at hline
        exact hline.of_append.resolve_left fun hnil => hv hnil.1
      rw [← List.append_assoc] at huv
      obtain ⟨rfl, -⟩ := List.append_inj' huv rfl
      rw [List.append_assoc]
      exact (Region.rawClose?_lineLocal w _).trans (Text.breakAtLine_eq_none.mp hhtml u w rfl hu)
  have hsource : ":::html\n".toList ++ (html ++ ['\n']) ++ ":::".toList = (fenceOf html).source := by
    simp only [fenceOf, Region.source, List.append_assoc]
    rfl
  rw [Region.dropLastFeed_feed, hsource] at hraw
  rw [Region.at?, hraw]
  rfl

/-- A body whose directives are replaced is read as it was, with the listings as raw fences, if nothing in
it disturbs them. -/
lemma Spliced.scanned {body : Text} {ps : List (Piece Region)} (h : Spliced lines before body ps)
    (hedge : SameEdge before before') (hps : Intact before' ps) :
    Scanned Region.find Region.source before' ps := by
  -- the two texts differ on both sides of a place: in front of it they have one edge, behind it they fork later
  induction h generalizing before' with
  | @last before t hquiet =>
    refine .last (quiet_of_forked hquiet (hedge.joint _) (.same []) ?_)
    simpa [sourceOf] using hps.1
  | @region before q r body ps hquiet hfind h ih =>
    have hedge' := (hedge.append q.reverse).append r.source.reverse
    have hfork := h.forked hedge' hps.2.tail
    exact .step (quiet_of_forked hquiet (hedge.joint _) hfork.prepend hps.1)
      (find_of_forked hfind ((hedge.append q.reverse).joint _) hfork) (ih hedge' hps.2.tail)
  | @listing before q d body ps html hquiet hd hlines h ih =>
    obtain ⟨hspan, ⟨hstart, hend, hhtml⟩, htail⟩ := hps
    have hbody := h.atLineEnd_eq ▸ hend
    have hstart' := (hedge.append q.reverse).start.trans hstart
    have hfork := forked_listing html (sourceOf Region.source ps) hd hstart' hbody
    refine .step (quiet_of_forked hquiet (hedge.joint _) hfork hspan) ?_ (ih (sameEdge_listing hd) htail)
    exact find_eq_some.mpr (at?_fenceOf hstart hhtml hend)

/-- In what a scan cuts a text into nothing disturbs the raw fences. -/
lemma intact_of_scanned {ps : List (Piece Region)} (h : Scanned Region.find Region.source before ps) :
    Intact before ps := by
  induction h with
  | last hquiet => exact ⟨spanAt?_of_quiet hquiet, trivial⟩
  | @step before t r ps hquiet hfind hps ih =>
    refine ⟨spanAt?_of_quiet hquiet, ?_⟩
    cases r with
    | code src => exact ih
    | raw src html =>
      have hraw := Region.rawAt?_of_at? (find_eq_some.mp hfind)
      obtain ⟨hstart, hend, -⟩ := Region.rawAt?_lines (r := .raw src html) hraw
      exact ⟨⟨hstart, hend, Region.rawAt?_html hraw⟩, ih⟩

end Scan

/-- The rest of a stretch behind a text, cut at its directives. -/
inductive Cut : Text → Text → List (Piece Directive) → Prop
  | last (x t : Text) : Cut x t [.plain t]
  | step {x q d rest : Text} (v : Directive) {ps} (hd : IsDirective d) (hstart : Text.EndsLine true (x ++ q))
      (hend : atLineEnd rest = true) (h : Cut (x ++ (q ++ d)) rest ps) :
      Cut x (q ++ (d ++ rest)) (.plain q :: .found v :: ps)

lemma cut_piecesFrom (x t : Text) : Cut x t (Text.piecesFrom find x.reverse [] 0 t) := by
  induction h : t.length using Nat.strongRecOn generalizing x t with
  | _ n ih =>
    subst h
    rcases Text.piecesFrom_cases find x.reverse [] t with ⟨-, hpieces⟩ | ⟨u, c, cs, hit, rfl, -, hhit, hpieces⟩
    · rw [hpieces]
      exact .last x t
    · obtain ⟨hstart, d, rest, htext, hsize, hd, hend⟩ := find_some hhit
      obtain ⟨tail, rfl⟩ := hd.head
      rw [List.cons_append, List.cons.injEq] at htext
      obtain ⟨rfl, rfl⟩ := htext
      have hdrop : (tail ++ rest).drop (hit.size - 1) = rest := by
        rw [hsize, List.length_cons, Nat.add_sub_cancel, List.drop_left]
      have htake : ((tail ++ rest).take (hit.size - 1)).reverse ++ ':' :: (u.reverse ++ x.reverse) =
          (x ++ (u ++ ':' :: tail)).reverse := by
        rw [hsize, List.length_cons, Nat.add_sub_cancel, List.take_left]
        simp only [List.reverse_append, List.reverse_cons, List.append_assoc, List.cons_append, List.nil_append]
      rw [hpieces, Text.piecesFrom_skip, hdrop, htake]
      rw [← List.reverse_append, Text.atLineStart_reverse] at hstart
      refine Cut.step hit.value hd hstart hend (ih rest.length ?_ _ rest rfl)
      simp only [List.length_append, List.length_cons]
      omega

section Listed

variable (listing : Directive → Text)

/-- A piece of a stretch with the fence of its listing for a directive. -/
def listedPiece : Piece Directive → Piece Region
  | .plain q => .plain q
  | .found d => .found (fenceOf (listing d))

/-- The pieces of a piece of a body, with the fences of listings for the directives. -/
def listedFrom : Piece Region → List (Piece Region)
  | .plain p => (Text.pieces find p).map (listedPiece listing)
  | .found r => [.found r]

/-- The pieces of a body with the fences of listings for the directives. -/
def listedPieces (body : Text) : List (Piece Region) :=
  (Text.pieces Region.find body).flatMap (listedFrom listing)

variable {listing} {before : Text} {lines : Prop}

/-- Every directive of the pieces stands on lines of its own, behind a text as well. -/
def OnLines (front : Text) (ps : List (Piece Region)) : Prop := ∀ as p bs, ps = as ++ .plain p :: bs →
  Framed (front ++ sourceOf Region.source as) p (sourceOf Region.source bs)

lemma OnLines.tail {front t : Text} {r : Region} {ps : List (Piece Region)}
    (h : OnLines front (.plain t :: .found r :: ps)) : OnLines (front ++ (t ++ r.source)) ps := by
  rintro as p bs rfl
  have hframed := h (.plain t :: .found r :: as) p bs rfl
  simpa only [Text.sourceOf_cons, Piece.source, List.append_assoc] using hframed

/-- What stands behind a stretch goes with its last piece. -/
lemma Cut.spliced {front x t after : Text} {dps : List (Piece Directive)} {ps : List (Piece Region)}
    (hcut : Cut x t dps) (hframed : lines → Framed front (x ++ t) after)
    (hquiet : Quiet Region.find (front ++ x).reverse t after) (hlast : ∀ u v, t = u ++ v →
      Quiet Region.find (front ++ (x ++ u)).reverse v after →
        Spliced lines (front ++ (x ++ u)).reverse (v ++ after) (.plain v :: ps)) :
    Spliced lines (front ++ x).reverse (t ++ after) (dps.map (listedPiece listing) ++ ps) := by
  -- `front` and `x ++ t` stay the same along the stretch, what is left of it gets shorter
  induction hcut with
  | last x t =>
    have hall := hlast [] t rfl
    rw [List.append_nil] at hall
    exact hall hquiet
  | @step x q d rest v dps hd hstart hend hcut ih =>
    have hbehind : (front ++ (x ++ (q ++ d))).reverse = d.reverse ++ (q.reverse ++ (front ++ x).reverse) := by
      simp only [List.reverse_append, List.append_assoc]
    rw [List.append_assoc, List.append_assoc]
    obtain ⟨hfront, hback⟩ := hquiet.split
    rw [List.append_assoc] at hfront
    refine .listing (listing v) hfront hd (fun hall => ?_) (hbehind ▸ ih ?_ ?_ ?_)
    · have hlines := hframed hall
      rw [← List.append_assoc] at hlines
      obtain ⟨hstart', hend'⟩ := hlines.lines hd hstart hend
      refine ⟨?_, hend'⟩
      rwa [← List.reverse_append, List.append_assoc, Text.atLineStart_reverse]
    · intro hall
      have hlines := hframed hall
      simpa only [List.append_assoc] using hlines
    · rw [hbehind]
      exact hback.split.2
    · intro u w huw hw
      have hrest := hlast (q ++ (d ++ u)) w (by rw [huw]; simp only [List.append_assoc])
      simp only [List.append_assoc] at hrest hw ⊢
      exact hrest hw

lemma spliced_listedFrom {ps : List (Piece Region)} (h : Scanned Region.find Region.source before ps)
    (hlines : lines → OnLines before.reverse ps) :
    Spliced lines before (sourceOf Region.source ps) (ps.flatMap (listedFrom listing)) := by
  induction h with
  | @last before t hquiet =>
    have hcut : Spliced lines (before.reverse ++ []).reverse (t ++ [])
        ((Text.pieces find t).map (listedPiece listing) ++ []) := by
      refine (cut_piecesFrom [] t).spliced (fun hall => ?_) ?_ fun u v _ hv => ?_
      · simpa [sourceOf] using hlines hall [] t [] rfl
      · simpa using hquiet
      · rw [List.append_nil]
        exact .last hv
    simpa [sourceOf, Piece.source, listedFrom] using hcut
  | @step before t r ps hquiet hfind hps ih =>
    have hrest := ih fun hall => by
      simpa only [List.reverse_append, List.reverse_reverse, List.append_assoc] using (hlines hall).tail
    have hcut : Spliced lines (before.reverse ++ []).reverse (t ++ (r.source ++ sourceOf Region.source ps))
        ((Text.pieces find t).map (listedPiece listing) ++ .found r :: ps.flatMap (listedFrom listing)) := by
      refine (cut_piecesFrom [] t).spliced (fun hall => ?_) ?_ fun u v huv hv => ?_
      · simpa [sourceOf, Piece.source] using hlines hall [] t (.found r :: ps) rfl
      · simpa using hquiet
      · have hbehind : v.reverse ++ (before.reverse ++ ([] ++ u)).reverse = t.reverse ++ before := by
          rw [huv]
          simp
        exact .region hv (by rwa [hbehind]) (by rwa [hbehind])
    simpa [Piece.source, listedFrom] using hcut

lemma spliced_listedPieces (listing : Directive → Text) (body : Text) (lines : Prop)
    (h : lines → OnLines [] (Text.pieces Region.find body)) :
    Spliced lines [] body (listedPieces listing body) := by
  obtain ⟨hsource, hscanned⟩ :=
    (Text.pieces_eq_iff Region.find_exact).mp (rfl : Text.pieces Region.find body = _)
  have hspliced : Spliced lines [] (sourceOf Region.source (Text.pieces Region.find body))
      (listedPieces listing body) := spliced_listedFrom hscanned h
  rwa [hsource] at hspliced

/-- The text in which the listings stand for the directives is read as the body with raw fences for them
exactly when nothing in it disturbs the fences. -/
theorem pieces_listed_iff (listing : Directive → Text) (body : Text) :
    Text.pieces Region.find (sourceOf Region.source (listedPieces listing body)) = listedPieces listing body ↔
      Intact [] (listedPieces listing body) := by
  rw [Text.pieces_eq_iff Region.find_exact]
  constructor
  · exact fun h => intact_of_scanned h.2
  · exact fun h => ⟨rfl, (spliced_listedPieces listing body False False.elim).scanned (SameEdge.refl []) h⟩

end Listed

end Sitewright.Directive
