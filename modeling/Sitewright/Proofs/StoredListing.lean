import Sitewright.Proofs.ChildListing
import Sitewright.Proofs.Expansion
import Sitewright.Proofs.Placeholder

/-!
Listings in the table of raw HTML. A listing that replaces a directive is stored whole if the text around
it leaves its fence alone and no text of a page in it has a line that closes the fence; a listing with such
a line is never stored.
-/
namespace Sitewright

open Text (Piece atLineEnd atLineStart breakAtLine sourceOf)
open Region (SameEdge find_eq_some rawClose? spanAt?)

namespace RawTable

/-- The HTML of a raw fence has no line that closes one. -/
lemma breaks_of_lookup {body html : Text} {n : ℕ}
    (h : (protect body).2.entries.lookup (blockToken (nonceOf body) n) = some html) :
    breakAtLine rawClose? true html = none := by
  obtain ⟨token, source, before, after, hmatches, -⟩ := exists_fence_of_lookup h
  exact Region.rawAt?_html hmatches

end RawTable

namespace Child

/-- Sorting children neither adds any nor leaves any out. -/
lemma mem_sort {mode : Option Text} {children : List Child} {c : Child} :
    c ∈ sort mode children ↔ c ∈ children := by
  have hdated : ∀ le, c ∈ sortDated le children ↔ c ∈ children := by
    intro le
    rw [sortDated, List.mem_append, List.mem_mergeSort, List.mem_filter, List.mem_filter, List.mem_mergeSort]
    cases c.date <;> simp
  unfold sort
  split
  · exact List.mem_mergeSort
  · split
    · exact hdated _
    · split
      · exact hdated _
      · exact List.mem_mergeSort

end Child

namespace Directive

section Listing

variable (children : List Child) (mode : Option Text)

/-- The listing that a directive stands for. -/
def listing (d : Directive) : Text := Child.markup (Child.sort (d.mode? <|> mode) children)

lemma expand_builtin (d : Directive) : expand Component.builtin children mode d =
    .ok (fenceOf (listing children mode d)).source := by
  rw [expand, Child.listing_builtin]
  rfl

lemma sourceOf_map_listedPiece (listing : Directive → Text) (ps : List (Piece Directive)) :
    sourceOf Region.source (ps.map (listedPiece listing)) =
      sourceOf (fun d => (fenceOf (listing d)).source) ps := by
  rw [sourceOf, List.flatMap_map]
  exact List.flatMap_congr fun p _ => by cases p <;> rfl

/-- Every directive in a plain stretch is replaced by its listing, and all else is copied. -/
lemma expandAll_builtin (body : Text) : expandAll Component.builtin children mode body =
    .ok (sourceOf Region.source (listedPieces (listing children mode) body)) := by
  rw [expandAll, editOutsideCodeM,
    mapM_eq_ok (g := fun p => sourceOf Region.source (listedFrom (listing children mode) p))]
  · rw [listedPieces, sourceOf, List.flatMap_assoc]
    rfl
  · rintro (t | r) -
    · rw [listedFrom, sourceOf_map_listedPiece, ← Text.substitute_eq_sourceOf]
      exact Text.substituteM_eq_ok fun d _ => expand_builtin children mode d
    · rw [listedFrom, sourceOf, List.flatMap_singleton]
      rfl

variable {children mode}

/-- A listing has a line that closes a fence exactly when a text of one of its pages has one within. -/
lemma listing_breaks_iff (d : Directive) : breakAtLine rawClose? true (listing children mode d) = none ↔
    ∀ c ∈ children, ∀ t ∈ c.shownTexts, ¬ HoldsClose t := by
  rw [listing, Child.markup_breaks_iff]
  simp only [Child.mem_sort]

end Listing

/-- Listings of the children leave the body around them as it is read, and are left whole by it. -/
structure Harmless (children : List Child) (body : Text) : Prop where
  /-- Every directive stands on lines of its own. -/
  lines : OnLines [] (Text.pieces Region.find body)
  /-- No tick stands outside code. -/
  ticks : ∀ p ∈ stretches body, '`' ∉ p
  /-- No text of a child has a line that closes a fence. -/
  texts : ∀ c ∈ children, ∀ t ∈ c.shownTexts, ¬ HoldsClose t

lemma spanAt?_of_not_mem {t after : Text} (ht : '`' ∉ t) (hne : t ≠ []) : spanAt? (t ++ after) = none := by
  cases hspan : spanAt? (t ++ after) with
  | none => rfl
  | some r =>
    obtain ⟨ticks, c, cs, heq, hticks, hall, -⟩ := Region.spanAt?_some hspan
    obtain ⟨d, ds, rfl⟩ := List.exists_cons_of_ne_nil hne
    obtain ⟨e, es, rfl⟩ := List.exists_cons_of_ne_nil hticks
    obtain ⟨rfl, -⟩ := List.cons.inj heq
    exact absurd (hall d List.mem_cons_self ▸ List.mem_cons_self) ht

/-- A piece without ticks outside code, and without a line that closes a fence inside one. -/
def Calm : Piece Region → Prop
  | .plain q => '`' ∉ q
  | .found (.raw _ html) => breakAtLine rawClose? true html = none
  | .found (.code _) => True

/-- Directives on lines of their own and calm pieces leave fences intact. -/
lemma Spliced.intact {before before' body : Text} {ps : List (Piece Region)} (h : Spliced True before body ps)
    (hedge : SameEdge before before') (hcalm : ∀ p ∈ ps, Calm p) : Intact before' ps := by
  have hspan : ∀ q after : Text, '`' ∉ q → ∀ u v, q = u ++ v → v ≠ [] → spanAt? (v ++ after) = none := by
    rintro _ after hq u v rfl hv
    exact spanAt?_of_not_mem (fun hm => hq (List.mem_append_right u hm)) hv
  induction h generalizing before' with
  | @last before t hquiet => exact ⟨hspan t _ (hcalm (.plain t) List.mem_cons_self), trivial⟩
  | @region before q r body ps hquiet hfind h ih =>
    obtain ⟨hq, hr, hps⟩ : Calm (.plain q) ∧ Calm (.found r) ∧ ∀ p ∈ ps, Calm p := by
      simpa only [List.forall_mem_cons] using hcalm
    have hedge' := hedge.append q.reverse
    have hrest := ih (hedge'.append r.source.reverse) hps
    refine ⟨hspan q _ hq, ?_⟩
    cases r with
    | code src => exact hrest
    | raw src html =>
      have hraw := Region.rawAt?_of_at? (find_eq_some.mp hfind)
      obtain ⟨hstart, hend, -⟩ := Region.rawAt?_lines (r := .raw src html) hraw
      exact ⟨⟨hedge'.start ▸ hstart, h.atLineEnd_eq.trans hend, hr⟩, hrest⟩
  | @listing before q d body ps html hquiet hd hlines h ih =>
    obtain ⟨hq, hfence, hps⟩ : Calm (.plain q) ∧ Calm (.found (fenceOf html)) ∧ ∀ p ∈ ps, Calm p := by
      simpa only [List.forall_mem_cons] using hcalm
    obtain ⟨hstart, hend⟩ := hlines trivial
    have hstart' := (hedge.append q.reverse).start ▸ hstart
    exact ⟨hspan q _ hq, ⟨hstart', h.atLineEnd_eq.trans hend, hfence⟩, ih (sameEdge_listing hd) hps⟩

/-- The plain pieces of a stretch hold no character that the stretch does not hold. -/
lemma Cut.subset {x t q : Text} {dps : List (Piece Directive)} (h : Cut x t dps) (hq : .plain q ∈ dps) :
    q ⊆ t := by
  induction h with
  | last x t =>
    obtain rfl : q = t := by simpa using hq
    exact List.Subset.refl _
  | @step x u d rest v dps hd hstart hend h ih =>
    simp only [List.mem_cons, Piece.plain.injEq, reduceCtorEq, false_or] at hq
    rcases hq with rfl | hq
    · exact List.subset_append_left _ _
    · exact fun c hc => List.mem_append_right u (List.mem_append_right d (ih hq hc))

lemma calm_listedPieces {children : List Child} {body : Text} (h : Harmless children body)
    (mode : Option Text) : ∀ p ∈ listedPieces (listing children mode) body, Calm p := by
  intro p hp
  obtain ⟨piece, hpiece, hp⟩ := List.mem_flatMap.mp hp
  cases piece with
  | plain t =>
    obtain ⟨_ | d, hq, rfl⟩ := List.mem_map.mp hp
    · exact fun htick => h.ticks t (mem_stretches.mpr hpiece) ((cut_piecesFrom [] t).subset hq htick)
    · exact (listing_breaks_iff d).mpr h.texts
  | found r =>
    obtain rfl := List.mem_singleton.mp hp
    cases r with
    | code src => trivial
    | raw src html =>
      obtain ⟨before, after, hfence⟩ := RawTable.exists_rawAt?_of_mem hpiece
      exact Region.rawAt?_html hfence

lemma Harmless.intact {children : List Child} {body : Text} (h : Harmless children body) (mode : Option Text) :
    Intact [] (listedPieces (listing children mode) body) := by
  have hspliced := spliced_listedPieces (listing children mode) body True fun _ => h.lines
  exact hspliced.intact (SameEdge.refl []) (calm_listedPieces h mode)

/-- Directives are replaced by raw fences of their listings. The fences are read as such exactly when nothing
around them disturbs them, which harmless children never do in a body; the HTML of each is then stored under
a token of its own. A listing of a child with a line that closes a fence is never stored. -/
theorem expandAll_protect (children : List Child) (mode : Option Text) (body : Text) :
    ∃ expanded, expandAll Component.builtin children mode body = .ok expanded ∧
      expanded = sourceOf Region.source (listedPieces (listing children mode) body) ∧
      (Text.pieces Region.find expanded = listedPieces (listing children mode) body ↔
        Intact [] (listedPieces (listing children mode) body)) ∧
      (Harmless children body → Intact [] (listedPieces (listing children mode) body)) ∧
      (Intact [] (listedPieces (listing children mode) body) → ∀ front html back,
        listedPieces (listing children mode) body = front ++ .found (fenceOf html) :: back →
        (RawTable.protect expanded).2.entries.lookup (RawTable.blockToken (RawTable.nonceOf expanded)
          (RawTable.fenceNumber expanded front)) = some html) ∧
      ((∃ c ∈ children, ∃ t ∈ c.shownTexts, HoldsClose t) → ∀ d n,
        (RawTable.protect expanded).2.entries.lookup (RawTable.blockToken (RawTable.nonceOf expanded) n) ≠
          some (listing children mode d)) := by
  have hpieces := pieces_listed_iff (listing children mode) body
  refine ⟨_, expandAll_builtin children mode body, rfl, hpieces, fun h => h.intact mode, ?_, ?_⟩
  · intro hintact front html back hsplit
    exact RawTable.lookup_fence ((hpieces.mpr hintact).trans hsplit)
  · rintro ⟨c, hc, t, ht, hholds⟩ d n hlookup
    exact (listing_breaks_iff d).mp (RawTable.breaks_of_lookup hlookup) c hc t ht hholds

/-- A child whose texts look like a fence and like code, within their lines. -/
def tickedChild : Child where
  title := "The `:::html` fence".toList
  url := "docs/fence/".toList
  description := "::: and ```".toList

lemma listedPieces_belowCode (listing : Directive → Text) : listedPieces listing belowCode =
    [.plain "Read ".toList, .found (.code "`x`".toList), .plain ".\n\n".toList] ++
      .found (fenceOf (listing ⟨[]⟩)) :: [.plain "\n".toList] := by
  rw [listedPieces, pieces_belowCode]
  rfl

lemma harmless_belowCode : Harmless [tickedChild] belowCode := by
  refine ⟨fun as p bs h => ?_, ?_, ?_⟩
  · obtain ⟨hread, hbelow⟩ := framed_belowCode ([] ++ sourceOf Region.source as) (sourceOf Region.source bs)
    rw [pieces_belowCode] at h
    rcases as with _ | ⟨_, _ | ⟨_, _ | ⟨_, _⟩⟩⟩
    · obtain ⟨hp, -⟩ := List.cons.inj h
      obtain rfl := Piece.plain.inj hp
      exact hread
    · obtain ⟨hp, -⟩ := List.cons.inj (List.cons.inj h).2
      cases hp
    · obtain ⟨hp, rfl⟩ := List.cons.inj (List.cons.inj (List.cons.inj h).2).2
      obtain rfl := Piece.plain.inj hp
      exact hbelow
    · simp at h
  · rw [stretches, pieces_belowCode]
    decide
  · intro c hc t ht
    obtain rfl := List.mem_singleton.mp hc
    refine not_holdsClose_of_line ?_
    revert ht
    revert t
    decide

theorem expandAll_protect_belowCode : Harmless [tickedChild] belowCode ∧ ∃ expanded token,
    expandAll Component.builtin [tickedChild] none belowCode = .ok expanded ∧
    (RawTable.protect expanded).2.entries.lookup token = some (listing [tickedChild] none ⟨[]⟩) := by
  obtain ⟨expanded, hexpanded, -, -, hintact, hstored, -⟩ := expandAll_protect [tickedChild] none belowCode
  have hlookup := hstored (hintact harmless_belowCode) _ _ _ (listedPieces_belowCode _)
  exact ⟨harmless_belowCode, expanded, _, hexpanded, hlookup⟩

end Directive

end Sitewright
