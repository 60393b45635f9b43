import Sitewright.Proofs.RegionLocal

/-!
Texts that differ from a line start on, where one of them has lines that the scan takes for a raw fence. In front of
that line both are read in the same way, but for code spans that reach beyond it.
-/
namespace Sitewright.Region

open Text (Quiet atLineStart breakAtLine breakAtLine_some)

section Fork

/-- The two texts are the same up to a line start, if not all the way. There the first one goes on with a colon
and has a line that closes a raw fence; the second one does not go on with code. -/
inductive Forked (before : Text) : Text → Text → Prop
  | same (t : Text) : Forked before t t
  | fork (x : Text) {d d' : Text} (hstart : atLineStart (x.reverse ++ before) = true)
      (hclose : (breakAtLine rawClose? true (':' :: d)).isSome = true)
      (hhead : d'.head? = some ':' ∨ d'.head? = some '\n') : Forked before (x ++ ':' :: d) (x ++ d')

namespace Forked

variable {before t t' : Text}

lemma prepend {u : Text} (h : Forked (u.reverse ++ before) t t') : Forked before (u ++ t) (u ++ t') := by
  cases h with
  | same t => exact .same _
  | fork x hstart hclose hhead =>
    rw [← List.append_assoc, ← List.append_assoc]
    refine .fork (u ++ x) ?_ hclose hhead
    rwa [List.reverse_append, List.append_assoc]

/-- What stands in front of a line start, if anything, ends a line. -/
lemma endsLine_of_start {x : Text} (h : atLineStart (x.reverse ++ before) = true) (hx : x ≠ []) :
    ∃ w, x = w ++ ['\n'] := by
  rcases List.eq_nil_or_concat' x with rfl | ⟨w, c, rfl⟩
  · exact absurd rfl hx
  · rw [List.reverse_append] at h
    obtain rfl : c = '\n' := of_decide_eq_true h
    exact ⟨w, rfl⟩

lemma sameStart (h : Forked before t t') : SameStart t t' := by
  cases h with
  | same t => exact ⟨id, id, id, id⟩
  | @fork x d d' hstart hclose hhead =>
    cases x with
    | nil =>
      refine ⟨nofun, nofun, fun _ htick => ?_, fun _ => ?_⟩
      · rw [List.nil_append] at htick
        rw [htick] at hhead
        exact absurd hhead (by decide)
      · rcases hhead with hhead | hhead <;> obtain ⟨tail, rfl⟩ := List.head?_eq_some_iff.mp hhead <;> rfl
    | cons c x =>
      refine ⟨nofun, id, id, fun hnone => ?_⟩
      obtain ⟨w, hw⟩ := endsLine_of_start hstart (List.cons_ne_nil c x)
      have hline : Text.EndsLine true (c :: x) := .inr ⟨w, hw⟩
      rw [startsIndented_append hline (List.cons_ne_nil c x)] at hnone ⊢
      exact hnone

lemma sameLine {u : Text} (hu : u ≠ []) (h : Forked (u.reverse ++ before) t t') : SameLine (u ++ t) (u ++ t') := by
  cases h with
  | same t => exact .inl rfl
  | @fork x d d' hstart hclose hhead =>
    rw [← List.append_assoc, ← List.reverse_append] at hstart
    obtain ⟨w, hw⟩ := endsLine_of_start hstart (List.append_ne_nil_of_left_ne_nil hu x)
    have hfeed : '\n' ∈ u ++ x := hw ▸ List.mem_append_right w List.mem_cons_self
    obtain ⟨line, rest, hux, hline⟩ := List.eq_append_cons_of_mem hfeed
    have hrest : Text.EndsLine true rest := by
      have hend : Text.EndsLine true ((line ++ ['\n']) ++ rest) := by
        refine .inr ⟨w, ?_⟩
        rw [← hw, hux, List.append_assoc, List.singleton_append]
      exact hend.of_append
    refine .inr ⟨line, rest ++ ':' :: d, rest ++ d', ?_, ?_, hline, ?_⟩
    · rw [← List.append_assoc, hux, List.append_assoc, List.cons_append]
    · rw [← List.append_assoc, hux, List.append_assoc, List.cons_append]
    · -- the line that closes a fence does so behind further lines
      obtain ⟨⟨body, closing⟩, hbreak⟩ := Option.isSome_iff_exists.mp hclose
      obtain ⟨s, hs, hsome, hbody⟩ := breakAtLine_some hbreak
      rw [hs, ← List.append_assoc]
      refine Text.breakAtLine_isSome (hbody.append fun _ => hrest) ?_
      rw [hsome]
      rfl

end Forked

end Fork

section Joint

/-- What stands in front of a place, the one text or the other, makes no difference there and further on. -/
inductive Joint (before before' : Text) : Text → Prop
  | edge {after : Text} (hempty : before.isEmpty = before'.isEmpty) (hstart : atLineStart before = atLineStart before')
      (hblank : behindBlankLine before = behindBlankLine before' ∨ startsIndented after = false) :
      Joint before before' after
  | line {t : Text} (hindented : startsIndented t = false) : Joint before before' ('\n' :: t)
  | last : Joint before before' []

variable {before before' after : Text}

lemma SameEdge.joint (h : SameEdge before before') (after : Text) : Joint before before' after :=
  .edge h.empty h.start (.inl h.blank)

namespace Joint

lemma tail {c : Char} (h : Joint before before' (c :: after)) : Joint (c :: before) (c :: before') after := by
  cases h with
  | edge hempty hstart hblank =>
    refine .edge rfl rfl (.inl ?_)
    rw [behindBlankLine_cons, behindBlankLine_cons, hempty, hstart]
  | line hindented => exact .edge rfl rfl (.inr hindented)

lemma append {u : Text} (h : Joint before before' (u ++ after)) :
    Joint (u.reverse ++ before) (u.reverse ++ before') after := by
  induction u generalizing before before' with
  | nil => exact h
  | cons c u ih =>
    rw [List.reverse_cons, List.append_assoc, List.append_assoc]
    exact ih h.tail

lemma at?_eq (h : Joint before before' after) : at? before after = at? before' after := by
  cases h with
  | edge hempty hstart hblank =>
    rw [at?, at?, rawAt?, rawAt?, fencedAt?, fencedAt?, indentedAt?_eq, indentedAt?_eq, hstart]
    rcases hblank with hblank | hindented
    · rw [hblank]
    · rw [hindented, Bool.and_false, Bool.and_false]
  | line hindented => rw [at?_eq_none_of_head (by decide), at?_eq_none_of_head (by decide)]
  | last =>
    have hnil : ∀ before, at? before [] = none := by
      intro before
      simp [at?, rawAt?, rawOpen?, fencedAt?, upToThreeSpaces, indentedAt?_eq, startsIndented, spanAt?,
        Text.spanWhile, List.isPrefixOf?]
    rw [hnil, hnil]

end Joint

section Scan

variable {q a a' : Text}

/-- No code span starts in prose. -/
lemma spanAt?_of_quiet (h : Quiet find before q a) : ∀ u v, q = u ++ v → v ≠ [] → spanAt? (v ++ a) = none := by
  intro u v huv hv
  have hnone := find_eq_none.mp (h u v huv hv)
  simp only [at?, Option.orElse_eq_orElse, Option.orElse_eq_or, Option.or_eq_none_iff] at hnone
  exact hnone.2.2.2

/-- Prose in which only a code span could start stays prose. -/
lemma quiet_of_forked (h : Quiet find before q a) (hjoint : Joint before before' (q ++ a))
    (hfork : Forked (q.reverse ++ before) a a')
    (hspan : ∀ u v, q = u ++ v → v ≠ [] → spanAt? (v ++ a') = none) : Quiet find before' q a' := by
  rintro u v rfl hv
  have hnone := find_eq_none.mp (h u v rfl hv)
  rw [List.reverse_append, List.append_assoc] at hfork
  rw [List.append_assoc] at hjoint
  -- the places differ in front, the texts behind
  have hline : SameLine (v ++ a) (v ++ a') := hfork.sameLine hv
  rw [hjoint.append.at?_eq] at hnone
  exact find_eq_none.mpr (at?_miss hnone (.refl _) hline (hspan u v rfl hv))

lemma find_of_forked {r : Region} (h : find before (r.source ++ a) = some ⟨r, r.source.length⟩)
    (hjoint : Joint before before' (r.source ++ a)) (hfork : Forked (r.source.reverse ++ before) a a') :
    find before' (r.source ++ a') = some ⟨r, r.source.length⟩ := by
  have hne : r.source ≠ [] := (find_exact _ _ _ h).2.1
  have hhit := find_eq_some.mp h
  rw [hjoint.at?_eq] at hhit
  exact find_eq_some.mpr (at?_hit hhit (.refl _) hfork.sameStart (hfork.sameLine hne))

end Scan

end Joint

end Sitewright.Region
