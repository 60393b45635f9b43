import Mathlib.Data.List.Basic
import Sitewright.Header
import Sitewright.Shield
import Sitewright.Proofs.RegionLocal

/-!
What is behind a header. A document is cut at every character that ends a line and put together
with line feeds, so the body is the text behind the header with each line end turned into a line
feed, less those in front and one at the end; only a text without any other line end is kept.
-/
namespace Sitewright

namespace Region

lemma dropLastFeed_of_getLast? {t : Text} (h : t.getLast? ≠ some '\n') : dropLastFeed t = t := by
  unfold dropLastFeed
  split
  · rename_i r hr
    rw [← List.head?_reverse, hr] at h
    exact absurd rfl h
  · rfl

lemma dropLastFeed_append (a : Text) {b : Text} (h : b ≠ []) :
    dropLastFeed (a ++ b) = a ++ dropLastFeed b := by
  by_cases hb : b.getLast? = some '\n'
  · obtain ⟨b, rfl⟩ := List.getLast?_eq_some_iff.mp hb
    rw [← List.append_assoc, dropLastFeed_feed, dropLastFeed_feed]
  · have hab : (a ++ b).getLast? ≠ some '\n' := by
      rwa [List.getLast?_append_of_ne_nil a h]
    rw [dropLastFeed_of_getLast? hb, dropLastFeed_of_getLast? hab]

end Region

namespace Text

/-- Every line end written as one line feed. -/
def unifyEnds (t : Text) : Text := (unifyReturns t).map fun c => if isLineEnd c then '\n' else c

section Ends

variable {c : Char} {t : Text}

lemma unifyEnds_cons (h : c = '\r' → t.head? ≠ some '\n') :
    unifyEnds (c :: t) = (if isLineEnd c then '\n' else c) :: unifyEnds t := by
  have hcons : unifyReturns (c :: t) = (if c = '\r' then '\n' else c) :: unifyReturns t := by
    refine unifyReturns.eq_3 c t fun cs hc ht => ?_
    subst ht
    exact h hc rfl
  rw [unifyEnds, hcons, List.map_cons, ← unifyEnds]
  split
  · rename_i hc
    subst hc
    rfl
  · rfl

lemma unifyEnds_ne_nil (h : t ≠ []) : unifyEnds t ≠ [] := by
  unfold unifyEnds unifyReturns
  split
  · exact absurd rfl h
  · exact List.cons_ne_nil _ _
  · exact List.cons_ne_nil _ _

/-- Line feeds are the only line ends that are left. -/
lemma eq_feed_of_mem_unifyEnds (hc : c ∈ unifyEnds t) (h : isLineEnd c = true) : c = '\n' := by
  obtain ⟨d, -, rfl⟩ := List.mem_map.mp hc
  split at h
  · rename_i hd
    exact if_pos hd
  · rename_i hd
    exact absurd h hd

lemma unifyEnds_eq_self (h : ∀ c ∈ t, isLineEnd c = true → c = '\n') : unifyEnds t = t := by
  induction t with
  | nil => rfl
  | cons c t ih =>
    have hreturn : c ≠ '\r' := by
      rintro rfl
      cases h '\r' List.mem_cons_self rfl
    rw [unifyEnds_cons fun hc => absurd hc hreturn,
      ih fun d hd => h d (List.mem_cons_of_mem _ hd)]
    split
    · rename_i hend
      rw [h c List.mem_cons_self hend]
    · rfl

end Ends

section Lines

variable {line : Text} {c : Char} {t : Text}

lemma go_afterReturn (h : t.head? ≠ some '\n') (afterReturn : Bool) :
    lines.go line afterReturn t = lines.go line false t := by
  cases t with
  | nil => rfl
  | cons c t =>
    have hc : c ≠ '\n' := fun hc => h (hc ▸ rfl)
    simp [lines.go, hc]

lemma go_end (h : isLineEnd c = true) (hreturn : c = '\r' → t.head? ≠ some '\n') :
    lines.go line false (c :: t) = line.reverse :: lines.go [] false t := by
  have hgo : lines.go line false (c :: t) = line.reverse :: lines.go [] (c = '\r') t := by
    simp [lines.go, h]
  rw [hgo]
  by_cases hc : c = '\r'
  · rw [go_afterReturn (hreturn hc)]
  · rw [decide_eq_false hc]

lemma go_notEnd (h : isLineEnd c = false) :
    lines.go line false (c :: t) = lines.go (c :: line) false t := by
  simp [lines.go, h]

lemma go_ne_nil (h : line ≠ [] ∨ t ≠ []) : lines.go line false t ≠ [] := by
  induction t generalizing line with
  | nil => simpa [lines.go] using h
  | cons c t ih =>
    cases hc : isLineEnd c with
    | true => simp [lines.go, hc]
    | false =>
      rw [go_notEnd hc]
      exact ih (.inl (List.cons_ne_nil _ _))

lemma go_append (b : Text) (a line : Text) (afterReturn : Bool) :
    lines.go line afterReturn (a ++ '\n' :: b) =
      lines.go line afterReturn (a ++ ['\n']) ++ lines b := by
  induction a generalizing line afterReturn with
  | nil => cases afterReturn <;> rfl
  | cons c a ih =>
    simp only [List.cons_append, lines.go]
    split
    · exact ih _ _
    · split
      · rw [ih, List.cons_append]
      · exact ih _ _

/-- The lines up to a line feed do not depend on what comes behind it. -/
lemma lines_append (a b : Text) : lines (a ++ '\n' :: b) = lines (a ++ ['\n']) ++ lines b :=
  go_append b a [] false

lemma join_cons (sep p : Text) {ps : List Text} (h : ps ≠ []) :
    join sep (p :: ps) = p ++ sep ++ join sep ps := by
  cases ps with
  | nil => exact absurd rfl h
  | cons q ps => rfl

/-- A line that ends puts a line feed in front of the lines behind it, if there are any. -/
lemma join_go_end (line : Text)
    (h : join ['\n'] (lines.go [] false t) = Region.dropLastFeed (unifyEnds t)) :
    join ['\n'] (line :: lines.go [] false t) = Region.dropLastFeed (line ++ '\n' :: unifyEnds t) := by
  by_cases ht : t = []
  · subst ht
    exact (Region.dropLastFeed_feed line).symm
  · rw [join_cons _ _ (go_ne_nil (.inr ht)), h, List.append_cons line '\n' (unifyEnds t),
      Region.dropLastFeed_append _ (unifyEnds_ne_nil ht)]

lemma join_go (hline : line.head? ≠ some '\n') :
    join ['\n'] (lines.go line false t) = Region.dropLastFeed (line.reverse ++ unifyEnds t) := by
  have hempty : ([] : Text).head? ≠ some '\n' := (Option.some_ne_none _).symm
  induction t using unifyReturns.induct generalizing line with
  | case1 =>
    have hlast : line.reverse.getLast? ≠ some '\n' := by rwa [List.getLast?_reverse]
    have hnil : line.reverse ++ unifyEnds [] = line.reverse := List.append_nil _
    rw [hnil, Region.dropLastFeed_of_getLast? hlast]
    cases line <;> rfl
  | case2 t ih => exact join_go_end line.reverse (ih hempty)
  | case3 c t hreturn ih =>
    have hhead : c = '\r' → t.head? ≠ some '\n' := by
      intro hc ht
      obtain ⟨cs, hcs⟩ := List.head?_eq_some_iff.mp ht
      exact hreturn cs hc hcs
    rw [unifyEnds_cons hhead]
    cases hc : isLineEnd c with
    | true =>
      rw [go_end hc hhead]
      exact join_go_end line.reverse (ih hempty)
    | false =>
      have hfeed : (c :: line).head? ≠ some '\n' := by
        rintro ⟨⟩
        cases hc
      rw [go_notEnd hc, ih hfeed, List.reverse_cons, List.append_assoc]
      rfl

/-- A text put together from its lines has line feeds for line ends, and none behind its last line. -/
lemma join_lines (t : Text) : join ['\n'] (lines t) = Region.dropLastFeed (unifyEnds t) :=
  join_go (Option.some_ne_none _).symm

end Lines

end Text

namespace Header

/-- A document with a header between two fences in front of a text. -/
def attach (header t : Text) : Text := fence ++ '\n' :: (header ++ '\n' :: (fence ++ '\n' :: t))

/-- The lines of a header, the last of them ended by the line feed in front of the closing fence. -/
def linesOf (header : Text) : List Text := Text.lines (header ++ ['\n'])

/-- The body that is left of a text behind a header: its line ends are line feeds, none of them in
front, and one less at the end. -/
def bodyText (t : Text) : Text := (Region.dropLastFeed (Text.unifyEnds t)).dropWhile (· = '\n')

lemma lines_attach (header t : Text) :
    Text.lines (attach header t) = fence :: (linesOf header ++ fence :: Text.lines t) := by
  have hfence : Text.lines (fence ++ ['\n']) = [fence] := by decide
  rw [attach, Text.lines_append fence _, Text.lines_append header _, Text.lines_append fence t, hfence]
  rfl

lemma cut?_attach {header : Text} (t : Text) (h : ∀ line ∈ linesOf header, isFence line = false) :
    cut? (attach header t) = some (linesOf header, Text.lines t) := by
  have hfence : isFence fence = true := by decide
  have hopen : ∀ line ∈ linesOf header, (!isFence line) = true := by
    intro line hline
    rw [h line hline]
    rfl
  rw [cut?, lines_attach]
  simp only [hfence, if_true, List.takeWhile_append_of_pos hopen, List.dropWhile_append_of_pos hopen,
    List.takeWhile_cons, List.dropWhile_cons]
  simp

lemma mem_of_mem_bodyText {c : Char} {t : Text} (h : c ∈ bodyText t) : c ∈ Text.unifyEnds t :=
  (Region.dropLastFeed_prefix _).subset ((List.dropWhile_suffix _).subset h)

lemma length_bodyText_le (t : Text) :
    (bodyText t).length ≤ (Region.dropLastFeed (Text.unifyEnds t)).length :=
  (List.dropWhile_suffix _).length_le

lemma head?_bodyText (t : Text) : (bodyText t).head? ≠ some '\n' := by
  intro h
  have hfeed := List.head?_dropWhile_not (· = '\n') (Region.dropLastFeed (Text.unifyEnds t))
  rw [← bodyText, h] at hfeed
  simp at hfeed

lemma bodyText_eq_self_iff {t : Text} : bodyText t = t ↔
    t.head? ≠ some '\n' ∧ t.getLast? ≠ some '\n' ∧ ∀ c ∈ t, Text.isLineEnd c = true → c = '\n' := by
  constructor
  · intro h
    have hends : ∀ c ∈ t, Text.isLineEnd c = true → c = '\n' := by
      intro c hc hend
      rw [← h] at hc
      exact Text.eq_feed_of_mem_unifyEnds (mem_of_mem_bodyText hc) hend
    refine ⟨h ▸ head?_bodyText t, fun hlast => ?_, hends⟩
    obtain ⟨s, rfl⟩ := List.getLast?_eq_some_iff.mp hlast
    have hle := length_bodyText_le (s ++ ['\n'])
    rw [h, Text.unifyEnds_eq_self hends, Region.dropLastFeed_feed, List.length_append] at hle
    exact Nat.not_succ_le_self _ hle
  · rintro ⟨hhead, hlast, hends⟩
    rw [bodyText, Text.unifyEnds_eq_self hends, Region.dropLastFeed_of_getLast? hlast]
    cases t with
    | nil => rfl
    | cons c t =>
      have hc : c ≠ '\n' := fun hc => hhead (congrArg some hc)
      exact List.dropWhile_cons_of_neg (by simpa using hc)

/-- A header that can be read is cut off. The body is what is behind it with every line end written
as a line feed, less those in front and one at the end, so it is the text that the header was put in
front of exactly when this text has no line end but line feeds, and none of them at its ends. -/
theorem split_attach {header : Text} {fs : Fields}
    (hlines : ∀ line ∈ linesOf header, isFence line = false)
    (hfields : fields (Text.join ['\n'] (linesOf header)) = .ok fs) (t : Text) :
    split (attach header t) = .ok ⟨fs, bodyText t⟩ ∧ (bodyText t = t ↔
      t.head? ≠ some '\n' ∧ t.getLast? ≠ some '\n' ∧
        ∀ c ∈ t, Text.isLineEnd c = true → c = '\n') := by
  refine ⟨?_, bodyText_eq_self_iff⟩
  rw [split, cut?_attach t hlines]
  simp only [hfields, Except.map, Text.join_lines]
  rfl

/-- Two words with a line separator between them. -/
def separated : Text := "one\u2028two".toList

theorem split_attach_separated : ∃ fs, fields "a: 1".toList = .ok fs ∧
    split (attach "a: 1".toList separated) = .ok ⟨fs, "one\ntwo".toList⟩ ∧
    bodyText separated ≠ separated := by
  have hread : (fields "a: 1".toList).isOk = true := by decide +kernel
  cases hfields : fields "a: 1".toList with
  | error e =>
    rw [hfields] at hread
    cases hread
  | ok fs =>
    have hlines : ∀ line ∈ linesOf "a: 1".toList, isFence line = false := by decide
    have hbody : bodyText separated = "one\ntwo".toList := by decide
    obtain ⟨hsplit, hself⟩ := split_attach hlines hfields separated
    rw [hbody] at hsplit
    refine ⟨fs, rfl, hsplit, fun h => ?_⟩
    obtain ⟨-, -, hends⟩ := hself.mp h
    exact absurd (hends '\u2028' (by decide) rfl) (by decide)

end Header

end Sitewright
