import Sitewright.Proofs.Region
import Sitewright.Text.Blank

/-!
What a region depends on besides its own text: in front of it, whether a line or the text starts there or a
blank line ends; behind it, how the text goes on up to the end of its line.
-/
namespace Sitewright

namespace Text

/-- A reader of lines looks no further than the end of the line. -/
def LineLocal (close : Text → Option Text) : Prop := ∀ t s, close (t ++ '\n' :: s) = close t

lemma LineLocal.of_lineEnd {close : Text → Option Text} (h : LineLocal close) {rest : Text}
    (hrest : atLineEnd rest = true) (t : Text) : close (t ++ rest) = close t := by
  cases rest with
  | nil => rw [List.append_nil]
  | cons c cs =>
    obtain rfl : c = '\n' := of_decide_eq_true hrest
    exact h t cs

/-- Where a text is cut off, it is so whatever goes on behind the closing line. -/
lemma LineLocal.breakAtLine {close : Text → Option Text} (h : LineLocal close) {fresh : Bool}
    {body closing rest rest' : Text} (hrest : atLineEnd rest = true) (hrest' : atLineEnd rest' = true)
    (hbreak : breakAtLine close fresh (body ++ (closing ++ rest)) = some (body, closing)) :
    breakAtLine close fresh (body ++ (closing ++ rest')) = some (body, closing) := by
  rw [breakAtLine_eq_some] at hbreak ⊢
  obtain ⟨hline, hclose, hquiet⟩ := hbreak
  refine ⟨hline, ?_, fun u v huv hv hu => ?_⟩
  · rw [h.of_lineEnd hrest] at hclose
    rwa [h.of_lineEnd hrest']
  · have hend : EndsLine true v := EndsLine.of_append (huv ▸ hline)
    obtain ⟨w, rfl⟩ : ∃ w, v = w ++ ['\n'] := hend.resolve_left fun hnil => hv hnil.1
    have hw := hquiet u _ huv hv hu
    rw [List.append_assoc] at hw ⊢
    exact (h w _).trans ((h w _).symm.trans hw)

lemma spanWhile_feed {p : Char → Bool} (hp : p '\n' = false) (t s : Text) :
    spanWhile p (t ++ '\n' :: s) = ((spanWhile p t).1, (spanWhile p t).2 ++ '\n' :: s) := spanWhile_cut hp t s

lemma isPrefixOf?_feed {w : Text} (hw : '\n' ∉ w) (t s : Text) :
    w.isPrefixOf? (t ++ '\n' :: s) = (w.isPrefixOf? t).map (· ++ '\n' :: s) := isPrefixOf?_cut hw t s

lemma atLineEnd_feed (t s : Text) : atLineEnd (t ++ '\n' :: s) = atLineEnd t := by
  cases t <;> rfl

end Text

namespace Region

open Text

section Lines

lemma rawClose?_eq (t : Text) : rawClose? t = (":::".toList.isPrefixOf? t).bind fun rest =>
    if atLineEnd (spanWhile isSpaceTab rest).2 then some (":::".toList ++ (spanWhile isSpaceTab rest).1)
    else none := by
  unfold rawClose?
  split
  · rename_i rest
    rfl
  · rename_i hne
    cases hprefix : ":::".toList.isPrefixOf? t with
    | none => rfl
    | some rest =>
      rw [List.isPrefixOf?_eq_some_iff_append_eq] at hprefix
      exact absurd hprefix.symm (hne rest)

lemma rawClose?_lineLocal : LineLocal rawClose? := by
  intro t s
  rw [rawClose?_eq, rawClose?_eq, isPrefixOf?_feed (by decide)]
  cases ":::".toList.isPrefixOf? t with
  | none => rfl
  | some rest =>
    rw [Option.map_some, Option.bind_some, Option.bind_some, spanWhile_feed (by decide), atLineEnd_feed]

lemma rawClose?_eq_some {t closing : Text} : rawClose? t = some closing ↔ ∃ blanks rest,
    closing = ":::".toList ++ blanks ∧ t = closing ++ rest ∧ (∀ c ∈ blanks, isSpaceTab c = true) ∧
      atLineEnd rest = true := by
  rw [rawClose?_eq, Option.bind_eq_some_iff]
  simp only [List.isPrefixOf?_eq_some_iff_append_eq, Option.ite_none_right_eq_some, Option.some.injEq]
  constructor
  · rintro ⟨tail, rfl, hend, rfl⟩
    refine ⟨_, _, rfl, ?_, fun c hc => mem_spanWhile hc, hend⟩
    rw [List.append_assoc, spanWhile_append]
  · rintro ⟨blanks, rest, rfl, rfl, hblanks, hend⟩
    refine ⟨blanks ++ rest, by rw [List.append_assoc], ?_⟩
    cases rest with
    | nil =>
      rw [List.append_nil]
      have hspan : spanWhile isSpaceTab blanks = (blanks, []) := by
        rw [spanWhile, List.takeWhile_eq_self_iff.mpr hblanks, List.dropWhile_eq_nil_iff.mpr hblanks]
      rw [hspan]
      exact ⟨rfl, rfl⟩
    | cons c cs =>
      obtain rfl : c = '\n' := of_decide_eq_true hend
      rw [spanWhile_stop hblanks (by decide)]
      exact ⟨rfl, rfl⟩

lemma upToThreeSpaces_append (t : Text) : (upToThreeSpaces t).1 ++ (upToThreeSpaces t).2 = t :=
  List.take_append_drop _ t

lemma upToThreeSpaces_feed (t s : Text) : upToThreeSpaces (t ++ '\n' :: s) =
    ((upToThreeSpaces t).1, (upToThreeSpaces t).2 ++ '\n' :: s) := by
  have hspaces : (t ++ '\n' :: s).takeWhile (· = ' ') = t.takeWhile (· = ' ') :=
    (Prod.mk.inj (spanWhile_feed (p := (· = ' ')) (by decide) t s)).1
  have hle : min 3 (t.takeWhile (· = ' ')).length ≤ t.length :=
    (Nat.min_le_right _ _).trans (List.takeWhile_prefix _).length_le
  rw [upToThreeSpaces, upToThreeSpaces, hspaces, List.take_append_of_le_length hle,
    List.drop_append_of_le_length hle]

lemma codeClose?_lineLocal {fence : Text} (hfence : '\n' ∉ fence) : LineLocal (codeClose? fence) := by
  intro t s
  rw [codeClose?, codeClose?, upToThreeSpaces_feed]
  dsimp only
  rw [isPrefixOf?_feed hfence]
  cases fence.isPrefixOf? (upToThreeSpaces t).2 with
  | none => rfl
  | some rest =>
    rw [Option.map_some, Option.bind_some, Option.bind_some, spanWhile_feed (by decide)]
    dsimp only
    rw [spanWhile_feed (by decide)]
    dsimp only
    rw [atLineEnd_feed]

/-- Behind a closing line its line ends. -/
lemma codeClose?_rest {fence t closing : Text} (h : codeClose? fence t = some closing) :
    ∃ rest, t = closing ++ rest ∧ atLineEnd rest = true := by
  rw [codeClose?] at h
  dsimp only at h
  obtain ⟨rest, hrest, h⟩ := Option.bind_eq_some_iff.mp h
  rw [List.isPrefixOf?_eq_some_iff_append_eq] at hrest
  obtain ⟨hend, h⟩ := Option.ite_none_right_eq_some.mp h
  obtain rfl := Option.some.inj h
  refine ⟨_, ?_, hend⟩
  conv_lhs => rw [← upToThreeSpaces_append t, ← hrest,
    ← spanWhile_append (fun c => c = '`' || c = '~') rest,
    ← spanWhile_append (fun c => c = ' ' || c = '\t') (spanWhile _ rest).2]
  simp only [List.append_assoc]

lemma dropLastFeed_feed (t : Text) : dropLastFeed (t ++ ['\n']) = t := by
  rw [dropLastFeed, List.reverse_append]
  exact List.reverse_reverse t

lemma rawOpen?_eq_some {t opening rest : Text} : rawOpen? t = some (opening, rest) ↔ ∃ blanks,
    opening = ":::html".toList ++ blanks ++ ['\n'] ∧ t = opening ++ rest ∧
      ∀ c ∈ blanks, isSpaceTab c = true := by
  rw [rawOpen?, Option.bind_eq_some_iff]
  simp only [List.isPrefixOf?_eq_some_iff_append_eq]
  constructor
  · rintro ⟨tail, rfl, h⟩
    split at h
    · rename_i blanks after hspan
      obtain ⟨rfl, hblanks⟩ := spanWhile_eq hspan
      obtain ⟨rfl, rfl⟩ := Prod.mk.inj (Option.some.inj h)
      exact ⟨blanks, rfl, by simp only [List.append_assoc, List.singleton_append], hblanks⟩
    · cases h
  · rintro ⟨blanks, rfl, rfl, hblanks⟩
    refine ⟨blanks ++ '\n' :: rest, by simp only [List.append_assoc, List.singleton_append], ?_⟩
    have hspan : spanWhile (fun c => c = ' ' || c = '\t') (blanks ++ '\n' :: rest) = (blanks, '\n' :: rest) :=
      spanWhile_stop hblanks (by decide)
    rw [hspan]
    rfl

/-- Only the first line decides whether a raw fence is opened. -/
lemma rawOpen?_line {line s opening rest : Text} (hline : '\n' ∉ line) :
    rawOpen? (line ++ '\n' :: s) = some (opening, rest) ↔ opening = line ++ ['\n'] ∧ rest = s ∧
      ∃ blanks, line = ":::html".toList ++ blanks ∧ ∀ c ∈ blanks, isSpaceTab c = true := by
  rw [rawOpen?_eq_some]
  constructor
  · rintro ⟨blanks, rfl, h, hblanks⟩
    have hopen : '\n' ∉ ":::html".toList ++ blanks := by
      intro hm
      rcases List.mem_append.mp hm with hm | hm
      · exact absurd hm (by decide)
      · exact absurd (hblanks _ hm) (by decide)
    have hcut : Text.cutLine (line ++ '\n' :: s) = (":::html".toList ++ blanks, some rest) :=
      cutLine_eq_some.mpr ⟨by rw [h]; simp only [List.append_assoc, List.singleton_append], hopen⟩
    rw [cutLine_eq_some.mpr ⟨rfl, hline⟩] at hcut
    obtain ⟨rfl, hrest⟩ := Prod.mk.inj hcut
    exact ⟨rfl, (Option.some.inj hrest).symm, blanks, rfl, hblanks⟩
  · rintro ⟨rfl, rfl, blanks, rfl, hblanks⟩
    exact ⟨blanks, rfl, by simp only [List.append_assoc, List.singleton_append], hblanks⟩

lemma startsIndented_eq (t : Text) :
    startsIndented t = (['\t'].isPrefixOf t || "    ".toList.isPrefixOf t) := by
  unfold startsIndented
  split
  · simp
  · simp
  · rename_i htab hspaces
    symm
    rw [Bool.or_eq_false_iff]
    constructor
    · rw [← Bool.not_eq_true, List.isPrefixOf_iff_prefix]
      rintro ⟨rest, rfl⟩
      exact htab rest rfl
    · rw [← Bool.not_eq_true, List.isPrefixOf_iff_prefix]
      rintro ⟨rest, rfl⟩
      exact hspaces rest rfl

lemma startsIndented_feed (t s : Text) : startsIndented (t ++ '\n' :: s) = startsIndented t := by
  have hfeed : ∀ w : Text, '\n' ∉ w → w.isPrefixOf (t ++ '\n' :: s) = w.isPrefixOf t := by
    intro w hw
    rw [← List.isSome_isPrefixOf?_eq_isPrefixOf, ← List.isSome_isPrefixOf?_eq_isPrefixOf,
      isPrefixOf?_feed hw, Option.isSome_map]
  rw [startsIndented_eq, startsIndented_eq, hfeed _ (by decide), hfeed _ (by decide)]

/-- The fence of a line that opens a block of code. -/
def fenceOf? (line : Text) : Option Text :=
  match (upToThreeSpaces line).2 with
  | [] => none
  | c :: rest =>
    if (c = '`' || c = '~') && 3 ≤ (spanWhile (· = c) (c :: rest)).1.length then
      some (spanWhile (· = c) (c :: rest)).1
    else none

lemma feed_not_mem_fenceOf? {line fence : Text} (hline : '\n' ∉ line) (h : fenceOf? line = some fence) :
    '\n' ∉ fence := by
  unfold fenceOf? at h
  split at h
  · cases h
  · rename_i c rest hrest
    obtain ⟨-, h⟩ := Option.ite_none_right_eq_some.mp h
    obtain rfl := Option.some.inj h
    intro hm
    apply hline
    rw [← upToThreeSpaces_append line, hrest]
    exact List.mem_append_right _ ((List.takeWhile_prefix (· = c)).subset hm)

/-- The code that a block goes on with below the line that opens it. -/
def codeBelow (fence rest : Text) : Text :=
  match breakAtLine (codeClose? fence) true rest with
  | some (body, closing) => body ++ closing
  | none => rest

/-- Only the first line decides whether a block of code is opened. -/
lemma fencedAt?_line {before line s : Text} (hline : '\n' ∉ line) :
    fencedAt? before (line ++ '\n' :: s) = if atLineStart before then
      (fenceOf? line).map fun fence => code (line ++ '\n' :: codeBelow fence s)
    else none := by
  have hjoin := upToThreeSpaces_append line
  unfold fencedAt? fenceOf?
  rw [upToThreeSpaces_feed]
  dsimp only
  split
  · cases hrest : (upToThreeSpaces line).2 with
    | nil => rfl
    | cons c rest =>
      rw [hrest] at hjoin
      have hmem : ∀ d ∈ c :: rest, d ∈ line := fun d hd => hjoin ▸ List.mem_append_right _ hd
      have hc : '\n' ≠ c := fun hc => hline (hmem _ (hc ▸ List.mem_cons_self))
      rw [List.cons_append]
      dsimp only
      rw [← List.cons_append, spanWhile_feed (decide_eq_false hc)]
      dsimp only
      have hinfo : '\n' ∉ (spanWhile (· = c) (c :: rest)).2 :=
        fun hm => hline (hmem _ ((List.dropWhile_suffix (· = c)).subset hm))
      rw [cutLine_eq_some.mpr ⟨rfl, hinfo⟩]
      have hopening : (upToThreeSpaces line).1 ++ (spanWhile (· = c) (c :: rest)).1 ++
          (spanWhile (· = c) (c :: rest)).2 = line := by
        rw [List.append_assoc, spanWhile_append, hjoin]
      dsimp only
      split
      · rw [hopening, Option.map_some, codeBelow]
        cases breakAtLine (codeClose? (spanWhile (· = c) (c :: rest)).1) true s with
        | none => rfl
        | some found => simp only [List.append_assoc, List.cons_append, List.nil_append]
      · rfl
  · rfl

/-- A block of code that has no line below its opening is none. -/
lemma fencedAt?_of_not_mem {before t : Text} (ht : '\n' ∉ t) : fencedAt? before t = none := by
  have hjoin := upToThreeSpaces_append t
  unfold fencedAt?
  dsimp only
  split
  · split
    · rfl
    · rename_i c rest hrest
      split
      · split
        · rfl
        · rename_i line below hcut
          refine absurd ?_ ht
          rw [← hjoin, hrest]
          refine List.mem_append_right _ ((List.dropWhile_suffix (· = c)).subset ?_)
          have hbelow : (upToThreeSpaces t).2.dropWhile (· = c) = line ++ '\n' :: below := cutLine_some hcut
          rw [← hrest, hbelow]
          simp
      · rfl
  · rfl

end Lines

/-- The place is at the start of a text or behind a blank line. -/
def behindBlankLine : Text → Bool
  | [] => true
  | '\n' :: '\n' :: _ => true
  | _ => false

lemma behindBlankLine_cons (c : Char) (before : Text) :
    behindBlankLine (c :: before) = (c = '\n' && (!before.isEmpty && atLineStart before)) := by
  rcases before with _ | ⟨d, before⟩
  · cases hc : decide (c = '\n') <;> simp [behindBlankLine]
  · by_cases hc : c = '\n'
    · by_cases hd : d = '\n' <;> simp [behindBlankLine, atLineStart, hc, hd]
    · simp [behindBlankLine, hc]

lemma indentedAt?_eq (before after : Text) : indentedAt? before after =
    if behindBlankLine before && startsIndented after then some (code (indentedLines true after))
    else none := rfl

/-- What reading a region goes by in front of it. -/
structure SameEdge (before before' : Text) : Prop where
  empty : before.isEmpty = before'.isEmpty
  start : atLineStart before = atLineStart before'
  blank : behindBlankLine before = behindBlankLine before'

namespace SameEdge

variable {before before' : Text}

lemma refl (before : Text) : SameEdge before before := ⟨rfl, rfl, rfl⟩

lemma append (h : SameEdge before before') (t : Text) : SameEdge (t ++ before) (t ++ before') := by
  induction t with
  | nil => exact h
  | cons c t ih =>
    refine ⟨rfl, rfl, ?_⟩
    rw [List.cons_append, List.cons_append, behindBlankLine_cons, behindBlankLine_cons, ih.empty, ih.start]

/-- In the middle of a line there is no other edge. -/
lemma of_not_start {c c' : Char} (t t' : Text) (hc : c ≠ '\n') (hc' : c' ≠ '\n') :
    SameEdge (c :: t) (c' :: t') := by
  refine ⟨rfl, (decide_eq_false hc).trans (decide_eq_false hc').symm, ?_⟩
  rw [behindBlankLine_cons, behindBlankLine_cons, decide_eq_false hc, decide_eq_false hc']
  rfl

end SameEdge

lemma at?_edge {before before' : Text} (h : SameEdge before before') (after : Text) :
    at? before after = at? before' after := by
  rw [at?, at?, rawAt?, rawAt?, fencedAt?, fencedAt?, indentedAt?_eq, indentedAt?_eq, h.start, h.blank]

/-- What reading a region goes by behind it. -/
structure SameStart (rest rest' : Text) : Prop where
  empty : rest = [] → rest' = []
  lineEnd : atLineEnd rest = true → atLineEnd rest' = true
  tick : rest.head? ≠ some '`' → rest'.head? ≠ some '`'
  indented : startsIndented rest = false → startsIndented rest' = false

section Hits

variable {before before' rest rest' : Text} {r : Region}

lemma rawAt?_of {opening body closing : Text} (hstart : atLineStart before = true)
    (hopen : rawOpen? (opening ++ (body ++ (closing ++ rest))) = some (opening, body ++ (closing ++ rest)))
    (hbreak : breakAtLine rawClose? true (body ++ (closing ++ rest)) = some (body, closing)) :
    rawAt? before ((opening ++ body ++ closing) ++ rest) =
      some (raw (opening ++ body ++ closing) (dropLastFeed body)) := by
  rw [rawAt?, if_pos hstart]
  simp only [List.append_assoc]
  rw [hopen, Option.bind_some]
  dsimp only
  rw [hbreak]
  rfl

/-- A raw fence stands on lines of its own. -/
lemma rawAt?_lines (h : rawAt? before (r.source ++ rest) = some r) :
    atLineStart before = true ∧ atLineEnd rest = true ∧ ∃ opening body closing,
      r = raw (opening ++ body ++ closing) (dropLastFeed body) ∧
      (∀ s, rawOpen? (opening ++ s) = some (opening, s)) ∧
      breakAtLine rawClose? true (body ++ (closing ++ rest)) = some (body, closing) := by
  rw [rawAt?, Option.ite_none_right_eq_some] at h
  obtain ⟨hstart, h⟩ := h
  obtain ⟨⟨opening, tail⟩, hopen, h⟩ := Option.bind_eq_some_iff.mp h
  obtain ⟨⟨body, closing⟩, hbreak, rfl⟩ := Option.map_eq_some_iff.mp h
  obtain ⟨blanks, hopening, htail, hblanks⟩ := rawOpen?_eq_some.mp hopen
  obtain rfl : tail = body ++ (closing ++ rest) := by
    simp only [source, List.append_assoc] at htail
    exact (List.append_cancel_left htail).symm
  have hend : atLineEnd rest = true := by
    obtain ⟨-, hclose, -⟩ := breakAtLine_eq_some.mp hbreak
    obtain ⟨_, rest₀, -, hrest₀, -, hend⟩ := rawClose?_eq_some.mp hclose
    rwa [List.append_cancel_left hrest₀]
  exact ⟨hstart, hend, opening, body, closing, rfl,
    fun s => rawOpen?_eq_some.mpr ⟨blanks, hopening, rfl, hblanks⟩, hbreak⟩

/-- The HTML of a raw fence holds no line that would close it. -/
lemma rawAt?_html {src html : Text} (h : rawAt? before (src ++ rest) = some (raw src html)) :
    breakAtLine rawClose? true html = none := by
  obtain ⟨-, -, opening, body, closing, hr, -, hbreak⟩ := rawAt?_lines (r := raw src html) h
  obtain ⟨-, rfl⟩ := Region.raw.inj hr
  obtain ⟨hline, -, hquiet⟩ := breakAtLine_eq_some.mp hbreak
  rcases hline with ⟨rfl, -⟩ | ⟨w, rfl⟩
  · rfl
  · rw [dropLastFeed_feed, breakAtLine_eq_none]
    rintro u v rfl hu
    have hv := hquiet u (v ++ ['\n']) (List.append_assoc u v _) (by simp) hu
    rw [List.append_assoc] at hv
    exact (rawClose?_lineLocal v _).symm.trans hv

lemma rawAt?_hit (h : rawAt? before (r.source ++ rest) = some r) (hedge : SameEdge before before')
    (hrest : SameStart rest rest') : rawAt? before' (r.source ++ rest') = some r := by
  obtain ⟨hstart, hend, opening, body, closing, rfl, hopen, hbreak⟩ := rawAt?_lines h
  exact rawAt?_of (hedge.start ▸ hstart) (hopen _)
    (rawClose?_lineLocal.breakAtLine hend (hrest.lineEnd hend) hbreak)

/-- What follows the code below a fence starts at the end of a line. -/
lemma codeBelow_lineEnd {fence s : Text} (h : s = codeBelow fence s ++ rest) : atLineEnd rest = true := by
  cases hbreak : breakAtLine (codeClose? fence) true s with
  | none =>
    rw [codeBelow, hbreak] at h
    obtain rfl : rest = [] := by simpa using h
    rfl
  | some found =>
    obtain ⟨body, closing⟩ := found
    rw [codeBelow, hbreak, List.append_assoc] at h
    rw [h] at hbreak
    obtain ⟨-, hclose, -⟩ := breakAtLine_eq_some.mp hbreak
    obtain ⟨rest₀, hrest₀, hend⟩ := codeClose?_rest hclose
    rwa [List.append_cancel_left hrest₀]

lemma codeBelow_hit {fence s : Text} (hfence : '\n' ∉ fence) (h : s = codeBelow fence s ++ rest)
    (hrest : SameStart rest rest') : codeBelow fence (codeBelow fence s ++ rest') = codeBelow fence s := by
  cases hbreak : breakAtLine (codeClose? fence) true s with
  | none =>
    have hall : codeBelow fence s = s := by rw [codeBelow, hbreak]
    rw [hall] at h ⊢
    obtain rfl : rest = [] := by simpa using h
    rw [hrest.empty rfl, List.append_nil, hall]
  | some found =>
    obtain ⟨body, closing⟩ := found
    have hend := codeBelow_lineEnd h
    have hcut : codeBelow fence s = body ++ closing := by rw [codeBelow, hbreak]
    rw [hcut, List.append_assoc] at h
    rw [h] at hbreak
    rw [hcut, List.append_assoc, codeBelow,
      (codeClose?_lineLocal hfence).breakAtLine hend (hrest.lineEnd hend) hbreak]

/-- A fenced block of code is its opening line and the code below. -/
lemma fencedAt?_lines (h : fencedAt? before (r.source ++ rest) = some r) : ∃ line fence s, '\n' ∉ line ∧
    atLineStart before = true ∧ fenceOf? line = some fence ∧ r = .code (line ++ '\n' :: codeBelow fence s) ∧
    s = codeBelow fence s ++ rest := by
  have hfeed : '\n' ∈ r.source ++ rest := by
    by_contra hfeed
    rw [fencedAt?_of_not_mem hfeed] at h
    cases h
  obtain ⟨line, s, hafter, hline⟩ := List.eq_append_cons_of_mem hfeed
  rw [hafter, fencedAt?_line hline, Option.ite_none_right_eq_some] at h
  obtain ⟨hstart, h⟩ := h
  obtain ⟨fence, hfence, rfl⟩ := Option.map_eq_some_iff.mp h
  refine ⟨line, fence, s, hline, hstart, hfence, rfl, ?_⟩
  simp only [source, List.append_assoc, List.cons_append] at hafter
  exact (List.cons.inj (List.append_cancel_left hafter)).2.symm

/-- What follows a fenced block of code starts at the end of its last line. -/
lemma fencedAt?_lineEnd (h : fencedAt? before (r.source ++ rest) = some r) : atLineEnd rest = true := by
  obtain ⟨line, fence, s, -, -, -, -, hbelow⟩ := fencedAt?_lines h
  exact codeBelow_lineEnd hbelow

lemma fencedAt?_hit (h : fencedAt? before (r.source ++ rest) = some r) (hedge : SameEdge before before')
    (hrest : SameStart rest rest') : fencedAt? before' (r.source ++ rest') = some r := by
  obtain ⟨line, fence, s, hline, hstart, hfence, rfl, hbelow⟩ := fencedAt?_lines h
  simp only [source, List.append_assoc, List.cons_append]
  rw [fencedAt?_line hline, if_pos (hedge.start ▸ hstart), hfence, Option.map_some,
    codeBelow_hit (feed_not_mem_fenceOf? hline hfence) hbelow hrest]

lemma startsIndented_append {fresh : Bool} {t : Text} (hline : EndsLine fresh t) (hne : t ≠ []) (s : Text) :
    startsIndented (t ++ s) = startsIndented t := by
  obtain ⟨u, rfl⟩ := hline.resolve_left fun hnil => hne hnil.1
  rw [List.append_assoc]
  exact (startsIndented_feed u s).trans (startsIndented_feed u []).symm

/-- Indented lines end where a line is not indented. -/
lemma indentedLines_append {fresh : Bool} {t s : Text} (hend : s = [] ∨ EndsLine fresh t) :
    indentedLines fresh (t ++ s) = t ↔ indentedLines fresh t = t ∧ startsIndented s = false := by
  induction t generalizing fresh with
  | nil =>
    cases s with
    | nil => simp [indentedLines, startsIndented]
    | cons c cs =>
      have hfresh : fresh = true := endsLine_nil.mp (hend.resolve_left (List.cons_ne_nil c cs))
      rw [List.nil_append, indentedLines, indentedLines, hfresh]
      cases startsIndented (c :: cs) <;> simp
  | cons c cs ih =>
    have hsame : startsIndented (c :: (cs ++ s)) = startsIndented (c :: cs) := by
      rcases hend with rfl | hline
      · rw [List.append_nil]
      · exact startsIndented_append hline (List.cons_ne_nil c cs) s
    rw [List.cons_append, indentedLines, indentedLines, hsame]
    split
    · simp
    · rw [List.cons_inj_right, List.cons_inj_right]
      exact ih (hend.imp_right endsLine_cons.mp)

lemma indentedAt?_hit (h : indentedAt? before (r.source ++ rest) = some r) (hedge : SameEdge before before')
    (hrest : SameStart rest rest') : indentedAt? before' (r.source ++ rest') = some r := by
  rw [indentedAt?_eq, Option.ite_none_right_eq_some, Bool.and_eq_true] at h
  obtain ⟨⟨hblank, hindented⟩, hr⟩ := h
  have hcode : indentedLines true (r.source ++ rest) = r.source := by
    have := congrArg source (Option.some.inj hr)
    rwa [source] at this
  have hend : rest = [] ∨ EndsLine true r.source := by
    obtain ⟨rest₀, hrest₀, hend⟩ := indentedLines_some true (r.source ++ rest)
    rw [hcode] at hrest₀ hend
    obtain rfl := List.append_cancel_left hrest₀
    rcases hend with rfl | ⟨hnil, -⟩ | hlast
    · exact .inl rfl
    · exact .inr (.inl ⟨hnil, rfl⟩)
    · exact .inr (.inr ⟨_, (List.dropLast_append_getLast? _ hlast).symm⟩)
  obtain ⟨hlines, hstop⟩ := (indentedLines_append hend).mp hcode
  have hne : r.source ≠ [] := by
    intro hnil
    rw [hnil, List.nil_append] at hindented
    rw [hstop] at hindented
    cases hindented
  have hend' : rest' = [] ∨ EndsLine true r.source := hend.imp_left hrest.empty
  have hindented' : startsIndented (r.source ++ rest') = true := by
    rcases hend with rfl | hline
    · rwa [hrest.empty rfl]
    · rw [startsIndented_append hline hne] at hindented ⊢
      exact hindented
  rw [indentedAt?_eq, ← hedge.blank, hblank, hindented',
    (indentedLines_append hend').mpr ⟨hlines, hrest.indented hstop⟩]
  rw [hcode] at hr
  exact hr

lemma startsBlankLine_cons (c : Char) (t : Text) :
    startsBlankLine (c :: t) = (c = '\n' && (t.dropWhile isSpaceTab).head? == some '\n') := by
  by_cases hc : c = '\n'
  · subst hc
    rfl
  · simp [startsBlankLine, hc]

/-- Whether a blank line starts is seen at the first character behind its blanks. -/
lemma startsBlankLine_append {d : Char} (hd : isSpaceTab d = false) (c : Char) (t s s' : Text) :
    startsBlankLine (c :: (t ++ d :: s)) = startsBlankLine (c :: (t ++ d :: s')) := by
  have hhead : ∀ u : Text, ((t ++ d :: u).dropWhile isSpaceTab).head? =
      ((t ++ [d]).dropWhile isSpaceTab).head? := by
    intro u
    induction t with
    | nil => simp [hd]
    | cons b t ih =>
      cases hb : isSpaceTab b with
      | false => simp [hb]
      | true => simpa [hb] using ih
  rw [startsBlankLine_cons, startsBlankLine_cons, hhead s, hhead s']

lemma spanRest?_nil {ticks run : ℕ} {s : Text} :
    spanRest? ticks run s = some [] ↔ run = ticks ∧ s.head? ≠ some '`' := by
  cases s with
  | nil => simp [spanRest?]
  | cons c cs =>
    by_cases hc : c = '`'
    · simp [spanRest?, hc]
    · by_cases hrun : run = ticks <;> simp [spanRest?, hc, hrun]

/-- The rest of a span ends in its ticks. -/
lemma exists_tick_of_spanRest? {ticks run : ℕ} (hticks : ticks ≠ 0) (hrun : run ≠ ticks) {s t : Text}
    (h : spanRest? ticks run s = some t) : ∃ w, t = w ++ ['`'] := by
  obtain ⟨-, ⟨-, heq⟩ | hlast⟩ := spanRest?_some hticks h
  · exact absurd heq hrun
  · exact ⟨_, (List.dropLast_append_getLast? _ hlast).symm⟩

lemma spanRest?_hit {ticks run : ℕ} (hticks : ticks ≠ 0) {t : Text}
    (h : spanRest? ticks run (t ++ rest) = some t) (hrest : SameStart rest rest') :
    spanRest? ticks run (t ++ rest') = some t := by
  induction t generalizing run with
  | nil =>
    obtain ⟨hrun, hhead⟩ := spanRest?_nil.mp h
    exact spanRest?_nil.mpr ⟨hrun, hrest.tick hhead⟩
  | cons c cs ih =>
    rw [List.cons_append, spanRest?] at h ⊢
    split
    · rename_i hc
      rw [if_pos hc] at h
      obtain ⟨t, ht, heq⟩ := Option.map_eq_some_iff.mp h
      obtain rfl := (List.cons.inj heq).2
      rw [ih ht]
      rfl
    · rename_i hc
      rw [if_neg hc] at h
      split at h
      · cases h
      · rename_i hrun
        rw [if_neg hrun]
        split at h
        · cases h
        · rename_i hblank
          obtain ⟨t, ht, heq⟩ := Option.map_eq_some_iff.mp h
          obtain rfl := (List.cons.inj heq).2
          obtain ⟨w, rfl⟩ := exists_tick_of_spanRest? hticks (Ne.symm hticks) ht
          rw [if_neg, ih ht]
          · rfl
          · rw [List.append_assoc] at hblank ⊢
            rwa [List.singleton_append, startsBlankLine_append (by decide) c w rest' rest]

/-- A search for ticks that fails does so with another rest in which no search goes further. -/
lemma spanRest?_miss {ticks run : ℕ} {c : Char} {s s' : Text}
    (hblank : startsBlankLine (c :: s') = startsBlankLine (c :: s))
    (hrest : ∀ run, spanRest? ticks run s = none → spanRest? ticks run s' = none)
    (h : spanRest? ticks run (c :: s) = none) : spanRest? ticks run (c :: s') = none := by
  rw [spanRest?] at h ⊢
  rw [hblank]
  split
  · rename_i hc
    rw [if_pos hc, Option.map_eq_none_iff] at h
    rw [hrest _ h]
    rfl
  · rename_i hc
    rw [if_neg hc] at h
    split
    · rename_i hrun
      rw [if_pos hrun] at h
      cases h
    · rename_i hrun
      rw [if_neg hrun] at h
      split
      · rfl
      · rename_i hnot
        rw [if_neg hnot, Option.map_eq_none_iff] at h
        rw [hrest _ h]
        rfl

lemma spanAt?_cons {ticks : Text} {c : Char} (hne : ticks ≠ []) (hticks : ∀ d ∈ ticks, d = '`') (hc : c ≠ '`')
    (cs : Text) : spanAt? (ticks ++ c :: cs) = if startsBlankLine (c :: cs) then none
      else (spanRest? ticks.length 0 cs).map fun rest => code (ticks ++ c :: rest) := by
  unfold spanAt?
  rw [spanWhile_stop (fun d hd => decide_eq_true (hticks d hd)) (decide_eq_false hc)]
  obtain ⟨d, ds, rfl⟩ := List.exists_cons_of_ne_nil hne
  rfl

lemma spanAt?_some {t : Text} (h : spanAt? t = some r) :
    ∃ ticks c cs, t = ticks ++ c :: cs ∧ ticks ≠ [] ∧ (∀ d ∈ ticks, d = '`') ∧ c ≠ '`' := by
  unfold spanAt? at h
  split at h
  · cases h
  · cases h
  · rename_i ticks c cs hticks hspan
    obtain ⟨rfl, hall⟩ := spanWhile_eq hspan
    refine ⟨ticks, c, cs, rfl, fun hnil => hticks hnil, fun d hd => of_decide_eq_true (hall d hd), ?_⟩
    rintro rfl
    have hall' : ∀ d ∈ ticks ++ ['`'], decide (d = '`') = true := by
      simpa [or_imp, forall_and] using hall
    have htake : (ticks ++ ['`'] ++ cs).takeWhile (· = '`') = ticks ++ ['`'] ++ cs.takeWhile (· = '`') :=
      List.takeWhile_append_of_pos hall'
    rw [List.append_assoc, List.singleton_append,
      show (ticks ++ '`' :: cs).takeWhile (· = '`') = ticks from (Prod.mk.inj hspan).1] at htake
    have hlength := congrArg List.length htake
    simp only [List.length_append, List.length_singleton] at hlength
    omega

lemma spanAt?_hit (h : spanAt? (r.source ++ rest) = some r) (hrest : SameStart rest rest') :
    spanAt? (r.source ++ rest') = some r := by
  obtain ⟨ticks, c, cs, hafter, hne, hticks, hc⟩ := spanAt?_some h
  rw [hafter, spanAt?_cons hne hticks hc, Option.ite_none_left_eq_some] at h
  obtain ⟨hblank, h⟩ := h
  obtain ⟨t, ht, rfl⟩ := Option.map_eq_some_iff.mp h
  have hsource : ∀ s, (code (ticks ++ c :: t)).source ++ s = ticks ++ c :: (t ++ s) := fun s => by
    rw [source, List.append_assoc, List.cons_append]
  rw [hsource] at hafter ⊢
  obtain rfl : t ++ rest = cs := (List.cons.inj (List.append_cancel_left hafter)).2
  have hlength : ticks.length ≠ 0 := fun hzero => hne (List.length_eq_zero_iff.mp hzero)
  obtain ⟨w, rfl⟩ := exists_tick_of_spanRest? hlength (Ne.symm hlength) ht
  rw [spanAt?_cons hne hticks hc, if_neg, spanRest?_hit hlength ht hrest]
  · rfl
  · rw [List.append_assoc] at hblank ⊢
    rwa [List.singleton_append, startsBlankLine_append (by decide) c w rest' rest]

end Hits

section Misses

variable {before before' line s s' : Text}

lemma rawAt?_miss (h : rawAt? before (line ++ '\n' :: s) = none) (hline : '\n' ∉ line)
    (hclose : (breakAtLine rawClose? true s).isSome = true) (hedge : SameEdge before before') :
    rawAt? before' (line ++ '\n' :: s') = none := by
  rw [rawAt?] at h ⊢
  rw [← hedge.start]
  split
  · rename_i hstart
    rw [if_pos hstart, Option.bind_eq_none_iff] at h
    rw [Option.bind_eq_none_iff]
    rintro ⟨opening, tail⟩ hopen
    obtain ⟨rfl, rfl, hblanks⟩ := (rawOpen?_line hline).mp hopen
    have hnone := h (line ++ ['\n'], s) ((rawOpen?_line hline).mpr ⟨rfl, rfl, hblanks⟩)
    rw [Option.map_eq_none_iff] at hnone
    rw [hnone] at hclose
    cases hclose
  · rfl

lemma fencedAt?_miss (h : fencedAt? before (line ++ '\n' :: s) = none) (hline : '\n' ∉ line)
    (hedge : SameEdge before before') : fencedAt? before' (line ++ '\n' :: s') = none := by
  rw [fencedAt?_line hline] at h ⊢
  rw [← hedge.start]
  split
  · rename_i hstart
    rw [if_pos hstart, Option.map_eq_none_iff] at h
    rw [h]
    rfl
  · rfl

lemma indentedAt?_miss (h : indentedAt? before (line ++ '\n' :: s) = none)
    (hedge : SameEdge before before') : indentedAt? before' (line ++ '\n' :: s') = none := by
  rw [indentedAt?_eq, startsIndented_feed] at h ⊢
  rw [← hedge.blank]
  split
  · rename_i hstart
    rw [if_pos hstart] at h
    cases h
  · rfl

end Misses

/-- The texts are the same, or their first lines are; the first text then has a line that closes a raw
fence further on. -/
def SameLine (t t' : Text) : Prop := t = t' ∨ ∃ line s s', t = line ++ '\n' :: s ∧ t' = line ++ '\n' :: s' ∧
  '\n' ∉ line ∧ (breakAtLine rawClose? true s).isSome = true

section At

variable {before before' : Text}

/-- Only a code span can start in a text that did not start a region when it went on otherwise. -/
lemma at?_miss {t t' : Text} (h : at? before t = none) (hedge : SameEdge before before')
    (hsame : SameLine t t') (hspan : spanAt? t' = none) : at? before' t' = none := by
  rcases hsame with rfl | ⟨line, s, s', rfl, rfl, hline, hclose⟩
  · rwa [← at?_edge hedge]
  · unfold at? at h ⊢
    simp only [Option.orElse_eq_orElse, Option.orElse_eq_or, Option.or_eq_none_iff] at h ⊢
    obtain ⟨hraw, hfenced, hindented, -⟩ := h
    exact ⟨rawAt?_miss hraw hline hclose hedge, fencedAt?_miss hfenced hline hedge,
      indentedAt?_miss hindented hedge, hspan⟩

section Hit

variable {r : Region} {rest rest' : Text} (h : at? before (r.source ++ rest) = some r)
  (hedge : SameEdge before before') (hrest : SameStart rest rest')
include h hedge hrest

/-- A region is read as before where nothing that is read first starts anew in its place. -/
lemma at?_hit_of_misses
    (hraw : rawAt? before (r.source ++ rest) = none → rawAt? before' (r.source ++ rest') = none)
    (hfenced : fencedAt? before (r.source ++ rest) = none → fencedAt? before' (r.source ++ rest') = none)
    (hindented : indentedAt? before (r.source ++ rest) = none → indentedAt? before' (r.source ++ rest') = none) :
    at? before' (r.source ++ rest') = some r := by
  unfold at? at h ⊢
  simp only [Option.orElse_eq_orElse, Option.orElse_eq_or, Option.or_eq_some_iff] at h ⊢
  rcases h with h | ⟨hnoRaw, h | ⟨hnoFence, h | ⟨hnoIndent, h⟩⟩⟩
  · exact .inl (rawAt?_hit h hedge hrest)
  · exact .inr ⟨hraw hnoRaw, .inl (fencedAt?_hit h hedge hrest)⟩
  · exact .inr ⟨hraw hnoRaw, .inr ⟨hfenced hnoFence, .inl (indentedAt?_hit h hedge hrest)⟩⟩
  · exact .inr ⟨hraw hnoRaw, .inr ⟨hfenced hnoFence, .inr ⟨hindented hnoIndent, spanAt?_hit h hrest⟩⟩⟩

/-- A region is read as before if the text goes on otherwise only further on. -/
lemma at?_hit (hsame : SameLine (r.source ++ rest) (r.source ++ rest')) :
    at? before' (r.source ++ rest') = some r := by
  rcases hsame with heq | ⟨line, s, s', hafter, hafter', hline, hclose⟩
  · rwa [← heq, ← at?_edge hedge]
  · refine at?_hit_of_misses h hedge hrest ?_ ?_ ?_
    · rw [hafter, hafter']
      exact fun hraw => rawAt?_miss hraw hline hclose hedge
    · rw [hafter, hafter']
      exact fun hfenced => fencedAt?_miss hfenced hline hedge
    · rw [hafter, hafter']
      exact fun hindented => indentedAt?_miss hindented hedge

end Hit

/-- Regions start with a colon, white space, or a character of a fence. -/
lemma at?_eq_none_of_head {c : Char} (hc : c ∉ [':', ' ', '\t', '`', '~']) (before t : Text) :
    at? before (c :: t) = none := by
  simp only [List.mem_cons, List.not_mem_nil, or_false, not_or] at hc
  obtain ⟨hcolon, hspace, htab, htick, htilde⟩ := hc
  have hraw : rawOpen? (c :: t) = none := by
    refine Option.eq_none_iff_forall_ne_some.mpr ?_
    rintro ⟨opening, rest⟩ hopen
    obtain ⟨blanks, rfl, heq, -⟩ := rawOpen?_eq_some.mp hopen
    exact hcolon (List.cons.inj heq).1
  have hfence : upToThreeSpaces (c :: t) = ([], c :: t) := by simp [upToThreeSpaces, hspace]
  have hindented : startsIndented (c :: t) = false := by
    rw [startsIndented_eq]
    simp [List.isPrefixOf, Ne.symm hspace, Ne.symm htab]
  unfold at?
  simp only [Option.orElse_eq_orElse, Option.orElse_eq_or, Option.or_eq_none_iff]
  refine ⟨?_, ?_, ?_, ?_⟩
  · rw [rawAt?, hraw]
    simp
  · simp [fencedAt?, hfence, htick, htilde]
  · rw [indentedAt?_eq, hindented, Bool.and_false, if_neg Bool.false_ne_true]
  · simp [spanAt?, Text.spanWhile, htick]

/-- No region starts among characters of other kinds. -/
lemma quiet_of_not_mem {t : Text} (ht : ∀ c ∈ t, c ∉ [':', ' ', '\t', '`', '~']) (before after : Text) :
    Quiet find before t after := by
  rintro u v rfl hv
  obtain ⟨c, v, rfl⟩ := List.exists_cons_of_ne_nil hv
  exact find_eq_none.mpr (at?_eq_none_of_head (ht c (by simp)) _ _)

end At

end Region

end Sitewright
