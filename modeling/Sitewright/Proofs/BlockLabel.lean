import Sitewright.Proofs.BlockTag
import Sitewright.Proofs.FencedBlock

/-!
Which label a highlighted block is given. Every tag on a page that looks like that of a highlighted block
comes from a fenced block, from an indented one, or from the author; the tags are labelled one after
another, with the languages of the lines of the source that look like fences.
-/
namespace Sitewright.Markdown

open Fence (Inert carrying findTag highlightTag labelAt labels tagAnd written)
open Text (Alternating Piece constructs pieces sourceOf)

lemma RawHtml.kept_extract (source : Text) (kept : List Text) : kept <+: (RawHtml.extract source kept).2 := by
  unfold RawHtml.extract
  extract_lets fuel
  split
  rename_i s rest hfirst
  have hs : Later { source, kept } s := by
    have h := later_pass false fuel { source, kept } source
    rwa [hfirst] at h
  split
  rename_i s' rest' hsecond
  have hs' : Later { s with source := rest } s' := by
    have h := later_pass true fuel { s with source := rest } rest
    rwa [hsecond] at h
  have hlast : Later s' (if rest'.isEmpty then s' else s'.onText rest') := by
    split
    · exact .refl s'
    · exact later_onText s' rest'
  generalize (if rest'.isEmpty then s' else s'.onText rest') = last at hlast
  refine (hs.kept.trans hs'.kept).trans (hlast.kept.trans ?_)
  dsimp only
  split
  · exact List.prefix_rfl
  · exact List.prefix_append _ _

lemma Inline.kept_read (references : References) (kept : List Text) (root : Element) :
    kept <+: (Inline.read references kept root).2 :=
  (Inline.readsKeeping references (8 * Inline.extent root + 64)).children ⟨[], kept⟩ (root.children.map (·, 0))

/-- Where a highlighted block comes from: the fenced block or the indented one with that number. -/
inductive Origin where
  | fenced (n : ℕ)
  | indented (n : ℕ)

section Source

variable (source : Text)

/-- A source as its fenced blocks are taken out of it. -/
def maskedSource : Text := (RawTable.protect (Source.normalize source)).1

/-- The fenced blocks of a source, each with its lines. -/
def fencedBlocks : List (Text × FencedCode.Block) :=
  Text.findAll FencedCode.find.withSource (maskedSource source)

/-- How much is kept of a document before its indented code. -/
def keptBefore : ℕ := (extracted (maskedSource source)).2.length

/-- All HTML that is kept of a document. -/
def keptHtml : List Text :=
  let d := Draft.ofSource source
  (Inline.read d.references d.kept d.root).2

/-- The block of code whose HTML is kept under a number. -/
def originAt (n : ℕ) : Option Origin :=
  if n < (fencedBlocks source).length then some (.fenced n)
  else if keptBefore source ≤ n ∧ n < (Draft.ofSource source).kept.length then
    some (.indented (n - keptBefore source))
  else none

/-- Kept HTML, that of a highlighted block without its tag. -/
def untagged (n : ℕ) (html : Text) : Option Origin × Text :=
  match originAt source n, highlightTag.isPrefixOf? html with
  | some o, some rest => (some o, rest)
  | _, _ => (none, html)

/-- The page of a document in whose tags of highlighted blocks a text about the block is written. -/
def htmlWith (x : Origin → Text) : Text :=
  let d := Draft.ofSource source
  let read := Inline.read d.references d.kept d.root
  let kept := ((read.2.mapIdx (untagged source)).map (Kept.opened x))
  Text.strip (Text.replace Mark.ampersand ['&'] (d.table.restore (Kept.restore kept (inner (Layout.finish read.1)))))

/-- A highlighted block is the fenced block or the indented one that it is taken for. -/
def IsBlock : Origin → Prop
  | .fenced n => ∃ block, (fencedBlocks source)[n]? = some block ∧ highlightTag <+: block.2.html ∧
      FencedCode.Opens block (FencedCode.nameOf block)
  | .indented n => ∃ code, (Draft.ofSource source).kept[keptBefore source + n]? = some (Highlight.indented code)

variable {source}

lemma kept_extract_fenced : (FencedCode.extract (maskedSource source)).2 =
    (fencedBlocks source).map fun b => b.2.html := by
  rw [FencedCode.extract, FencedCode.extractFrom_kept, List.nil_append, ← Text.map_pieces_withSource,
    Text.constructs_map, List.map_map]
  rfl

lemma kept_ofSource (source : Text) : ∃ codes : List Text, (Draft.ofSource source).kept =
    (extracted (maskedSource source)).2 ++ codes.map Highlight.indented := by
  have hkept : (Draft.ofSource source).kept = (Layout.highlight (extracted (maskedSource source)).2
      (Block.document (extracted (maskedSource source)).1).1).2 := by
    rw [Draft.ofSource, maskedSource]
  rw [hkept]
  exact Layout.exists_highlight _ _

lemma opened_untagged (n : ℕ) (html : Text) : Kept.opened (fun _ => []) (untagged source n html) = html := by
  unfold untagged
  split
  · rename_i o rest _ hrest
    rw [List.isPrefixOf?_eq_some_iff_append_eq] at hrest
    rw [Kept.opened, Fence.tagAnd_nil, hrest]
  · rfl

lemma htmlWith_nil : htmlWith source (fun _ => []) = (Draft.ofSource source).html := by
  have hkept : ∀ kept : List Text, (kept.mapIdx (untagged source)).map (Kept.opened fun _ => []) = kept := by
    intro kept
    refine List.ext_getElem? fun n => ?_
    rw [List.getElem?_map, List.getElem?_mapIdx, Option.map_map]
    simp only [Function.comp_def, opened_untagged, Option.map_id']
  rw [htmlWith]
  simp only [hkept]
  rfl

/-- What is kept of fenced blocks comes first, that of indented ones is added later, and all stays. -/
lemma kept_prefixes (source : Text) : ((fencedBlocks source).map fun b => b.2.html) <+: (extracted (maskedSource source)).2 ∧
    (extracted (maskedSource source)).2 <+: (Draft.ofSource source).kept ∧
    (Draft.ofSource source).kept <+: keptHtml source := by
  refine ⟨?_, ?_, Inline.kept_read _ _ _⟩
  · rw [← kept_extract_fenced, extracted]
    exact RawHtml.kept_extract _ _
  · obtain ⟨codes, hcodes⟩ := kept_ofSource source
    rw [hcodes]
    exact List.prefix_append _ _

lemma exists_getElem?_append {α β : Type} {f : α → β} {xs : List β} {ys : List α} {n : ℕ} (hle : xs.length ≤ n)
    (hlt : n < (xs ++ ys.map f).length) : ∃ y, (xs ++ ys.map f)[xs.length + (n - xs.length)]? = some (f y) := by
  rw [List.length_append, List.length_map] at hlt
  have hy : n - xs.length < ys.length := by omega
  refine ⟨ys[n - xs.length], ?_⟩
  rw [List.getElem?_append_right (Nat.le_add_right _ _), Nat.add_sub_cancel_left, List.getElem?_map,
    List.getElem?_eq_getElem hy]
  rfl

lemma isBlock_of_mem {o : Origin} {rest : Text}
    (h : (some o, rest) ∈ (keptHtml source).mapIdx (untagged source)) : IsBlock source o := by
  obtain ⟨n, hn, huntagged⟩ := List.mem_mapIdx.mp h
  obtain ⟨hfenced, hraw, hkept⟩ := kept_prefixes source
  have hhtml : (keptHtml source)[n]? = some (keptHtml source)[n] := List.getElem?_eq_getElem hn
  generalize (keptHtml source)[n] = html at huntagged hhtml
  unfold untagged at huntagged
  split at huntagged
  · rename_i o' rest' horigin hrest
    obtain ⟨rfl, rfl⟩ : o' = o ∧ rest' = rest := by simpa using huntagged
    rw [List.isPrefixOf?_eq_some_iff_append_eq] at hrest
    unfold originAt at horigin
    split at horigin
    · rename_i hlt
      obtain rfl := Option.some.inj horigin
      have hblock := List.getElem?_eq_getElem hlt
      have hkeptBlock : ((fencedBlocks source).map fun b => b.2.html)[n]? =
          some (fencedBlocks source)[n].2.html := by
        rw [List.getElem?_map, hblock]
        rfl
      have hsame := getElem?_mono hkept (getElem?_mono hraw (getElem?_mono hfenced hkeptBlock))
      obtain rfl := Option.some.inj (hhtml.symm.trans hsame)
      exact ⟨_, hblock, ⟨rest', hrest⟩, FencedCode.opens_of_mem (List.mem_of_getElem? hblock)⟩
    · obtain ⟨⟨hle, hlt⟩, horigin⟩ := Option.ite_none_right_eq_some.mp horigin
      obtain rfl := Option.some.inj horigin
      obtain ⟨codes, hcodes⟩ := kept_ofSource source
      unfold IsBlock
      unfold keptBefore at hle ⊢
      rw [hcodes] at hlt ⊢
      exact exists_getElem?_append hle hlt
  · cases huntagged

/-- The tags in which something is written about a block are those of highlighted blocks, and around them
the page is the same whatever is written. -/
lemma exists_htmlWith (source : Text) : ∃ ps, Alternating ps ∧ (∀ o ∈ constructs ps, IsBlock source o) ∧
    ∀ x, (∀ o, Inert (x o)) → htmlWith source x = written x ps := by
  have hnonce : ∀ c ∈ (Draft.ofSource source).table.nonce, c ∈ Digest.digits := by
    have htable : (Draft.ofSource source).table = (RawTable.protect (Source.normalize source)).2 := by
      rw [Draft.ofSource]
    rw [htable, nonce_protect]
    exact RawTable.nonceOf_mem
  have hsplits := Fence.splits_replace.comp (Fence.splits_restore hnonce)
  obtain ⟨ps, hmem, hrestored⟩ := Kept.exists_restore ((keptHtml source).mapIdx (untagged source))
    (inner (Layout.finish (Inline.read (Draft.ofSource source).references (Draft.ofSource source).kept
      (Draft.ofSource source).root).1))
  have halternating := Text.alternating_joined ps
  obtain ⟨ps', hps', hconstructs, hstrip⟩ :=
    Fence.exists_strip_written (Fence.alternating_edited _ halternating)
  refine ⟨ps', hps', fun o ho => ?_, fun x hx => ?_⟩
  · rw [hconstructs, Fence.constructs_edited, Text.constructs_joined] at ho
    obtain ⟨rest, hrest⟩ := hmem o ho
    exact isBlock_of_mem hrest
  · have hjoined : written x (Text.joined ps) = written x ps := Text.sourceOf_joined _ ps
    rw [← hstrip, ← hsplits.written_eq halternating hx, hjoined, ← hrestored x hx]
    rfl

end Source

section Page

variable (body : Text)

/-- The page of a body before its blocks are labelled, with a text about each block in the block's tag. -/
def compileWith (x : Origin → Text) : Text :=
  let source := Fence.normalize body
  if Text.isBlankText source then [] else htmlWith source x

/-- How the tag of a highlighted block is written: with what is said about the block, or bare if it belongs to
no block. -/
def opening (x : Origin → Text) : Option Origin → Text
  | some o => tagAnd (x o)
  | none => highlightTag

/-- The tags of highlighted blocks on the page of a body, each with the block it opens. A text that is
written about a block shows in the tags said to be the block's and nowhere else; no other place of the page
looks like such a tag. A block with classes of its own opens otherwise, so it is none of these. -/
structure Shows (tags : List (Piece (Option Origin))) : Prop where
  page : ∀ x, (∀ o, Inert (x o)) → compileWith body x = sourceOf (opening x) tags
  pieces : pieces findTag (compileWith body fun _ => []) = tags.map (Piece.map fun _ => ())
  blocks : ∀ o, some o ∈ constructs tags → IsBlock (Fence.normalize body) o

/-- What a label should be: the language that the opening line of the block names, `text` or no label on an
indented block. Nothing is said of a tag that belongs to no block. -/
def Fits : Option Origin → Option Text → Prop
  | some (.fenced n), label =>
    ∃ block, (fencedBlocks (Fence.normalize body))[n]? = some block ∧ label = some (FencedCode.languageOf block)
  | some (.indented _), label => ∀ language ∈ label, language = "text".toList
  | none, _ => True

/-- The page of a body is labelled as it should be. -/
def RightlyLabelled (tags : List (Piece (Option Origin))) : Prop :=
  ∃ given, given.length = (constructs tags).length ∧ compile body = carrying given tags ∧
    List.Forall₂ (Fits body) (constructs tags) given

variable {body}

lemma compile_eq : compile body =
    Fence.labelLanguages (compileWith body fun _ => []) (Fence.normalize body) := by
  rw [compile, compileWith]
  split
  · rw [Fence.labelLanguages]
    split <;> rfl
  · rw [htmlWith_nil]

lemma exists_compileWith (body : Text) : ∃ ps, Alternating ps ∧
    (∀ o ∈ constructs ps, IsBlock (Fence.normalize body) o) ∧
    ∀ x, (∀ o, Inert (x o)) → compileWith body x = written x ps := by
  by_cases hblank : Text.isBlankText (Fence.normalize body) = true
  · refine ⟨_, .last [], fun o ho => absurd ho List.not_mem_nil, fun x _ => ?_⟩
    rw [compileWith, if_pos hblank]
    rfl
  · obtain ⟨ps, hps, hblocks, hpage⟩ := exists_htmlWith (Fence.normalize body)
    refine ⟨ps, hps, hblocks, fun x hx => ?_⟩
    rw [compileWith, if_neg hblank]
    exact hpage x hx

/-- A page cut at the tags of its blocks, cut at the other tags as well. -/
def openings : Piece Origin → List (Piece (Option Origin))
  | .plain t => (pieces findTag t).map (Piece.map fun _ => none)
  | .found o => [.found (some o)]

lemma sourceOf_openings (x : Origin → Text) (ps : List (Piece Origin)) :
    sourceOf (opening x) (ps.flatMap openings) = written x ps := by
  have hforeign : ∀ qs : List (Piece Unit), sourceOf (opening x) (qs.map (Piece.map fun _ => none)) =
      sourceOf (fun _ => highlightTag) qs := by
    intro qs
    induction qs with
    | nil => rfl
    | cons q qs ih =>
      rw [List.map_cons, Text.sourceOf_cons, ih, Text.sourceOf_cons]
      cases q <;> rfl
  induction ps with
  | nil => rfl
  | cons p ps ih =>
    have hcons : written x (p :: ps) = Piece.source (fun o => tagAnd (x o)) p ++ written x ps :=
      Text.sourceOf_cons _ p ps
    rw [List.flatMap_cons, Text.sourceOf_append, ih, hcons]
    refine congrArg (· ++ written x ps) ?_
    cases p with
    | plain t => exact (hforeign _).trans (Text.sourceOf_pieces Fence.exact_findTag t)
    | found o => exact List.append_nil _

lemma map_openings_plain (t : Text) : (openings (.plain t)).map (Piece.map fun _ => ()) = pieces findTag t := by
  rw [openings, List.map_map]
  refine List.map_id'' (fun p => ?_) _
  cases p <;> rfl

lemma pieces_written {ps : List (Piece Origin)} (hps : Alternating ps) :
    pieces findTag (written (fun _ => []) ps) = (ps.flatMap openings).map (Piece.map fun _ => ()) := by
  induction hps with
  | last t => rw [Fence.written_last, List.flatMap_singleton, map_openings_plain]
  | step t o h ih =>
    rw [Fence.written_step, Fence.tagAnd_nil, Fence.pieces_tag, ih, List.flatMap_cons, List.map_append,
      map_openings_plain, List.flatMap_cons, List.map_append]
    rfl

lemma constructs_openings {o : Origin} {ps : List (Piece Origin)}
    (h : some o ∈ constructs (ps.flatMap openings)) : o ∈ constructs ps := by
  rw [Text.mem_constructs] at h ⊢
  obtain ⟨p, hp, hfound⟩ := List.mem_flatMap.mp h
  cases p with
  | plain t =>
    obtain ⟨_ | _, -, hforeign⟩ := List.mem_map.mp hfound <;> cases hforeign
  | found o' =>
    obtain rfl := Option.some.inj (Piece.found.inj (List.mem_singleton.mp hfound))
    exact hp

lemma exists_shows (body : Text) : ∃ tags, Shows body tags := by
  obtain ⟨ps, hps, hblocks, hpage⟩ := exists_compileWith body
  refine ⟨ps.flatMap openings, fun x hx => ?_, ?_, fun o ho => hblocks o (constructs_openings ho)⟩
  · rw [hpage x hx, sourceOf_openings]
  · rw [hpage _ fun _ => Fence.inert_nil, pieces_written hps]

lemma Shows.compile_eq {tags : List (Piece (Option Origin))} (h : Shows body tags) : compile body =
    carrying (labels (Fence.languages (Fence.normalize body)) (constructs tags).length) tags := by
  rw [Markdown.compile_eq, Fence.labelLanguages_eq, h.pieces, Fence.carrying_map, Text.constructs_map,
    List.length_map]

lemma length_labels (langs : List Text) (count : ℕ) : (labels langs count).length = count := by
  rw [labels, List.length_map, List.length_range]

/-- A relation to the labels is one to the label at each place. -/
lemma forall₂_labels {α : Type} {R : α → Option Text → Prop} {langs : List Text} {vs : List α} :
    List.Forall₂ R vs (labels langs vs.length) ↔ ∀ k v, vs[k]? = some v → R v (labelAt langs k) := by
  rw [List.forall₂_iff_get]
  simp only [labels, List.get_eq_getElem, List.getElem_map, List.getElem_range]
  constructor
  · rintro ⟨-, h⟩ k v hv
    obtain ⟨hk, rfl⟩ := List.getElem?_eq_some_iff.mp hv
    exact h k hk (by simpa using hk)
  · exact fun h => ⟨(length_labels langs vs.length).symm, fun k hk _ => h k _ (List.getElem?_eq_getElem hk)⟩

lemma Shows.given_iff {tags : List (Piece (Option Origin))} (h : Shows body tags)
    {given : List (Option Text)} (hlength : given.length = (constructs tags).length) :
    compile body = carrying given tags ↔
      given = labels (Fence.languages (Fence.normalize body)) (constructs tags).length := by
  rw [h.compile_eq]
  constructor
  · exact fun heq => (Fence.carrying_injective (length_labels _ _) hlength heq).symm
  · rintro rfl
    rfl

lemma Shows.rightlyLabelled_iff {tags : List (Piece (Option Origin))} (h : Shows body tags) :
    RightlyLabelled body tags ↔ ∀ k o, (constructs tags)[k]? = some o →
      Fits body o (labelAt (Fence.languages (Fence.normalize body)) k) := by
  rw [← forall₂_labels]
  constructor
  · rintro ⟨given, hlength, hcompile, hfits⟩
    obtain rfl := (h.given_iff hlength).mp hcompile
    exact hfits
  · exact fun hfits => ⟨_, length_labels _ _, h.compile_eq, hfits⟩

/-- The blocks of a page are labelled with the languages of the source's fences by their places alone. So a
page is labelled as it should be exactly if the language at the place of each tag fits the block it opens. -/
theorem compile_labels (body : Text) : ∃ tags, Shows body tags ∧
    (∀ given : List (Option Text), given.length = (constructs tags).length →
      (compile body = carrying given tags ↔
        given = labels (Fence.languages (Fence.normalize body)) (constructs tags).length)) ∧
    (RightlyLabelled body tags ↔ ∀ k o, (constructs tags)[k]? = some o →
      Fits body o (labelAt (Fence.languages (Fence.normalize body)) k)) := by
  obtain ⟨tags, htags⟩ := exists_shows body
  exact ⟨tags, htags, fun given hlength => htags.given_iff hlength, htags.rightlyLabelled_iff⟩

end Page

end Sitewright.Markdown
