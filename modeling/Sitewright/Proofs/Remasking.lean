import Mathlib.Data.List.Infix
import Sitewright.Proofs.NestedLink
import Sitewright.Proofs.SetApart
import Sitewright.Proofs.Splitting

/-!
Masking twice. A masked text is left as it is by another masking unless masking has brought something up in it: raw
fences that the token of another fence takes out of code, or links around a link in their address.
-/
namespace Sitewright.RawTable

open Text (Piece Scanned Worded sourceOf)
open Hypermedia (Link)
open Region (WordedPiece)

/-- A raw fence that masking would take out of the text. -/
def LiveFence (t : Text) : Prop := ∃ source html, .found (.raw source html) ∈ Text.pieces Region.find t

/-- A link outside of code that masking would take out of the text, if it has no raw fences. -/
def LiveLink (t : Text) : Prop := ∃ p, .plain p ∈ Text.pieces Region.find t ∧ Text.findAll Link.find p ≠ []

/-- Masking leaves a text as it is just if it has neither raw fences nor links outside of code. -/
lemma protect_eq_self_iff {t : Text} : protect t = (t, ⟨nonceOf t, []⟩) ↔ ¬ LiveFence t ∧ ¬ LiveLink t := by
  have hfence : (fenceCut t).constructs = [] ↔ ¬ LiveFence t := by
    simp [fenceCut, constructs_fenced_eq_nil, LiveFence]
  have hmasked (hnil : (fenceCut t).constructs = []) : (fenceCut t).masked = t := by
    rw [Segments.masked_of_constructs hnil, fenceCut, source_fenced, Text.sourceOf_pieces Region.find_exact]
  have hlink (hnil : (fenceCut t).constructs = []) : (linkCut t).constructs = [] ↔ ¬ LiveLink t := by
    rw [linkCut, hmasked hnil, constructs_prose_eq_nil]
    simp [LiveLink]
  constructor
  · intro h
    have hentries : ((fenceCut t).constructs ++ (linkCut t).constructs).map Construct.entry = [] := by
      have htable := congrArg (fun r => r.2.entries) h
      simpa [protect_eq, extend] using htable
    obtain ⟨hnil, hnil'⟩ := List.append_eq_nil_iff.mp (List.map_eq_nil_iff.mp hentries)
    exact ⟨hfence.mp hnil, (hlink hnil).mp hnil'⟩
  · rintro ⟨hraw, hlinks⟩
    have hnil := hfence.mpr hraw
    have hnil' := (hlink hnil).mpr hlinks
    have hsource : (linkCut t).masked = t := by
      rw [Segments.masked_of_constructs hnil', linkCut, source_prose, Text.sourceOf_pieces Region.find_exact,
        hmasked hnil]
    rw [protect_eq, hsource, hnil, hnil']
    rfl

section Links

lemma masked_linked_plain (nonce : Text) (n : ℕ) (t : Text) (ps : List (Piece Link)) :
    (linked nonce n (.plain t :: ps)).masked = t ++ (linked nonce n ps).masked := Segments.masked_prepend ..

lemma masked_linked_found (nonce : Text) (n : ℕ) (l : Link) (ps : List (Piece Link)) :
    (linked nonce n (.found l :: ps)).masked = inlineToken nonce n ++ (linked nonce (n + 1) ps).masked := rfl

variable {nonce : Text} (hnonce : ∀ c ∈ nonce, c ∈ Digest.digits)
include hnonce

lemma isWord_inlineToken (n : ℕ) : Text.IsWord (inlineToken nonce n) :=
  ⟨rfl, fun _ => mem_letters_of_mem_inlineToken hnonce⟩

lemma fills_linked (n : ℕ) (ps : List (Piece Link)) : Fills Text.IsWord (skeleton ps) (linked nonce n ps).masked := by
  induction ps generalizing n with
  | nil => exact .nil
  | cons p ps ih =>
    cases p with
    | plain t =>
      rw [masked_linked_plain]
      exact (Fills.plain t).append (ih n)
    | found l =>
      rw [masked_linked_found]
      exact .fill (isWord_inlineToken hnonce n) (ih (n + 1))

lemma worded_linked (n : ℕ) {before : Text} {ps : List (Piece Link)} (h : Scanned Link.find Link.source before ps) :
    Worded (sourceOf Link.source ps) (linked nonce n ps).masked := by
  induction h generalizing n with
  | last hquiet =>
    rw [masked_linked_plain]
    exact (Worded.refl _).append .nil
  | step hquiet hfind hps ih =>
    rw [masked_linked_plain, masked_linked_found]
    exact (Worded.refl _).append (.word (wellFormed_of_find hfind) (isWord_inlineToken hnonce n) (ih (n + 1)))

/-- The pieces of a text with tokens for the links in its prose. -/
def maskedPieces (nonce : Text) : ℕ → List (Piece Region) → List (Piece Region)
  | _, [] => []
  | n, .plain p :: ps =>
    let links := linked nonce n (Text.pieces Link.find p)
    .plain links.masked :: maskedPieces nonce (n + links.constructs.length) ps
  | n, .found r :: ps => .found r :: maskedPieces nonce n ps

omit hnonce in
lemma sourceOf_maskedPieces (n : ℕ) (ps : List (Piece Region)) :
    sourceOf Region.source (maskedPieces nonce n ps) = (prose nonce n ps).masked := by
  induction ps generalizing n with
  | nil => rfl
  | cons p ps ih =>
    cases p with
    | plain p => rw [maskedPieces, prose, Text.sourceOf_cons, ih, Segments.masked_append]; rfl
    | found r => rw [maskedPieces, prose, Text.sourceOf_cons, ih, Segments.masked_prepend]; rfl

lemma worded_maskedPieces (n : ℕ) (ps : List (Piece Region)) :
    List.Forall₂ WordedPiece ps (maskedPieces nonce n ps) := by
  induction ps generalizing n with
  | nil => exact .nil
  | cons p ps ih =>
    cases p with
    | plain p =>
      obtain ⟨hsource, hscanned⟩ := (Text.pieces_eq_iff Link.find_exact).mp (rfl : Text.pieces Link.find p = _)
      have hworded := worded_linked hnonce n hscanned
      rw [hsource] at hworded
      exact .cons (.plain hworded) (ih _)
    | found r => exact .cons (.found r) (ih n)

omit hnonce in
lemma found_mem_maskedPieces {n : ℕ} {ps : List (Piece Region)} {r : Region} :
    .found r ∈ maskedPieces nonce n ps ↔ .found r ∈ ps := by
  induction ps generalizing n with
  | nil => simp [maskedPieces]
  | cons p ps ih => cases p <;> simp [maskedPieces, ih]

/-- Behind the masking of links, a stretch has links just if it nests them. -/
lemma exists_link_maskedPieces {n : ℕ} {ps : List (Piece Region)} :
    (∃ t, .plain t ∈ maskedPieces nonce n ps ∧ Text.findAll Link.find t ≠ []) ↔ ∃ p, .plain p ∈ ps ∧ Nests p := by
  induction ps generalizing n with
  | nil => simp [maskedPieces]
  | cons p ps ih =>
    cases p with
    | plain p =>
      have hhead := findAll_ne_nil_iff_nests (fills_linked hnonce n (Text.pieces Link.find p))
      simp only [maskedPieces, List.mem_cons, Piece.plain.injEq, or_and_right, exists_or, exists_eq_left, ih, hhead]
    | found r => simp [maskedPieces, ih]

end Links

/-- The body with tokens for its raw fences, in which links are looked for. -/
def fencesMasked (body : Text) : Text := (maskFences ⟨nonceOf body, []⟩ (Text.pieces Region.find body)).1

lemma fencesMasked_eq (body : Text) : fencesMasked body = (fenceCut body).masked :=
  congrArg Prod.fst (maskFences_eq ⟨nonceOf body, []⟩ (Text.pieces Region.find body))

/-- Masking links leaves regions as they are. -/
lemma pieces_protect (body : Text) : Text.pieces Region.find (protect body).1 =
    maskedPieces (nonceOf body) (fenceCut body).constructs.length (Text.pieces Region.find (fencesMasked body)) := by
  obtain ⟨-, hscanned⟩ :=
    (Text.pieces_eq_iff Region.find_exact).mp (rfl : Text.pieces Region.find (fencesMasked body) = _)
  refine (Text.pieces_eq_iff Region.find_exact).mpr ⟨?_, ?_⟩
  · rw [sourceOf_maskedPieces, protect_eq, linkCut, fencesMasked_eq]
  · exact Region.scanned_worded hscanned (worded_maskedPieces nonceOf_mem _ _) (.refl [])

section Addresses

/-- Does an address with a bracket in it begin here? -/
def opensInAddressAt : Text → Bool
  | ']' :: '(' :: t => (Text.spanWhile (fun c => c ≠ ')' && !Text.isBlank c) t).1.contains '['
  | _ => false

/-- Is there an address with a bracket in it? -/
def opensInAddress (t : Text) : Bool := t.tails.any opensInAddressAt

variable {a t : Text}

lemma opensInAddress_of_infix (ha : ∀ c ∈ a, c ≠ ')' ∧ Text.isBlank c = false)
    (h : "](".toList ++ a ++ ['['] <:+: t) : opensInAddress t = true := by
  obtain ⟨u, v, rfl⟩ := h
  have haddress : ∀ c ∈ a, (c ≠ ')' && !Text.isBlank c) = true := by simpa using ha
  have hopens : (('[' : Char) ≠ ')' && !Text.isBlank '[') = true := by decide
  refine List.any_eq_true.mpr ⟨']' :: '(' :: (a ++ '[' :: v), ?_, ?_⟩
  · exact (List.mem_tails _ _).mpr ⟨u, by simp⟩
  · rw [opensInAddressAt, Text.spanWhile, List.takeWhile_append_of_pos haddress, List.takeWhile_cons, if_pos hopens]
    simp

/-- What nests a link opens a bracket in an address. -/
lemma Nests.address {p : Text} (h : Nests p) :
    ∃ a : Text, (∀ c ∈ a, c ≠ ')' ∧ Text.isBlank c = false) ∧ "](".toList ++ a ++ ['['] <:+: p := by
  obtain ⟨u, o, rest, hskeleton, -, ho⟩ := h
  obtain ⟨hsource, hscanned⟩ := (Text.pieces_eq_iff Link.find_exact).mp (rfl : Text.pieces Link.find p = _)
  have hfills := fills_source hscanned
  rw [hsource, hskeleton] at hfills
  obtain ⟨x, y, rfl, -, hy⟩ := Fills.append_iff.mp hfills
  obtain ⟨text, url, block, z, rfl, -, hurl, -⟩ := Outer.of_fills hy
  obtain ⟨front, l, back, rfl, -, hfront⟩ := exists_link_of_hole hurl ho.hole
  refine ⟨front, fun c hc => ho.url c (hfront c hc), x ++ '[' :: text, ?_, ?_⟩
  · exact l.text ++ "](".toList ++ l.url ++ ")\x7b".toList ++ l.block ++ "\x7d".toList ++ back ++ ')' :: '\x7b' ::
      (block ++ '\x7d' :: z)
  · simp [Link.source]

/-- What stands in one line of the masked text and holds a bracket is part of the text as written. -/
lemma Segments.FencesOnly.infix_source {nonce x : Text} {s : Segments} (hs : s.FencesOnly nonce)
    (hnonce : ∀ c ∈ nonce, c ∈ Digest.digits) (hfeed : '\n' ∉ x) (hbracket : '[' ∈ x) (h : x <:+: s.masked) :
    x <:+: s.source := by
  induction s with
  | last t => exact h
  | step t c rest ih =>
    obtain ⟨n, source, html, rfl⟩ := hs c List.mem_cons_self
    have hmasked : masked (.step t (.fence (blockToken nonce n) source html) rest) =
        t ++ '\n' :: ('\n' :: blockToken nonce n ++ '\n' :: ([] ++ '\n' :: rest.masked)) := by
      simp [masked, Construct.masked]
    have hmiss : ∀ {frame : Text}, '[' ∉ frame → ¬ x <:+: frame := fun hframe hin => hframe (hin.subset hbracket)
    have htoken := (isToken_blockToken nonce n).not_mem hnonce (show '[' ∈ ['\n', '[', '&'] by simp)
    rw [hmasked] at h
    have hparts : x <:+: t ∨ x <:+: rest.masked := by
      refine (Text.infix_append_cons hfeed h).imp_right fun h => ?_
      have h := (Text.infix_append_cons hfeed h).resolve_left (hmiss (by simp [htoken]))
      exact (Text.infix_append_cons hfeed h).resolve_left (hmiss (by simp))
    rcases hparts with h | h
    · exact h.trans (List.prefix_append _ _).isInfix
    · have hrest := ih (fun c hc => hs c (List.mem_cons_of_mem _ hc)) h
      exact hrest.trans ((List.suffix_append _ _).trans (List.suffix_append _ _)).isInfix

/-- If a stretch nests a link behind the masking of fences, the body has an address with a bracket in it. -/
lemma opensInAddress_of_nests {body p : Text} (hp : .plain p ∈ Text.pieces Region.find (fencesMasked body))
    (h : Nests p) : opensInAddress body = true := by
  obtain ⟨a, ha, hin⟩ := h.address
  have hpart : p <:+: fencesMasked body := by
    rw [← Text.sourceOf_pieces Region.find_exact (fencesMasked body)]
    exact List.infix_of_mem_flatten (List.mem_map_of_mem (f := Piece.source Region.source) hp)
  have hfeed : '\n' ∉ "](".toList ++ a ++ ['['] := by
    have hline : '\n' ∉ a := fun hmem => absurd (ha _ hmem).2 (by decide)
    simp [hline]
  have hsource := (fencesOnly_fenced (nonceOf body) 0 (Text.pieces Region.find body)).infix_source nonceOf_mem hfeed
    (by simp) (fencesMasked_eq body ▸ hin.trans hpart)
  rw [source_fenced, Text.sourceOf_pieces Region.find_exact] at hsource
  exact opensInAddress_of_infix ha hsource

end Addresses

/-- Masking a masked text again finds nothing just if masking has brought nothing up: no raw fence of the text in
which links are looked for, and no link around another one in a stretch of it. Neither comes up if no indented line
stands right below a raw fence and no bracket in an address. -/
theorem protect_protect (body : Text) :
    (protect (protect body).1 = ((protect body).1, ⟨nonceOf (protect body).1, []⟩) ↔
      ¬ LiveFence (protect body).1 ∧ ¬ LiveLink (protect body).1) ∧
    (LiveFence (protect body).1 ↔ LiveFence (fencesMasked body)) ∧
    (LiveLink (protect body).1 ↔ ∃ p, .plain p ∈ Text.pieces Region.find (fencesMasked body) ∧ Nests p) ∧
    (setApart (Text.pieces Region.find body) = true → ¬ LiveFence (protect body).1) ∧
    (opensInAddress body = false → ¬ LiveLink (protect body).1) := by
  have hfence : LiveFence (protect body).1 ↔ LiveFence (fencesMasked body) := by
    simp only [LiveFence, pieces_protect, found_mem_maskedPieces]
  have hlink : LiveLink (protect body).1 ↔
      ∃ p, .plain p ∈ Text.pieces Region.find (fencesMasked body) ∧ Nests p := by
    rw [LiveLink, pieces_protect]
    exact exists_link_maskedPieces nonceOf_mem
  refine ⟨protect_eq_self_iff, hfence, hlink, fun hapart hlive => ?_, fun hopens hlive => ?_⟩
  · obtain ⟨source, html, hraw⟩ := hfence.mp hlive
    rw [fencesMasked_eq] at hraw
    exact raw_not_mem_fenceCut hapart source html hraw
  · obtain ⟨p, hp, hnests⟩ := hlink.mp hlive
    rw [opensInAddress_of_nests hp hnests] at hopens
    cases hopens

/-- A link, a raw fence and a block of code. -/
def mixedBody : Text := "See [docs](/d)\x7bget\x7d.\n:::html\n<hr>\n:::\n\n    [code](/c)\x7bpost\x7d\n".toList

theorem protect_protect_mixedBody :
    setApart (Text.pieces Region.find mixedBody) = true ∧ opensInAddress mixedBody = false ∧
      protect (protect mixedBody).1 = ((protect mixedBody).1, ⟨nonceOf (protect mixedBody).1, []⟩) := by
  have hapart : setApart (Text.pieces Region.find mixedBody) = true := by decide +kernel
  have hopens : opensInAddress mixedBody = false := by decide +kernel
  obtain ⟨hself, -, -, hfence, hlink⟩ := protect_protect mixedBody
  exact ⟨hapart, hopens, hself.mpr ⟨hfence hapart, hlink hopens⟩⟩

/-- The line below the first fence is code below its token, and no code span hides the second fence any more. -/
example : setApart (Text.pieces Region.find
    ":::html\nx\n:::\n    a ` b\n:::html\ny\n:::\nc ` d".toList) = false := by decide +kernel

/-- A link in what becomes an address with its token. -/
example : opensInAddress "[x]([a b](u)\x7bget\x7d)\x7bpost\x7d".toList = true := by decide +kernel

end Sitewright.RawTable
