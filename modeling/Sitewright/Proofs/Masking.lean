import Mathlib.Data.List.Nodup
import Sitewright.Proofs.Segments

/-!
Masking as a cut into segments. The first pass cuts at the fences, the second one at the links of
what the first pass left.
-/
namespace Sitewright.Text

variable {α : Type}

/-- Between two constructs there is one plain stretch. -/
inductive Alternating : List (Piece α) → Prop
  | last (t : Text) : Alternating [.plain t]
  | step (t : Text) (v : α) {ps : List (Piece α)} (h : Alternating ps) :
      Alternating (.plain t :: .found v :: ps)

lemma alternating_piecesFrom (find : Finder α) (before plain : Text) (n : ℕ) (t : Text) :
    Alternating (piecesFrom find before plain n t) := by
  induction t generalizing before plain n with
  | nil => cases n <;> exact .last _
  | cons c cs ih =>
    cases n with
    | succ n => exact ih _ _ _
    | zero =>
      unfold piecesFrom
      split
      · exact .step _ _ (ih _ _ _)
      · exact ih _ _ _

lemma alternating_pieces (find : Finder α) (t : Text) : Alternating (pieces find t) :=
  alternating_piecesFrom find [] [] 0 t

/-- A construct, or the end of the text, is on both sides of a plain stretch. -/
lemma Alternating.around {front back : List (Piece α)} {t : Text} (h : Alternating (front ++ .plain t :: back)) :
    (front = [] ∨ ∃ lead v, front = lead ++ [.found v]) ∧ (back = [] ∨ ∃ v trail, back = .found v :: trail) := by
  generalize hps : front ++ .plain t :: back = ps at h
  induction h generalizing front with
  | last u =>
    cases front with
    | nil => exact ⟨.inl rfl, .inl (List.cons.inj hps).2⟩
    | cons p front => simp at hps
  | @step u v ps h ih =>
    match front with
    | [] => exact ⟨.inl rfl, .inr ⟨v, ps, (List.cons.inj hps).2⟩⟩
    | [p] => cases (List.cons.inj (List.cons.inj hps).2).1
    | p :: q :: front =>
      obtain ⟨-, htail⟩ := List.cons.inj hps
      obtain ⟨rfl, hrest⟩ := List.cons.inj htail
      obtain ⟨hfront, hback⟩ := ih hrest
      refine ⟨.inr ?_, hback⟩
      rcases hfront with rfl | ⟨lead, w, rfl⟩
      · exact ⟨[p], v, rfl⟩
      · exact ⟨p :: .found v :: lead, w, rfl⟩

end Sitewright.Text

namespace Sitewright.Region

lemma fencedAt?_ne_raw (before after source html : Text) :
    fencedAt? before after ≠ some (.raw source html) := by
  intro h
  unfold fencedAt? at h
  dsimp only at h
  repeat' split at h
  all_goals cases h

/-- Only the raw fence pattern finds raw fences. -/
lemma rawAt?_of_at? {before after source html : Text} (h : at? before after = some (.raw source html)) :
    rawAt? before after = some (.raw source html) := by
  unfold at? at h
  simp only [Option.orElse_eq_orElse, Option.orElse_eq_or, Option.or_eq_some_iff] at h
  rcases h with h | ⟨-, h | ⟨-, h | ⟨-, h⟩⟩⟩
  · exact h
  · exact absurd h (fencedAt?_ne_raw _ _ _ _)
  · simp [indentedAt?] at h
  · unfold spanAt? at h
    split at h
    · cases h
    · cases h
    · split at h
      · cases h
      · obtain ⟨_, -, h⟩ := Option.map_eq_some_iff.mp h
        cases h

end Sitewright.Region

namespace Sitewright.RawTable
open Text (Piece sourceOf Located Alternating)
open Hypermedia (Link)

/-- The cut at the fences, which are numbered from `n` on. -/
def fenced (nonce : Text) : ℕ → List (Piece Region) → Segments
  | _, [] => .last []
  | n, .plain p :: ps => (fenced nonce n ps).prepend p
  | n, .found (.raw source html) :: ps =>
    .step [] (.fence (blockToken nonce n) source html) (fenced nonce (n + 1) ps)
  | n, .found (.code s) :: ps => (fenced nonce n ps).prepend s

/-- The cut of a plain stretch at its links. -/
def linked (nonce : Text) : ℕ → List (Piece Link) → Segments
  | _, [] => .last []
  | n, .plain p :: ps => (linked nonce n ps).prepend p
  | n, .found l :: ps => .step [] (.link (inlineToken nonce n) l) (linked nonce (n + 1) ps)

/-- The cut of a body at the links in its plain stretches. -/
def prose (nonce : Text) : ℕ → List (Piece Region) → Segments
  | _, [] => .last []
  | n, .plain p :: ps =>
    let links := linked nonce n (Text.pieces Link.find p)
    links ++ prose nonce (n + links.constructs.length) ps
  | n, .found r :: ps => (prose nonce n ps).prepend r.source

/-- The table with further constructs. -/
def extend (table : RawTable) (cs : List Construct) : RawTable :=
  { table with entries := table.entries ++ cs.map Construct.entry }

lemma maskFences_eq (table : RawTable) (ps : List (Piece Region)) :
    maskFences table ps = ((fenced table.nonce table.size ps).masked,
      table.extend (fenced table.nonce table.size ps).constructs) := by
  induction ps generalizing table with
  | nil => simp [maskFences, fenced, Segments.masked, Segments.constructs, extend]
  | cons p ps ih =>
    rcases p with p | ⟨source, html⟩ | s
    · simp [maskFences, fenced, ih]
    · simp [maskFences, fenced, ih, add, size, extend, Segments.masked, Segments.constructs,
        Construct.masked, Construct.entry, Construct.token, Construct.html]
    · simp [maskFences, fenced, ih]

lemma maskLinks_eq (table : RawTable) (ps : List (Piece Link)) :
    maskLinks table ps = ((linked table.nonce table.size ps).masked,
      table.extend (linked table.nonce table.size ps).constructs) := by
  induction ps generalizing table with
  | nil => simp [maskLinks, linked, Segments.masked, Segments.constructs, extend]
  | cons p ps ih =>
    rcases p with p | l
    · simp [maskLinks, linked, ih]
    · simp [maskLinks, linked, ih, add, size, extend, Segments.masked, Segments.constructs,
        Construct.masked, Construct.entry, Construct.token, Construct.html]

lemma maskProse_eq (table : RawTable) (ps : List (Piece Region)) :
    maskProse table ps = ((prose table.nonce table.size ps).masked,
      table.extend (prose table.nonce table.size ps).constructs) := by
  induction ps generalizing table with
  | nil => simp [maskProse, prose, Segments.masked, Segments.constructs, extend]
  | cons p ps ih =>
    rcases p with p | r
    · simp [maskProse, prose, maskLinks_eq, ih, extend, size]
    · simp [maskProse, prose, ih]

section Cuts

variable (nonce : Text) (n : ℕ)

lemma source_fenced (ps : List (Piece Region)) :
    (fenced nonce n ps).source = sourceOf Region.source ps := by
  induction ps generalizing n with
  | nil => rfl
  | cons p ps ih =>
    rcases p with p | ⟨source, html⟩ | s <;>
      simp [fenced, ih, sourceOf, Piece.source, Segments.source, Construct.source, Region.source]

lemma source_linked (ps : List (Piece Link)) :
    (linked nonce n ps).source = sourceOf Link.source ps := by
  induction ps generalizing n with
  | nil => rfl
  | cons p ps ih =>
    rcases p with p | l <;>
      simp [linked, ih, sourceOf, Piece.source, Segments.source, Construct.source]

lemma source_prose (ps : List (Piece Region)) :
    (prose nonce n ps).source = sourceOf Region.source ps := by
  induction ps generalizing n with
  | nil => rfl
  | cons p ps ih =>
    rcases p with p | r
    · simp only [prose, Segments.source_append, ih, source_linked,
        Text.sourceOf_pieces Link.find_exact]
      rfl
    · simp [prose, ih, sourceOf, Piece.source]

lemma constructs_fenced (ps : List (Piece Region)) :
    (fenced nonce n ps).constructs.map Construct.token =
      (List.range' n (fenced nonce n ps).constructs.length).map (blockToken nonce) := by
  induction ps generalizing n with
  | nil => rfl
  | cons p ps ih =>
    rcases p with p | ⟨source, html⟩ | s
    · simp [fenced, ih]
    · simp [fenced, ih, Segments.constructs, Construct.token, List.range'_succ]
    · simp [fenced, ih]

lemma constructs_linked (ps : List (Piece Link)) :
    (linked nonce n ps).constructs.map Construct.token =
      (List.range' n (linked nonce n ps).constructs.length).map (inlineToken nonce) := by
  induction ps generalizing n with
  | nil => rfl
  | cons p ps ih =>
    rcases p with p | l
    · simp [linked, ih]
    · simp [linked, ih, Segments.constructs, Construct.token, List.range'_succ]

lemma constructs_prose (ps : List (Piece Region)) :
    (prose nonce n ps).constructs.map Construct.token =
      (List.range' n (prose nonce n ps).constructs.length).map (inlineToken nonce) := by
  induction ps generalizing n with
  | nil => rfl
  | cons p ps ih =>
    rcases p with p | r
    · simp only [prose, Segments.constructs_append, List.map_append, List.length_append]
      rw [constructs_linked, ih, ← List.range'_append_1, List.map_append]
    · simp [prose, ih]

lemma fencesOnly_fenced (ps : List (Piece Region)) : (fenced nonce n ps).FencesOnly nonce := by
  induction ps generalizing n with
  | nil => simp [fenced, Segments.FencesOnly, Segments.constructs]
  | cons p ps ih =>
    rcases p with p | ⟨source, html⟩ | s
    · simpa [fenced, Segments.FencesOnly] using ih n
    · intro c hc
      rcases List.mem_cons.mp hc with rfl | hc
      · exact ⟨n, source, html, rfl⟩
      · exact ih (n + 1) c hc
    · simpa [fenced, Segments.FencesOnly] using ih n

variable {nonce n}

lemma constructs_fenced_eq_nil {ps : List (Piece Region)} :
    (fenced nonce n ps).constructs = [] ↔ ∀ source html, .found (.raw source html) ∉ ps := by
  induction ps generalizing n with
  | nil => simp [fenced, Segments.constructs]
  | cons p ps ih =>
    rcases p with p | ⟨source, html⟩ | s
    · simp [fenced, ih]
    · exact iff_of_false (List.cons_ne_nil _ _) fun h => h source html List.mem_cons_self
    · simp [fenced, ih]

lemma constructs_linked_eq_nil {ps : List (Piece Link)} :
    (linked nonce n ps).constructs = [] ↔ Text.constructs ps = [] := by
  induction ps generalizing n with
  | nil => simp [linked, Segments.constructs]
  | cons p ps ih =>
    rcases p with p | l
    · simp [linked, ih]
    · simp [linked, Segments.constructs]

lemma constructs_prose_eq_nil {ps : List (Piece Region)} :
    (prose nonce n ps).constructs = [] ↔ ∀ p, .plain p ∈ ps → Text.findAll Link.find p = [] := by
  induction ps generalizing n with
  | nil => simp [prose, Segments.constructs]
  | cons p ps ih =>
    rcases p with p | r
    · simp [prose, ih, constructs_linked_eq_nil, Text.findAll_eq]
    · simp [prose, ih]

end Cuts

lemma matched_fenced (nonce : Text) {n : ℕ} {before : Text} {ps : List (Piece Region)}
    (h : Located Region.find Region.source before ps) : (fenced nonce n ps).Matched before := by
  induction ps generalizing n before with
  | nil => trivial
  | cons p ps ih =>
    rcases p with p | ⟨source, html⟩ | s
    · simpa [fenced] using ih h
    · obtain ⟨⟨size, hfind⟩, hrest⟩ := h
      refine ⟨?_, ih hrest⟩
      obtain ⟨r, hr, heq⟩ := Option.map_eq_some_iff.mp hfind
      obtain rfl : r = .raw source html := congrArg Text.Hit.value heq
      rw [source_fenced]
      exact Region.rawAt?_of_at? hr
    · exact (Segments.matched_prepend ..).mpr (ih h.2)

lemma linksOnly_linked (nonce : Text) {n : ℕ} {before : Text} {ps : List (Piece Link)}
    (h : Located Link.find Link.source before ps) : (linked nonce n ps).LinksOnly before := by
  induction ps generalizing n before with
  | nil => trivial
  | cons p ps ih =>
    rcases p with p | l
    · simpa [linked] using ih h
    · obtain ⟨⟨size, hfind⟩, hrest⟩ := h
      obtain ⟨l', hl, heq⟩ := Option.map_eq_some_iff.mp hfind
      obtain rfl : l' = l := congrArg Text.Hit.value heq
      obtain ⟨hmark, hform, -⟩ := Link.at?_eq_some hl
      exact ⟨hmark, hform, ih hrest⟩

/-- Links are looked for in each stretch on its own. -/
lemma linksOnly_stretch (nonce : Text) {n : ℕ} {before p : Text}
    (hhead : p ≠ [] → before.head? ≠ some '!') :
    (linked nonce n (Text.pieces Link.find p)).LinksOnly before := by
  refine (linksOnly_linked nonce (Text.located_pieces Link.find_exact p)).of_head ?_
  rw [source_linked, Text.sourceOf_pieces Link.find_exact]
  exact fun hp hmark => absurd hmark (hhead hp)

/-- What stands in front of a stretch does not turn its links into images. -/
lemma linksOnly_prose (nonce : Text) {n : ℕ} {before : Text} {ps : List (Piece Region)}
    (h : Located Region.find Region.source before ps) (halt : Alternating ps)
    (hhead : sourceOf Region.source ps ≠ [] → before.head? ≠ some '!') :
    (prose nonce n ps).LinksOnly before := by
  induction halt generalizing n before with
  | last p =>
    simp only [prose, Segments.linksOnly_append]
    refine ⟨linksOnly_stretch nonce fun hp => hhead ?_, trivial⟩
    simpa [sourceOf, Piece.source] using hp
  | @step p r ps hps ih =>
    obtain ⟨⟨size, hfind⟩, hrest⟩ := h
    obtain ⟨r', hr, heq⟩ := Option.map_eq_some_iff.mp hfind
    obtain rfl : r' = r := congrArg Text.Hit.value heq
    obtain ⟨hne, rest, hafter, hend⟩ := Region.at?_read hr
    simp only [prose, Segments.linksOnly_append, Segments.linksOnly_prepend]
    refine ⟨linksOnly_stretch nonce fun hp => hhead (by simp [sourceOf, Piece.source, hp]), ?_⟩
    rw [source_linked, Text.sourceOf_pieces Link.find_exact]
    refine ih hrest fun hps => ?_
    obtain rfl := List.append_cancel_left hafter
    rw [List.head?_append_of_ne_nil _ (by simpa using hne), List.head?_reverse]
    exact hend hps

lemma nonceOf_mem {body : Text} : ∀ c ∈ nonceOf body, c ∈ Digest.digits :=
  fun _ hc => Digest.mem_digits_of_mem_sha1 (List.mem_of_mem_take hc)

/-- A body cut at its fences. -/
def fenceCut (body : Text) : Segments := fenced (nonceOf body) 0 (Text.pieces Region.find body)

/-- A body with its fences masked, cut at its links. -/
def linkCut (body : Text) : Segments :=
  prose (nonceOf body) (fenceCut body).constructs.length (Text.pieces Region.find (fenceCut body).masked)

lemma protect_eq (body : Text) : protect body = ((linkCut body).masked,
    extend ⟨nonceOf body, []⟩ ((fenceCut body).constructs ++ (linkCut body).constructs)) := by
  simp [protect, maskFences_eq, maskProse_eq, extend, size, fenceCut, linkCut]

lemma linksOnly_linkCut (body : Text) : (linkCut body).LinksOnly [] :=
  linksOnly_prose _ (Text.located_pieces Region.find_exact _) (Text.alternating_pieces _ _) (by simp)

lemma tokens_nodup (body : Text) :
    (((fenceCut body).constructs ++ (linkCut body).constructs).map Construct.token).Nodup := by
  rw [List.map_append, fenceCut, linkCut, constructs_fenced, constructs_prose, List.nodup_append]
  refine ⟨(List.nodup_range').map fun _ _ => blockToken_injective,
    (List.nodup_range').map fun _ _ => inlineToken_injective, fun a ha b hb => ?_⟩
  obtain ⟨m, -, rfl⟩ := List.mem_map.mp ha
  obtain ⟨n, -, rfl⟩ := List.mem_map.mp hb
  exact blockToken_ne_inlineToken _ m n

lemma numbered_of_mem (body : Text) : ∀ c ∈ (fenceCut body).constructs ++ (linkCut body).constructs,
    c.Numbered (nonceOf body) := by
  intro c hc
  rcases List.mem_append.mp hc with hc | hc
  · obtain ⟨n, source, html, rfl⟩ := fencesOnly_fenced _ _ _ c hc
    exact ⟨n, rfl⟩
  · obtain ⟨token, l, rfl⟩ := (linksOnly_linkCut body).link_of_mem hc
    have htoken : token ∈ (linkCut body).constructs.map Construct.token :=
      List.mem_map_of_mem hc
    rw [linkCut, constructs_prose] at htoken
    obtain ⟨n, -, rfl⟩ := List.mem_map.mp htoken
    exact ⟨n, rfl⟩

/-- One list of segments describes a body and what masking makes of it. -/
theorem exists_segments (body : Text) : ∃ s : Segments, s.source = body ∧ s.Matched [] ∧
    (protect body).1 = s.masked ∧
    (protect body).2.entries.Perm (s.constructs.map Construct.entry) ∧
    (s.constructs.map Construct.token).Nodup ∧
    ∀ c ∈ s.constructs, c.Numbered (nonceOf body) := by
  have hsource : (linkCut body).source = (fenceCut body).masked := by
    rw [linkCut, source_prose, Text.sourceOf_pieces Region.find_exact]
  obtain ⟨s, hs, hmasked, hmatched, hperm⟩ :=
    Segments.exists_common nonceOf_mem (fencesOnly_fenced (nonceOf body) 0 _)
      (matched_fenced _ (Text.located_pieces Region.find_exact body))
      (linksOnly_linkCut body) hsource (fun h => h)
  rw [source_fenced, Text.sourceOf_pieces Region.find_exact] at hs
  rw [protect_eq]
  refine ⟨s, hs, hmatched, hmasked.symm, (hperm.map _).symm, ?_, fun c hc => ?_⟩
  · exact (hperm.map _).nodup_iff.mpr (tokens_nodup body)
  · exact numbered_of_mem body c (hperm.mem_iff.mp hc)

end Sitewright.RawTable
