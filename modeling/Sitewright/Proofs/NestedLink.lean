import Sitewright.Proofs.Masking
import Sitewright.Proofs.Wording

/-!
Links in the addresses of links. The scan takes out the inner link, since the outer one ends in its middle. With a
word for the inner link the outer one is a link as well. These are the only links that come up in a masked stretch.
-/
namespace Sitewright.RawTable

open Text (IsWord Piece Scanned sourceOf)
open Hypermedia (Link)

section Skeleton

/-- A stretch with a hole for each of its links. -/
def skeleton (ps : List (Piece Link)) : List (Option Char) := ps.flatMap fun
  | .plain t => t.map some
  | .found _ => [none]

/-- The text has a filling for each hole. -/
inductive Fills (filling : Text → Prop) : List (Option Char) → Text → Prop
  | nil : Fills filling [] []
  | copy (c : Char) {s : List (Option Char)} {t : Text} (h : Fills filling s t) : Fills filling (some c :: s) (c :: t)
  | fill {w : Text} {s : List (Option Char)} {t : Text} (hw : filling w) (h : Fills filling s t) :
      Fills filling (none :: s) (w ++ t)

namespace Fills

variable {filling : Text → Prop} {s r : List (Option Char)} {t u : Text}

lemma plain (t : Text) : Fills filling (t.map some) t := by
  induction t with
  | nil => exact .nil
  | cons c t ih => exact .copy c ih

lemma append (hs : Fills filling s t) (hr : Fills filling r u) : Fills filling (s ++ r) (t ++ u) := by
  induction hs with
  | nil => exact hr
  | copy c hs ih => exact .copy c ih
  | fill hw hs ih =>
    rw [List.append_assoc]
    exact .fill hw ih

lemma append_iff : Fills filling (s ++ r) t ↔ ∃ u v, t = u ++ v ∧ Fills filling s u ∧ Fills filling r v := by
  refine ⟨fun h => ?_, ?_⟩
  · induction s generalizing t with
    | nil => exact ⟨[], t, rfl, .nil, h⟩
    | cons a s ih =>
      cases h with
      | copy c h =>
        obtain ⟨u, v, rfl, hu, hv⟩ := ih h
        exact ⟨c :: u, v, rfl, .copy c hu, hv⟩
      | @fill w _ _ hw h =>
        obtain ⟨u, v, rfl, hu, hv⟩ := ih h
        exact ⟨w ++ u, v, (List.append_assoc w u v).symm, .fill hw hu, hv⟩
  · rintro ⟨u, v, rfl, hu, hv⟩
    exact hu.append hv

lemma cons_some_iff {c : Char} : Fills filling (some c :: s) t ↔ ∃ v, t = c :: v ∧ Fills filling s v := by
  constructor
  · intro h
    cases h with
    | copy c h => exact ⟨_, rfl, h⟩
  · rintro ⟨v, rfl, h⟩
    exact .copy c h

lemma eq_of_plain {a : Text} (h : Fills filling (a.map some) t) : t = a := by
  induction a generalizing t with
  | nil =>
    cases h
    rfl
  | cons c a ih =>
    cases h with
    | copy c h => rw [ih h]

lemma skeleton_eq (h : Fills filling s t) (hs : none ∉ s) : s = t.map some := by
  induction h with
  | nil => rfl
  | copy c h ih => rw [List.map_cons, ← ih fun hmem => hs (List.mem_cons_of_mem _ hmem)]
  | fill hw h ih => exact absurd List.mem_cons_self hs

/-- What a text holds beyond its skeleton stands in its fillings. -/
lemma mem_or (h : Fills filling s t) {c : Char} (hc : c ∈ t) : some c ∈ s ∨ ∃ w, filling w ∧ c ∈ w := by
  induction h with
  | nil => cases hc
  | copy d h ih =>
    rcases List.mem_cons.mp hc with rfl | hc
    · exact .inl List.mem_cons_self
    · exact (ih hc).imp_left (List.mem_cons_of_mem _)
  | @fill w _ _ hw h ih =>
    rcases List.mem_append.mp hc with hc | hc
    · exact .inr ⟨w, hw, hc⟩
    · exact (ih hc).imp_left (List.mem_cons_of_mem _)

lemma mem (h : Fills filling s t) {c : Char} (hc : some c ∈ s) : c ∈ t := by
  induction h with
  | nil => cases hc
  | copy d h ih =>
    rcases List.mem_cons.mp hc with hc | hc
    · exact Option.some.inj hc ▸ List.mem_cons_self
    · exact List.mem_cons_of_mem d (ih hc)
  | fill hw h ih => exact List.mem_append_right _ (ih ((List.mem_cons.mp hc).resolve_left nofun))

/-- A character that no filling ends in ends the text just if it ends the skeleton. -/
lemma getLast?_iff (h : Fills filling s t) {c : Char} (hc : ∀ w, filling w → ∃ d, w.getLast? = some d ∧ d ≠ c) :
    t.getLast? = some c ↔ s.getLast? = some (some c) := by
  rcases List.eq_nil_or_concat' s with rfl | ⟨s, a, rfl⟩
  · cases h
    exact iff_of_false nofun nofun
  · obtain ⟨u, v, rfl, -, hv⟩ := append_iff.mp h
    rw [List.getLast?_concat]
    cases hv with
    | copy d hv =>
      cases hv
      rw [List.getLast?_concat, Option.some.injEq, Option.some.injEq, Option.some.injEq]
    | @fill w _ _ hw hv =>
      cases hv
      obtain ⟨d, hd, hne⟩ := hc w hw
      have hw : w ≠ [] := by rintro rfl; cases hd
      rw [List.append_nil, List.getLast?_append_of_ne_nil u hw, hd]
      exact iff_of_false (fun heq => hne (Option.some.inj heq)) nofun

section Words

variable {s : List (Option Char)}

/-- Where a text with words has another character, so has the skeleton. -/
lemma cut {x y : Text} {c : Char} (h : Fills IsWord s (x ++ c :: y)) (hc : c ∉ letters) :
    ∃ u v, s = u ++ some c :: v ∧ Fills IsWord u x ∧ Fills IsWord v y := by
  generalize hxy : x ++ c :: y = t at h
  induction h generalizing x with
  | nil => simp at hxy
  | @copy d s t h ih =>
    cases x with
    | nil =>
      obtain ⟨rfl, rfl⟩ := List.cons.inj hxy
      exact ⟨[], s, rfl, .nil, h⟩
    | cons e x =>
      obtain ⟨rfl, htail⟩ := List.cons.inj hxy
      obtain ⟨u, v, rfl, hu, hv⟩ := ih htail
      exact ⟨some e :: u, v, rfl, .copy e hu, hv⟩
  | @fill w s t hw h ih =>
    rcases List.append_eq_append_iff.mp hxy with ⟨a, rfl, ha⟩ | ⟨b, rfl, hb⟩
    · cases a with
      | nil =>
        rw [List.append_nil] at hw
        obtain ⟨u, v, rfl, hu, hv⟩ := ih (x := []) ha
        exact ⟨none :: u, v, rfl, by simpa using Fills.fill hw hu, hv⟩
      | cons d a =>
        obtain ⟨rfl, -⟩ := List.cons.inj ha
        exact absurd (hw.letters c (by simp)) hc
    · obtain ⟨u, v, rfl, hu, hv⟩ := ih hb.symm
      exact ⟨none :: u, v, rfl, .fill hw hu, hv⟩

lemma nil_of_words (h : Fills IsWord s []) : s = [] := by
  generalize hnil : ([] : Text) = t at h
  cases h with
  | nil => rfl
  | copy c h => cases hnil
  | fill hw h =>
    obtain ⟨tail, rfl⟩ := hw.eq_cons
    cases hnil

lemma head {y : Text} {c : Char} (h : Fills IsWord s (c :: y)) (hc : c ∉ letters) :
    ∃ v, s = some c :: v ∧ Fills IsWord v y := by
  obtain ⟨u, v, rfl, hu, hv⟩ := cut (x := []) h hc
  exact ⟨v, by rw [nil_of_words hu]; rfl, hv⟩

end Words

end Fills

end Skeleton

section Scan

/-- A link as written. -/
def IsLinkSource (w : Text) : Prop := ∃ l : Link, l.WellFormed ∧ w = l.source

lemma wellFormed_of_find {before after : Text} {l : Link} {size : ℕ} (h : Link.find before after = some ⟨l, size⟩) :
    l.WellFormed := by
  obtain ⟨l', hl, heq⟩ := Option.map_eq_some_iff.mp h
  obtain rfl : l' = l := congrArg Text.Hit.value heq
  exact (Link.at?_eq_some hl).2.1

variable {before : Text} {ps : List (Piece Link)}

lemma fills_source (h : Scanned Link.find Link.source before ps) :
    Fills IsLinkSource (skeleton ps) (sourceOf Link.source ps) := by
  induction h with
  | last hquiet => exact (Fills.plain _).append .nil
  | step hquiet hfind hps ih => exact (Fills.plain _).append (.fill ⟨_, wellFormed_of_find hfind, rfl⟩ ih)

lemma cut_of_map_some {t : Text} {u v : List (Option Char)} {c : Char} (ht : t.map some = u ++ some c :: v) :
    ∃ x y, t = x ++ c :: y ∧ u = x.map some ∧ v = y.map some := by
  obtain ⟨x, z, rfl, rfl, hz⟩ := List.map_eq_append_iff.mp ht
  obtain ⟨d, y, rfl, hd, rfl⟩ := List.map_eq_cons_iff.mp hz
  exact ⟨x, y, by rw [Option.some.inj hd], rfl, rfl⟩

/-- Every character outside of links stands where the scan finds nothing. -/
lemma find_of_skeleton (h : Scanned Link.find Link.source before ps) {u v : List (Option Char)} {c : Char}
    (hskeleton : skeleton ps = u ++ some c :: v) : ∃ x y, Fills IsLinkSource u x ∧ Fills IsLinkSource v y ∧
      Link.find (x.reverse ++ before) (c :: y) = none := by
  induction h generalizing u with
  | @last before t hquiet =>
    obtain ⟨x, y, rfl, rfl, rfl⟩ := cut_of_map_some (by simpa [skeleton] using hskeleton)
    have hnone := hquiet x (c :: y) rfl (List.cons_ne_nil c y)
    rw [List.append_nil] at hnone
    exact ⟨x, y, .plain x, .plain y, hnone⟩
  | @step before t l ps hquiet hfind hps ih =>
    have hsplit : t.map some ++ none :: skeleton ps = u ++ some c :: v := hskeleton
    have hrest := fills_source hps
    have hl : IsLinkSource l.source := ⟨l, wellFormed_of_find hfind, rfl⟩
    rcases List.append_eq_append_iff.mp hsplit with ⟨a, rfl, ha⟩ | ⟨b, ht, hb⟩
    · -- behind the link
      cases a with
      | nil => cases ha
      | cons d a =>
        obtain ⟨rfl, htail⟩ := List.cons.inj ha
        obtain ⟨x, y, hx, hy, hnone⟩ := ih htail
        refine ⟨t ++ (l.source ++ x), y, (Fills.plain t).append (.fill hl hx), hy, ?_⟩
        simpa [List.append_assoc] using hnone
    · -- in front of it
      cases b with
      | nil => cases hb
      | cons d b =>
        obtain ⟨rfl, rfl⟩ := List.cons.inj hb
        obtain ⟨x, y, rfl, rfl, rfl⟩ := cut_of_map_some ht
        refine ⟨x, y ++ (l.source ++ sourceOf Link.source ps), .plain x, (Fills.plain y).append (.fill hl hrest), ?_⟩
        exact hquiet x (c :: y) rfl (List.cons_ne_nil c y)

end Scan

section Nested

/-- A link with holes in its parts. -/
structure Outer where
  text : List (Option Char)
  url : List (Option Char)
  block : List (Option Char)

/-- The link as written. -/
def Outer.source (o : Outer) : List (Option Char) := some '[' :: (o.text ++ some ']' :: some '(' ::
  (o.url ++ some ')' :: some '\x7b' :: (o.block ++ [some '\x7d'])))

/-- The parts are those of a link, and there is a hole in the address, but none in the text. -/
structure Outer.WellFormed (o : Outer) : Prop where
  text_ne : o.text ≠ []
  text : ∀ c, some c ∈ o.text → c ≠ ']' ∧ c ≠ '\n'
  whole : none ∉ o.text
  hole : none ∈ o.url
  url : ∀ c, some c ∈ o.url → c ≠ ')' ∧ Text.isBlank c = false
  block : ∀ c, some c ∈ o.block → c ≠ '\x7d' ∧ c ≠ '\n'

/-- A stretch in which a link has another one in its address. -/
def Nests (p : Text) : Prop := ∃ u o rest, skeleton (Text.pieces Link.find p) = u ++ (Outer.source o ++ rest) ∧
  u.getLast? ≠ some (some '!') ∧ o.WellFormed

variable {s rest : List (Option Char)} {o : Outer} {t : Text}

lemma Outer.of_fills {filling : Text → Prop} (h : Fills filling (o.source ++ rest) t) : ∃ text url block y,
    t = '[' :: (text ++ ']' :: '(' :: (url ++ ')' :: '\x7b' :: (block ++ '\x7d' :: y))) ∧
      Fills filling o.text text ∧ Fills filling o.url url ∧ Fills filling o.block block := by
  simp only [Outer.source, List.cons_append, List.append_assoc, List.nil_append, Fills.cons_some_iff,
    Fills.append_iff] at h
  obtain ⟨_, rfl, text, _, rfl, htext, _, rfl, _, rfl, url, _, rfl, hurl, _, rfl, _, rfl, block, _, rfl, hblock,
    y, rfl, -⟩ := h
  exact ⟨text, url, block, y, rfl, htext, hurl, hblock⟩

/-- Where a text with words has a link, the skeleton has one with holes for the words. -/
lemma Outer.of_words {l : Link} {z : Text} (h : Fills IsWord s (l.source ++ z)) : ∃ o rest, s = source o ++ rest ∧
    Fills IsWord o.text l.text ∧ Fills IsWord o.url l.url ∧ Fills IsWord o.block l.block := by
  have hsource : l.source ++ z =
      '[' :: (l.text ++ ']' :: '(' :: (l.url ++ ')' :: '\x7b' :: (l.block ++ '\x7d' :: z))) := by
    simp [Link.source]
  rw [hsource] at h
  obtain ⟨s₁, rfl, h₁⟩ := h.head (by decide)
  obtain ⟨text, s₂, rfl, htext, h₂⟩ := h₁.cut (by decide)
  obtain ⟨s₃, rfl, h₃⟩ := h₂.head (by decide)
  obtain ⟨url, s₄, rfl, hurl, h₄⟩ := h₃.cut (by decide)
  obtain ⟨s₅, rfl, h₅⟩ := h₄.head (by decide)
  obtain ⟨block, rest, rfl, hblock, -⟩ := h₅.cut (by decide)
  exact ⟨⟨text, url, block⟩, rest, by simp [source], htext, hurl, hblock⟩

lemma letters_plain : ∀ c ∈ letters, (c ≠ ']' ∧ c ≠ '\n') ∧ (c ≠ ')' ∧ Text.isBlank c = false) ∧
    (c ≠ '\x7d' ∧ c ≠ '\n') ∧ c ≠ '!' := Text.forall_of_all (by decide)

/-- With words for the links in its address, an outer link is a link. -/
lemma Outer.WellFormed.exists_link (ho : o.WellFormed) (h : Fills IsWord (o.source ++ rest) t) :
    ∃ l : Link, l.WellFormed ∧ l.source <+: t := by
  have hpart : ∀ {s : List (Option Char)} {u : Text} {p : Char → Prop}, Fills IsWord s u →
      (∀ c, some c ∈ s → p c) → (∀ c ∈ letters, p c) → ∀ c ∈ u, p c := by
    intro s u p hu hs hletters c hc
    rcases hu.mem_or hc with hc | ⟨w, hw, hc⟩
    · exact hs c hc
    · exact hletters c (hw.letters c hc)
  obtain ⟨text, url, block, y, rfl, htext, hurl, hblock⟩ := Outer.of_fills h
  refine ⟨⟨text, url, block⟩, ⟨?_, ?_, ?_, ?_, ?_⟩, y, by simp [Link.source]⟩
  · rintro rfl
    exact ho.text_ne htext.nil_of_words
  · exact hpart htext ho.text fun c hc => (letters_plain c hc).1
  · rintro rfl
    have hhole := ho.hole
    rw [hurl.nil_of_words] at hhole
    cases hhole
  · exact hpart hurl ho.url fun c hc => (letters_plain c hc).2.1
  · exact hpart hblock ho.block fun c hc => (letters_plain c hc).2.2.1

/-- A hole is filled with all of a link. -/
lemma exists_link_of_hole (h : Fills IsLinkSource s t) (hs : none ∈ s) : ∃ (front : Text) (l : Link) (back : Text),
    t = front ++ (l.source ++ back) ∧ l.WellFormed ∧ ∀ c ∈ front, some c ∈ s := by
  induction h with
  | nil => cases hs
  | copy c h ih =>
    obtain ⟨front, l, back, rfl, hl, hfront⟩ := ih ((List.mem_cons.mp hs).resolve_left nofun)
    refine ⟨c :: front, l, back, rfl, hl, fun d hd => ?_⟩
    rcases List.mem_cons.mp hd with rfl | hd
    · exact List.mem_cons_self
    · exact List.mem_cons_of_mem _ (hfront d hd)
  | fill hw h ih =>
    obtain ⟨l, hl, rfl⟩ := hw
    exact ⟨[], l, _, rfl, hl, by simp⟩

/-- A link in the text of a link, with what stands in front of it, is a link as well. -/
lemma exists_link_of_text {text y : Text} (h : Fills IsLinkSource s text) (hhole : none ∈ s)
    (hs : ∀ c, some c ∈ s → c ≠ ']' ∧ c ≠ '\n') : ∃ l : Link, l.WellFormed ∧ l.source <+: '[' :: (text ++ y) := by
  obtain ⟨front, l, back, rfl, hl, hfront⟩ := exists_link_of_hole h hhole
  refine ⟨⟨front ++ '[' :: l.text, l.url, l.block⟩, ⟨by simp, fun c hc => ?_, hl.url_ne, hl.url, hl.block⟩,
    by simp [Link.source]⟩
  rcases List.mem_append.mp hc with hc | hc
  · exact hs c (hfront c hc)
  · rcases List.mem_cons.mp hc with rfl | hc
    · decide
    · exact hl.text c hc

/-- A link in the block of a link ends this block. -/
lemma exists_link_of_block {l : Link} (hl : l.WellFormed) {block y : Text} (h : Fills IsLinkSource s block)
    (hhole : none ∈ s) (hs : ∀ c, some c ∈ s → c ≠ '\x7d' ∧ c ≠ '\n') : ∃ l' : Link, l'.WellFormed ∧
      l'.source <+: '[' :: (l.text ++ ']' :: '(' :: (l.url ++ ')' :: '\x7b' :: (block ++ y))) := by
  obtain ⟨front, inner, back, rfl, hinner, hfront⟩ := exists_link_of_hole h hhole
  have hbrace : '\x7d' ∈ inner.source := by simp [Link.source]
  obtain ⟨b, b', hb, hbrace⟩ := List.eq_append_cons_of_mem hbrace
  have hfeed := hinner.feed_not_mem
  rw [hb] at hfeed
  refine ⟨⟨l.text, l.url, front ++ b⟩, ⟨hl.text_ne, hl.text, hl.url_ne, hl.url, fun c hc => ?_⟩,
    b' ++ back ++ y, by rw [hb]; simp [Link.source]⟩
  rcases List.mem_append.mp hc with hc | hc
  · exact hs c (hfront c hc)
  · exact ⟨fun heq => hbrace (heq ▸ hc), fun heq => hfeed (List.mem_append_left _ (heq ▸ hc))⟩

/-- If a link comes up with words for links where none is otherwise, it has a link in its address. -/
lemma Outer.of_link {l : Link} {z : Text} (hl : l.WellFormed) (hwords : Fills IsWord s (l.source ++ z))
    (hlinks : Fills IsLinkSource s t) (hmiss : ∀ l' : Link, l'.WellFormed → ¬ l'.source <+: t) :
    ∃ o rest, s = source o ++ rest ∧ o.WellFormed := by
  obtain ⟨o, rest, rfl, htext, hurl, hblock⟩ := Outer.of_words hwords
  obtain ⟨text, url, block, y, rfl, htext', hurl', hblock'⟩ := Outer.of_fills hlinks
  have hwhole : none ∉ o.text := by
    intro hhole
    obtain ⟨l', hl', hprefix⟩ := exists_link_of_text htext' hhole fun c hc => hl.text c (htext.mem hc)
    exact hmiss l' hl' hprefix
  have heq := htext.skeleton_eq hwhole
  obtain rfl : text = l.text := (heq ▸ htext').eq_of_plain
  refine ⟨o, rest, rfl, fun hnil => hl.text_ne (List.map_eq_nil_iff.mp (heq ▸ hnil)),
    fun c hc => hl.text c (htext.mem hc), hwhole, ?_, fun c hc => hl.url c (hurl.mem hc),
    fun c hc => hl.block c (hblock.mem hc)⟩
  by_contra hhole
  have heq := hurl.skeleton_eq hhole
  obtain rfl : url = l.url := (heq ▸ hurl').eq_of_plain
  by_cases hholes : none ∈ o.block
  · obtain ⟨l', hl', hprefix⟩ := exists_link_of_block hl hblock' hholes fun c hc => hl.block c (hblock.mem hc)
    exact hmiss l' hl' hprefix
  · have heq := hblock.skeleton_eq hholes
    obtain rfl : block = l.block := (heq ▸ hblock').eq_of_plain
    exact hmiss l hl (by simp [Link.source])

lemma word_getLast? {w : Text} (hw : IsWord w) : ∃ d, w.getLast? = some d ∧ d ≠ '!' := by
  obtain ⟨w, d, rfl⟩ := (List.eq_nil_or_concat' w).resolve_left (by rintro rfl; cases hw.head)
  exact ⟨d, List.getLast?_concat .., (letters_plain d (hw.letters d (by simp))).2.2.2⟩

lemma linkSource_getLast? {w : Text} (hw : IsLinkSource w) : ∃ d, w.getLast? = some d ∧ d ≠ '!' := by
  obtain ⟨l, -, rfl⟩ := hw
  exact ⟨'\x7d', by rw [Link.source]; exact List.getLast?_concat .., by decide⟩

/-- A stretch with words for its links has links just if it nests a link in an address. -/
lemma findAll_ne_nil_iff_nests {p : Text} (h : Fills IsWord (skeleton (Text.pieces Link.find p)) t) :
    Text.findAll Link.find t ≠ [] ↔ Nests p := by
  obtain ⟨-, hscanned⟩ := (Text.pieces_eq_iff Link.find_exact).mp (rfl : Text.pieces Link.find p = _)
  rw [Text.findAll_ne_nil_iff]
  constructor
  · rintro ⟨x, v, rfl, -, hfind⟩
    obtain ⟨hit, hhit⟩ := Option.isSome_iff_exists.mp hfind
    obtain ⟨l, hl, -⟩ := Option.map_eq_some_iff.mp hhit
    obtain ⟨hmark, hform, z, rfl⟩ := Link.at?_eq_some hl
    -- the link begins outside of words, where the scan of the stretch has found nothing
    obtain ⟨link, hlink⟩ : ∃ link, l.source ++ z = '[' :: link := ⟨_, rfl⟩
    rw [hlink] at h
    obtain ⟨u, v, hskeleton, hu, hv⟩ := h.cut (by decide)
    obtain ⟨x', y, hx', hy, hnone⟩ := find_of_skeleton hscanned hskeleton
    rw [List.append_nil] at hnone
    rw [List.head?_reverse, ne_eq, hu.getLast?_iff fun w hw => word_getLast? hw] at hmark
    have hwords : Fills IsWord (some '[' :: v) (l.source ++ z) := hlink ▸ .copy '[' hv
    obtain ⟨o, rest, ho, hform'⟩ := Outer.of_link hform hwords (.copy '[' hy) fun l' hl' hprefix => by
      obtain ⟨z', hz'⟩ := hprefix
      have hhead : x'.reverse.head? ≠ some '!' := by
        rw [List.head?_reverse, ne_eq, hx'.getLast?_iff fun w hw => linkSource_getLast? hw]
        exact hmark
      rw [← hz', Link.find, Link.at?_of_wellFormed hhead hl'] at hnone
      cases hnone
    exact ⟨u, o, rest, by rw [hskeleton, ho], hmark, hform'⟩
  · rintro ⟨u, o, rest, hskeleton, hmark, ho⟩
    rw [hskeleton] at h
    obtain ⟨x, y, rfl, hx, hy⟩ := Fills.append_iff.mp h
    obtain ⟨l, hl, z, rfl⟩ := ho.exists_link hy
    refine ⟨x, l.source ++ z, rfl, by simp [Link.source], ?_⟩
    have hhead : x.reverse.head? ≠ some '!' := by
      rw [List.head?_reverse]
      exact mt (hx.getLast?_iff fun w hw => word_getLast? hw).mp hmark
    rw [Link.find, Link.at?_of_wellFormed hhead hl]
    rfl

end Nested

end Sitewright.RawTable
