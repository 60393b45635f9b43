import Sitewright.Proofs.Association
import Sitewright.Proofs.TokenScan

/-!
Tables filled by hand. Whatever the nonce, the tokens of a table differ, since each carries the number of its
entry. In text that interleaves tokens with literals of other words, restoring finds the tokens and nothing else.
-/
namespace Sitewright.RawTable
open Text (Piece constructs sourceOf)

section Filling

/-- Stores one HTML after the other, each inline or not, and gives their tokens. -/
def addAll (table : RawTable) : List (Text × Bool) → List Text × RawTable
  | [] => ([], table)
  | (html, inline) :: calls =>
    let (token, table) := table.add html inline
    let (tokens, table) := addAll table calls
    (token :: tokens, table)

/-- Every token carries the number of its entry. -/
def WellNumbered (table : RawTable) : Prop := ∀ n e, table.entries[n]? = some e →
  e.1 = blockToken table.nonce n ∨ e.1 = inlineToken table.nonce n

lemma wellNumbered_empty (nonce : Text) : WellNumbered ⟨nonce, []⟩ := fun _ _ h => nomatch h

lemma WellNumbered.add {table : RawTable} (h : table.WellNumbered) (html : Text) (inline : Bool) :
    (table.add html inline).2.WellNumbered := by
  intro n e he
  rcases Nat.lt_or_ge n table.entries.length with hn | hn
  · exact h n e (by rwa [RawTable.add, List.getElem?_append_left hn] at he)
  · rw [RawTable.add, List.getElem?_append_right hn, List.getElem?_singleton] at he
    split at he
    · -- the new entry has the number that is the size of the table
      obtain rfl : n = table.size := by
        unfold size
        omega
      obtain rfl := Option.some.inj he
      cases inline with
      | true => exact .inr rfl
      | false => exact .inl rfl
    · cases he

lemma WellNumbered.addAll {table : RawTable} (h : table.WellNumbered) (calls : List (Text × Bool)) :
    (table.addAll calls).2.WellNumbered := by
  induction calls generalizing table with
  | nil => exact h
  | cons call calls ih => exact ih (h.add call.1 call.2)

lemma WellNumbered.number_eq {table : RawTable} (h : table.WellNumbered) {m n : ℕ} {d e : Text × Text}
    (hd : table.entries[m]? = some d) (he : table.entries[n]? = some e) (heq : d.1 = e.1) : m = n := by
  rcases h m d hd with hm | hm <;> rcases h n e he with hn | hn
  · exact blockToken_injective (hm.symm.trans (heq.trans hn))
  · exact absurd (hm.symm.trans (heq.trans hn)) (blockToken_ne_inlineToken _ m n)
  · exact absurd (hn.symm.trans (heq.symm.trans hm)) (blockToken_ne_inlineToken _ n m)
  · exact inlineToken_injective (hm.symm.trans (heq.trans hn))

lemma WellNumbered.nodup {table : RawTable} (h : table.WellNumbered) : (table.entries.map Prod.fst).Nodup := by
  rw [List.nodup_iff_getElem?_ne_getElem?]
  intro m n hmn hn heq
  rw [List.length_map] at hn
  rw [List.getElem?_map, List.getElem?_map, List.getElem?_eq_getElem hn, List.getElem?_eq_getElem (hmn.trans hn)] at heq
  have hnumber := h.number_eq (List.getElem?_eq_getElem (hmn.trans hn)) (List.getElem?_eq_getElem hn) (Option.some.inj heq)
  exact absurd hnumber hmn.ne

lemma length_addAll (table : RawTable) (calls : List (Text × Bool)) :
    (table.addAll calls).1.length = calls.length := by
  induction calls generalizing table with
  | nil => rfl
  | cons call calls ih => exact congrArg (· + 1) (ih _)

/-- The new entries are the tokens with the HTML they were given for. -/
lemma entries_addAll (table : RawTable) (calls : List (Text × Bool)) : (table.addAll calls).2.entries =
    table.entries ++ (table.addAll calls).1.zip (calls.map Prod.fst) := by
  induction calls generalizing table with
  | nil => exact (List.append_nil _).symm
  | cons call calls ih => exact (ih _).trans (List.append_assoc _ _ _)

end Filling

section Literals

variable {nonce : Text}

lemma lead_infix_word : ∀ word ∈ words, "flint".toList <:+: word := by
  simp only [words, List.forall_mem_cons]
  exact ⟨⟨"<!--".toList, "-raw-".toList, rfl⟩, ⟨[], "raw".toList, rfl⟩, List.forall_mem_nil _⟩

/-- A word that starts in literal text in front of a token, or in front of nothing, is all in the literal text. -/
lemma prefix_of_word {word t rest : Text} (hword : word ∈ words) (ht : t ≠ [])
    (hrest : rest = [] ∨ ∃ word' ∈ words, word' <+: rest) (h : word <+: t ++ rest) : word <+: t := by
  rcases hrest with rfl | ⟨word', hword', more, rfl⟩
  · rwa [List.append_nil] at h
  obtain ⟨s, hs⟩ := h
  rcases List.append_eq_append_iff.mp hs with ⟨a, rfl, -⟩ | ⟨z, rfl, hz⟩
  · exact List.prefix_append word a
  · by_cases hnil : z = []
    · simp [hnil]
    · -- no word starts inside a word
      have hinside := words_apart _ hword word' hword' t.length (by simpa using List.length_pos_iff.mpr hnil)
        (mt List.length_eq_zero_iff.mp ht)
      rw [List.drop_left] at hinside
      exact absurd (Text.take_length_of_append_eq hz.symm) hinside

/-- Nothing is found in literal text that holds neither the word of the tokens nor the opening tag of a
paragraph, if it ends where a token starts. -/
lemma findToken_literal {t rest : Text} (ht : t ≠ []) (hlead : ¬ "flint".toList <:+: t)
    (htag : ¬ "<p>".toList <:+: t) (hrest : rest = [] ∨ ∃ token, IsToken nonce token ∧ token <+: rest) :
    findToken nonce [] (t ++ rest) = none := by
  have hwords : rest = [] ∨ ∃ word ∈ words, word <+: rest := by
    refine hrest.imp_right ?_
    rintro ⟨token, ⟨word, number, mark, hlike⟩, hprefix⟩
    exact ⟨word, hlike.word_mem, (hlike.eq ▸ List.prefix_append _ _ : word <+: token).trans hprefix⟩
  by_contra hfound
  obtain ⟨hit, hhit⟩ := Option.ne_none_iff_exists'.mp hfound
  obtain ⟨source, -, -, hprefix, ⟨word, number, mark, hlike⟩, rfl | hlone⟩ := findToken_source hhit
  · -- a token: its word is in the literal text
    have hword : word <+: hit.value := hlike.eq ▸ List.prefix_append _ _
    have hin := prefix_of_word hlike.word_mem ht hwords (hword.trans hprefix)
    exact hlead ((lead_infix_word word hlike.word_mem).trans hin.isInfix)
  · -- a paragraph: its tag is in the literal text, since no token starts inside the tag
    obtain ⟨-, before, after, -, rfl⟩ := hlone
    obtain ⟨c, cs, rfl⟩ := List.exists_cons_of_ne_nil ht
    have hopen : "<p>".toList <+: c :: (cs ++ rest) := by
      refine List.IsPrefix.trans ?_ hprefix
      rw [List.append_assoc]
      exact List.prefix_append _ _
    obtain ⟨rfl, hinner⟩ := List.cons_prefix_cons.mp hopen
    have hmarks : ∀ e ∈ ['<', 'f'], e ∉ "p>".toList := Text.forall_of_all (by decide)
    have hstart : ∀ d ∈ rest.head?, d ∉ "p>".toList := by
      intro d hd
      rcases hrest with rfl | ⟨token, htoken, more, rfl⟩
      · cases hd
      · obtain ⟨e, tail, rfl, he⟩ := htoken.head
        obtain rfl : e = d := Option.some.inj hd
        exact hmarks e he
    obtain ⟨more, rfl⟩ := Text.prefix_of_head_not_mem hinner hstart
    exact htag ⟨[], more, rfl⟩

end Literals

section Interleaving

/-- No two literals stand side by side, and no literal holds the word of the tokens or the opening tag of a
paragraph. -/
structure Interleaved {α : Type} (ps : List (Piece α)) : Prop where
  apart : ps.IsChain fun p q => ∀ t u, p = .plain t → q ≠ .plain u
  lead_free : ∀ t, .plain t ∈ ps → ¬ "flint".toList <:+: t
  tag_free : ∀ t, .plain t ∈ ps → ¬ "<p>".toList <:+: t

lemma Interleaved.tail {α : Type} {p : Piece α} {ps : List (Piece α)} (h : Interleaved (p :: ps)) :
    Interleaved ps :=
  ⟨h.apart.of_cons, fun t ht => h.lead_free t (List.mem_cons_of_mem p ht),
    fun t ht => h.tag_free t (List.mem_cons_of_mem p ht)⟩

variable {table : RawTable} (h : table.WellNumbered) {ps : List (Piece (Text × Text))}
  (hps : Interleaved ps) (hmem : ∀ v ∈ constructs ps, v ∈ table.entries)
include h

lemma WellNumbered.findToken {e : Text × Text} (he : e ∈ table.entries) (rest : Text) :
    findToken table.nonce [] (e.1 ++ rest) = some ⟨e.1, e.1.length⟩ := by
  obtain ⟨n, hn⟩ := List.mem_iff_getElem?.mp he
  rcases h n e hn with hblock | hinline
  · rw [hblock]
    exact findToken_blockToken [] n rest
  · rw [hinline]
    exact findToken_inlineToken [] n rest

lemma WellNumbered.isToken {e : Text × Text} (he : e ∈ table.entries) : IsToken table.nonce e.1 := by
  obtain ⟨n, hn⟩ := List.mem_iff_getElem?.mp he
  rcases h n e hn with hblock | hinline
  · exact hblock ▸ isToken_blockToken _ n
  · exact hinline ▸ isToken_inlineToken _ n

include hps hmem

lemma substitute_interleaved {write : Text → Text} (hwrite : ∀ e ∈ table.entries, write e.1 = e.2) :
    Text.substitute (findToken table.nonce) write (sourceOf Prod.fst ps) = sourceOf Prod.snd ps := by
  have hlocal := findToken_local table.nonce
  induction ps with
  | nil => rfl
  | cons p ps ih =>
    cases p with
    | found v =>
      have hv : v ∈ table.entries := hmem v List.mem_cons_self
      have hne : v.1 ≠ [] := by
        obtain ⟨c, tail, htail, -⟩ := (h.isToken hv).head
        exact htail ▸ List.cons_ne_nil c tail
      have ih := ih hps.tail fun w hw => hmem w (List.mem_cons_of_mem v hw)
      rw [Text.sourceOf_cons, Text.sourceOf_cons]
      exact (Text.substitute_hit hlocal (h.findToken hv _) rfl hne).trans (congrArg₂ _ (hwrite v hv) ih)
    | plain t =>
      have hrest : sourceOf Prod.fst ps = [] ∨
          ∃ token, IsToken table.nonce token ∧ token <+: sourceOf Prod.fst ps := by
        match ps, hps.apart, hmem with
        | [], _, _ => exact .inl rfl
        | .plain u :: ps, hapart, _ => exact absurd rfl ((List.isChain_cons_cons.mp hapart).1 t u rfl)
        | .found v :: ps, _, hmem => exact .inr ⟨v.1, h.isToken (hmem v List.mem_cons_self), List.prefix_append _ _⟩
      rw [Text.sourceOf_cons, Text.sourceOf_cons]
      refine (Text.substitute_plain hlocal t _ fun u w huw hw => ?_).trans (congrArg _ (ih hps.tail hmem))
      have hsuffix : w <:+: t := ⟨u, [], by rw [huw, List.append_nil]⟩
      exact findToken_literal hw (fun hin => hps.lead_free t List.mem_cons_self (hin.trans hsuffix))
        (fun hin => hps.tag_free t List.mem_cons_self (hin.trans hsuffix)) hrest

lemma restore_interleaved : restore table (sourceOf Prod.fst ps) = sourceOf Prod.snd ps := by
  by_cases hempty : table.entries.isEmpty = true
  · -- all pieces are literals
    rw [restore, if_pos hempty]
    refine List.flatMap_congr fun p hp => ?_
    cases p with
    | plain t => rfl
    | found v =>
      have hv := hmem v (Text.mem_constructs.mpr hp)
      rw [List.isEmpty_iff.mp hempty] at hv
      cases hv
  · rw [restore, if_neg hempty]
    refine substitute_interleaved h hps hmem fun e he => ?_
    rw [lookup_of_mem h.nodup he, Option.getD_some]

end Interleaving

/-- The tokens of a table all differ and the table counts them. In a text that interleaves them with literals
each one is replaced by its own HTML. -/
theorem restore_addAll (nonce : Text) (calls : List (Text × Bool)) :
    let (tokens, table) := addAll ⟨nonce, []⟩ calls
    tokens.Nodup ∧ tokens.length = calls.length ∧ table.size = calls.length ∧
      ∀ ps : List (Piece (Text × Text)), Interleaved ps →
        (∀ v ∈ constructs ps, v ∈ tokens.zip (calls.map Prod.fst)) →
          restore table (sourceOf Prod.fst ps) = sourceOf Prod.snd ps := by
  have hlength := length_addAll ⟨nonce, []⟩ calls
  have hentries := entries_addAll ⟨nonce, []⟩ calls
  have hnumbered := (wellNumbered_empty nonce).addAll calls
  have hnodup := hnumbered.nodup
  rw [List.nil_append] at hentries
  have hfits : (addAll ⟨nonce, []⟩ calls).1.length ≤ (calls.map Prod.fst).length := by
    rw [hlength, List.length_map]
  rw [hentries, List.map_fst_zip hfits] at hnodup
  refine ⟨hnodup, hlength, ?_, fun ps hps hmem => restore_interleaved hnumbered hps fun v hv => hentries ▸ hmem v hv⟩
  rw [size, hentries, List.length_zip, hlength, List.length_map, Nat.min_self]

/-- Eleven links and a fence under a nonce of odd characters; the HTML of the fence holds a token. -/
def oddCalls : List (Text × Bool) :=
  List.replicate 11 ("<a>".toList, true) ++ [("<i>flintraw.*<p>(i10x</i>".toList, false)]

/-- A text with three of their tokens, two of them side by side. -/
def oddPieces : List (Piece (Text × Text)) :=
  [.plain "<!--".toList, .found ("flintraw.*<p>(i10x".toList, "<a>".toList),
    .found ("<!--flint-raw-.*<p>(-11-->".toList, "<i>flintraw.*<p>(i10x</i>".toList),
    .found ("flintraw.*<p>(i1x".toList, "<a>".toList), .plain "</p>".toList]

theorem restore_addAll_oddCalls :
    let (_, table) := addAll ⟨".*<p>(".toList, []⟩ oddCalls
    restore table (sourceOf Prod.fst oddPieces) = sourceOf Prod.snd oddPieces := by
  have hliteral : ∀ t, .plain t ∈ oddPieces → t = "<!--".toList ∨ t = "</p>".toList := by
    simp [oddPieces]
  obtain ⟨-, -, -, hrestore⟩ := restore_addAll ".*<p>(".toList oddCalls
  refine hrestore oddPieces ⟨?_, fun t ht => ?_, fun t ht => ?_⟩ (by decide +kernel)
  · exact .cons_cons (fun _ _ _ => nofun) (.cons_cons (fun _ _ => nofun) (.cons_cons (fun _ _ => nofun)
      (.cons_cons (fun _ _ => nofun) (.singleton _))))
  · rcases hliteral t ht with rfl | rfl <;> decide
  · rcases hliteral t ht with rfl | rfl <;> decide

end Sitewright.RawTable
