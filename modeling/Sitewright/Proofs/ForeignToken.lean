import Sitewright.Proofs.BlockTag
import Sitewright.Proofs.Splitting

/-!
Tokens that a table does not hold. Restoring leaves such a token in its place, but it takes away the
paragraph around a token of a fence that is alone in it.
-/
namespace Sitewright

namespace Text

/-- Text does not reach across a word that it neither holds nor ends in the beginning of. -/
lemma prefix_cut {word m t : Text} {c : Char} (hin : ¬ word <:+: m.tail) (hlast : m.getLast? = some c)
    (hc : c ∉ word.dropLast) (ht : t ≠ []) (s : Text) : m <+: t ++ (word ++ s) ↔ m <+: t := by
  refine ⟨?_, fun h => h.trans (List.prefix_append _ _)⟩
  rintro ⟨rest, h⟩
  rcases List.append_eq_append_iff.mp h with ⟨a, rfl, -⟩ | ⟨z, rfl, hz⟩
  · exact List.prefix_append m a
  · -- the end `z` of the text starts with the word, or the word starts with it
    by_cases hnil : z = []
    · simp [hnil]
    exfalso
    rw [List.tail_append_of_ne_nil ht] at hin
    rw [List.getLast?_append_of_ne_nil t hnil, List.getLast?_eq_some_getLast hnil, Option.some.injEq] at hlast
    rcases List.append_eq_append_iff.mp hz with ⟨b, rfl, -⟩ | ⟨b, rfl, -⟩
    · exact hin ((List.prefix_append word b).isInfix.trans (List.suffix_append _ _).isInfix)
    · rcases List.eq_nil_or_concat' b with rfl | ⟨b, d, rfl⟩
      · rw [List.append_nil] at hin
        exact hin (List.suffix_append _ _).isInfix
      · apply hc
        rw [← List.append_assoc, List.dropLast_concat, ← hlast]
        exact List.mem_append_left b (List.getLast_mem hnil)

/-- A word is in a text only behind what lacks its first character. -/
lemma infix_of_infix_append {c : Char} {x a b : Text} (hc : c ∉ a) (h : c :: x <:+: a ++ b) : c :: x <:+: b := by
  obtain ⟨u, v, huv⟩ := h
  rw [List.append_assoc, List.cons_append] at huv
  have hle := length_le_of_not_mem huv hc
  have hb : b = (u ++ c :: (x ++ v)).drop a.length := by rw [huv, List.drop_left]
  rw [List.drop_append_of_le_length hle] at hb
  exact ⟨u.drop a.length, v, by rw [hb, List.append_assoc, List.cons_append]⟩

end Text

namespace RawTable
open Text (Piece constructs isBlank sourceOf)

section Opening

variable {nonce token : Text}

/-- A tag that opens a paragraph in a token stands in its nonce. -/
lemma IsToken.nonce_holds_tag (h : IsToken nonce token) (hin : "<p>".toList <:+: token) :
    "<p>".toList <:+: nonce := by
  obtain ⟨word, number, mark, hlike⟩ := h
  have hwords : ∀ word ∈ words, ∃ front last, word = front ++ [last] ∧ last ∉ "<p>".toList ∧
      ¬ "<p>".toList <:+: front := by
    simp only [words, List.forall_mem_cons]
    exact ⟨⟨"<!--flint-raw".toList, '-', rfl, by decide, by decide⟩,
      ⟨"flintra".toList, 'w', rfl, by decide, by decide⟩, List.forall_mem_nil _⟩
  have hmark : ∀ mark ∈ ['-', 'i'], mark ∉ "<p>".toList := Text.forall_of_all (by decide)
  obtain ⟨front, last, rfl, hlast, hfront⟩ := hwords word hlike.word_mem
  rw [hlike.eq, ← List.append_assoc] at hin
  rcases Text.infix_append_cons (hmark mark hlike.mark_mem) hin with hin | hin
  · rw [List.append_assoc] at hin
    exact (Text.infix_append_cons hlast hin).resolve_left hfront
  · have hopening : '<' ∈ number := hin.subset (by decide)
    exact absurd (List.mem_cons_of_mem mark hopening) (hlike.not_mem_number (by decide))

variable (hnonce : ¬ "<p>".toList <:+: nonce)
include hnonce

lemma IsLone.tail_lacks_tag {paragraph : Text} (h : IsLone nonce token paragraph) :
    ¬ "<p>".toList <:+: paragraph.tail := by
  obtain ⟨⟨digits, -, hdigits, rfl⟩, before, after, hblanks, rfl⟩ := h
  have htoken := isToken_block nonce hdigits
  have hblank : '<' ∉ before ++ after := fun hmem => absurd (hblanks '<' hmem) (by decide)
  rw [List.mem_append, not_or] at hblank
  have hfront : '<' ∉ "p>".toList ++ before := by simpa using hblank.1
  have hback : '<' ∉ "->".toList ++ after := by simpa using hblank.2
  have htail : ("<p>".toList ++ before ++ (blockLead nonce ++ digits ++ "-->".toList ++ (after ++ "</p>".toList))).tail =
      ("p>".toList ++ before) ++ ((blockLead nonce ++ digits) ++ '-' :: (("->".toList ++ after) ++ "</p>".toList)) := by
    simp
  rw [htail]
  intro hin
  -- the bracket of the tag is in the token or in front of its own slash
  rcases Text.infix_append_cons (by decide) (Text.infix_of_infix_append hfront hin) with hin | hin
  · exact hnonce (htoken.nonce_holds_tag (hin.trans (List.prefix_append _ _).isInfix))
  · exact absurd (Text.infix_of_infix_append hback hin) (by decide)

variable {t : Text} (ht : t ≠ []) (s : Text)
include ht

lemma numberedAt?_opening {lead close : Text} {c d : Char} (hd : Text.isDigit d = false)
    (hlast : (d :: close).getLast? = some c) (hc : c ∉ "<p>".toList.dropLast)
    (htoken : ∀ token, IsNumbered lead (d :: close) token → IsToken nonce token) :
    numberedAt? lead (d :: close) (t ++ ("<p>".toList ++ s)) = numberedAt? lead (d :: close) t := by
  apply Option.ext
  intro token
  rw [numberedAt?_eq_some hd, numberedAt?_eq_some hd]
  refine and_congr_right fun h => ?_
  have hin : ¬ "<p>".toList <:+: token.tail := fun hin =>
    hnonce ((htoken token h).nonce_holds_tag (hin.trans (List.tail_suffix token).isInfix))
  obtain ⟨digits, -, -, rfl⟩ := h
  apply Text.prefix_cut hin _ hc ht
  rwa [List.getLast?_append_of_ne_nil _ (List.cons_ne_nil d close)]

lemma paragraphAt?_opening : paragraphAt? nonce (t ++ ("<p>".toList ++ s)) = paragraphAt? nonce t := by
  apply Option.ext
  intro hit
  rw [paragraphAt?_eq_some, paragraphAt?_eq_some]
  refine exists_congr fun paragraph => and_congr_right fun h => and_congr_right fun _ => ?_
  have hin := h.tail_lacks_tag hnonce
  obtain ⟨-, before, after, -, rfl⟩ := h
  have hlast : ("<p>".toList ++ before ++ (hit.value ++ (after ++ "</p>".toList))).getLast? = some '>' := by
    rw [List.getLast?_append_of_ne_nil _ (by simp), List.getLast?_append_of_ne_nil _ (by simp),
      List.getLast?_append_of_ne_nil _ (by simp)]
    rfl
  exact Text.prefix_cut hin hlast (by decide) ht s

/-- Nothing is found across the tag that opens a paragraph. -/
lemma findToken_opening : findToken nonce [] (t ++ ("<p>".toList ++ s)) = findToken nonce [] t := by
  have hblock : blockTokenAt? nonce (t ++ ("<p>".toList ++ s)) = blockTokenAt? nonce t :=
    numberedAt?_opening hnonce ht s (by decide) rfl (by decide) fun _ ⟨_, _, hdigits, heq⟩ =>
      heq ▸ isToken_block nonce hdigits
  have hinline : inlineTokenAt? nonce (t ++ ("<p>".toList ++ s)) = inlineTokenAt? nonce t :=
    numberedAt?_opening hnonce ht s (by decide) rfl (by decide) fun _ ⟨_, _, hdigits, heq⟩ =>
      heq ▸ isToken_inline nonce hdigits
  rw [findToken, findToken, paragraphAt?_opening hnonce ht s, hblock, hinline]

end Opening

section Restoring

lemma exact_findToken (nonce : Text) : (findToken nonce).withSource.Exact Prod.fst := by
  apply Text.Finder.exact_withSource
  intro before after hit h
  obtain ⟨source, hne, hsize, hprefix, -⟩ := findToken_source h
  rw [hsize]
  exact ⟨mt List.length_eq_zero_iff.mp hne, hprefix.length_le⟩

variable {table : RawTable} {html : Text} (h : ∀ e ∈ table.entries, ¬ e.1 <:+: html)
include h

lemma lookup_of_absent {token : Text} (htoken : token <:+: html) :
    (table.entries.lookup token).getD token = token := by
  rw [lookup_eq_none.mpr, Option.getD_none]
  intro hmem
  obtain ⟨e, he, rfl⟩ := List.mem_map.mp hmem
  exact h e he htoken

/-- A text is cut at the tokens found in it, and of every piece at least the token stays. -/
lemma restore_pieces : ∃ ps : List (Piece (Text × Text)), sourceOf Prod.fst ps = html ∧
    restore table html = sourceOf Prod.snd ps ∧
      ∀ v ∈ constructs ps, v.1 <:+: html ∧ (v.1 = v.2 ∨ IsLone table.nonce v.2 v.1) := by
  by_cases hempty : table.entries.isEmpty = true
  · refine ⟨[.plain html], by simp [sourceOf, Piece.source], ?_, by simp⟩
    rw [restore, if_pos hempty]
    simp [sourceOf, Piece.source]
  have hexact := exact_findToken table.nonce
  refine ⟨Text.pieces (findToken table.nonce).withSource html, Text.sourceOf_pieces hexact html, ?_, fun v hv => ?_⟩
  · have hkept : restore table html = Text.substitute (findToken table.nonce) id html := by
      rw [restore, if_neg hempty]
      exact Text.substitute_congr (findToken_local _) fun s hit hs hfind =>
        lookup_of_absent h ((findToken_value hfind).trans hs.isInfix)
    rw [hkept, Text.substitute_eq_sourceOf, ← Text.map_pieces_withSource, Text.sourceOf_map]
    rfl
  · have hmem := Text.mem_constructs.mp hv
    refine ⟨?_, ?_⟩
    · have hpart : v.1 <:+: sourceOf Prod.fst _ := List.infix_of_mem_flatten (List.mem_map_of_mem hmem)
      rwa [Text.sourceOf_pieces hexact] at hpart
    · obtain ⟨before, after, size, hfind, htake⟩ := Text.find_of_mem_withSource hexact hmem
      obtain ⟨source, -, rfl, hprefix, -, hsource⟩ := findToken_source hfind
      rw [← List.prefix_iff_eq_take.mp hprefix] at htake
      exact htake ▸ hsource

/-- Nothing changes in a text without a paragraph around a lone token. -/
lemma restore_eq_self (hlone : ∀ token paragraph, IsLone table.nonce token paragraph → ¬ paragraph <:+: html) :
    restore table html = html := by
  obtain ⟨ps, hsource, hrestore, hps⟩ := restore_pieces h
  rw [hrestore, ← hsource]
  refine List.flatMap_congr fun p hp => ?_
  cases p with
  | plain t => rfl
  | found v =>
    obtain ⟨hin, hv⟩ := hps v (Text.mem_constructs.mpr hp)
    exact (hv.resolve_right fun hv => hlone _ _ hv hin).symm

/-- The paragraph around a lone token is taken away. -/
lemma restore_lone (hentries : table.entries ≠ []) (hnonce : ¬ "<p>".toList <:+: table.nonce)
    {front token paragraph back : Text} (hlone : IsLone table.nonce token paragraph)
    (hhtml : html = front ++ (paragraph ++ back)) :
    restore table html = restore table front ++ (token ++ restore table back) := by
  have hlocal := findToken_local table.nonce
  have hkept : (table.entries.lookup token).getD token = token := by
    apply lookup_of_absent h
    obtain ⟨-, before, after, -, rfl⟩ := hlone
    exact ⟨front ++ ("<p>".toList ++ before), after ++ "</p>".toList ++ back, by simp [hhtml]⟩
  obtain ⟨inner, hinner⟩ : ∃ inner, paragraph = "<p>".toList ++ inner := by
    obtain ⟨-, before, after, -, rfl⟩ := hlone
    exact ⟨_, List.append_assoc _ _ _⟩
  have hempty : ¬ table.entries.isEmpty = true := mt List.isEmpty_iff.mp hentries
  rw [restore, restore, restore, if_neg hempty, if_neg hempty, if_neg hempty, hhtml, Text.substitute_append hlocal,
    Text.substitute_hit hlocal (findToken_lone hlone [] back) rfl (by simp [hinner]), hkept]
  · -- what is found in front of the paragraph does not reach into it
    intro u v _ hv
    rw [hinner, List.append_assoc]
    exact findToken_opening hnonce hv _
  · intro u v hit _ hhit
    obtain ⟨source, -, hsize, hprefix, -⟩ := findToken_source hhit
    rw [hsize]
    exact hprefix.length_le

end Restoring

/-- In a text without tokens of the table, everything stays but paragraphs around lone tokens of fences,
which are taken away down to their tokens. -/
theorem restore_foreign (table : RawTable) (html : Text) (h : ∀ e ∈ table.entries, ¬ e.1 <:+: html) :
    (∃ ps : List (Piece (Text × Text)), sourceOf Prod.fst ps = html ∧ restore table html = sourceOf Prod.snd ps ∧
      ∀ v ∈ constructs ps, v.1 = v.2 ∨ IsLone table.nonce v.2 v.1) ∧
    ((∀ token paragraph, IsLone table.nonce token paragraph → ¬ paragraph <:+: html) → restore table html = html) ∧
    (table.entries ≠ [] → ¬ "<p>".toList <:+: table.nonce → ∀ front token paragraph back,
      IsLone table.nonce token paragraph → html = front ++ (paragraph ++ back) →
        restore table html = restore table front ++ (token ++ restore table back)) := by
  refine ⟨?_, restore_eq_self h, fun hentries hnonce front token paragraph back => restore_lone h hentries hnonce⟩
  obtain ⟨ps, hsource, hrestore, hps⟩ := restore_pieces h
  exact ⟨ps, hsource, hrestore, fun v hv => (hps v hv).2⟩

/-- A table of one fence. -/
def ruleTable : RawTable := ⟨"n".toList, [(blockToken "n".toList 0, "<hr>".toList)]⟩

theorem restore_foreign_ruleTable :
    (∀ e ∈ ruleTable.entries, ¬ e.1 <:+: "a<p> <!--flint-raw-n-7--> </p>b".toList) ∧
      restore ruleTable "a<p> <!--flint-raw-n-7--> </p>b".toList = "a<!--flint-raw-n-7-->b".toList := by
  have habsent : ∀ e ∈ ruleTable.entries, ¬ e.1 <:+: "a<p> <!--flint-raw-n-7--> </p>b".toList := by
    decide +kernel
  have hlone : IsLone ruleTable.nonce (blockToken "n".toList 7) "<p> <!--flint-raw-n-7--> </p>".toList :=
    ⟨isNumbered_blockToken 7, [' '], [' '], Text.forall_of_all (by decide), by decide +kernel⟩
  have hrestore := (restore_foreign ruleTable _ habsent).2.2 (List.cons_ne_nil _ _) (by decide)
    ['a'] _ _ ['b'] hlone (by decide +kernel)
  have hplain : restore ruleTable ['a'] = ['a'] ∧ restore ruleTable ['b'] = ['b'] := by decide +kernel
  refine ⟨habsent, ?_⟩
  rw [hrestore, hplain.1, hplain.2]
  decide +kernel

end RawTable
end Sitewright
