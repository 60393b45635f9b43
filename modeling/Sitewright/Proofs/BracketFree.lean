import Sitewright.Proofs.FencedBlock
import Sitewright.Proofs.Mark
import Sitewright.Proofs.RawHtmlScan
import Sitewright.Proofs.Scan

/-!
Sources without angle brackets. No raw HTML is found in them, so what is kept of them is the HTML of
their fenced blocks of code.
-/
namespace Sitewright

namespace Text

/-- Plain pieces and what is found come from the text. -/
lemma mem_piecesFrom {α : Type} {find : Finder α} {before plain t : Text} {n : ℕ} {p : Piece α}
    (h : p ∈ piecesFrom find before plain n t) :
    (∃ q, p = .plain q ∧ ∀ c ∈ q, c ∈ plain ∨ c ∈ t) ∨
      ∃ b after hit, p = .found hit.value ∧ find b after = some hit ∧ after <:+ t := by
  fun_induction piecesFrom find before plain n t with
  | case1 before plain =>
    obtain rfl := List.mem_singleton.mp h
    exact .inl ⟨_, rfl, fun c hc => .inl (List.mem_reverse.mp hc)⟩
  | case2 before plain n c cs ih =>
    rcases ih h with ⟨q, rfl, hq⟩ | ⟨b, after, hit, rfl, hfind, hafter⟩
    · exact .inl ⟨q, rfl, fun d hd => (hq d hd).imp_right (List.mem_cons_of_mem c)⟩
    · exact .inr ⟨b, after, hit, rfl, hfind, hafter.trans (List.suffix_cons c cs)⟩
  | case3 before plain c cs hit hfind ih =>
    rcases List.mem_cons.mp h with rfl | h
    · exact .inl ⟨_, rfl, fun d hd => .inl (List.mem_reverse.mp hd)⟩
    · rcases List.mem_cons.mp h with rfl | h
      · exact .inr ⟨before, c :: cs, hit, rfl, hfind, List.suffix_rfl⟩
      · rcases ih h with ⟨q, rfl, hq⟩ | ⟨b, after, hit, rfl, hfind, hafter⟩
        · refine .inl ⟨q, rfl, fun d hd => .inr ?_⟩
          exact (hq d hd).elim (fun hd => by cases hd) (List.mem_cons_of_mem c)
        · exact .inr ⟨b, after, hit, rfl, hfind, hafter.trans (List.suffix_cons c cs)⟩
  | case4 before plain c cs hfind ih =>
    rcases ih h with ⟨q, rfl, hq⟩ | ⟨b, after, hit, rfl, hfind, hafter⟩
    · refine .inl ⟨q, rfl, fun d hd => ?_⟩
      rcases hq d hd with hd | hd
      · rcases List.mem_cons.mp hd with rfl | hd
        · exact .inr List.mem_cons_self
        · exact .inl hd
      · exact .inr (List.mem_cons_of_mem c hd)
    · exact .inr ⟨b, after, hit, rfl, hfind, hafter.trans (List.suffix_cons c cs)⟩

end Text

namespace Markdown

lemma Mark.bracket_not_mem_html (n : ℕ) : '<' ∉ Mark.html n :=
  fun h => (isPart_of_mem h).ne (by decide) rfl

namespace FencedCode

section Classes

lemma subset_of_itemAt? {t name : Text} {size : ℕ} (h : itemAt? t = some (.cssClass name, size)) :
    name ⊆ t := by
  unfold itemAt? at h
  split at h
  · cases h
  · cases h
  · rename_i word rest _ _ hspan
    obtain ⟨rfl, -⟩ := Text.spanWhile_eq hspan
    extract_lets alone at h
    have halone : ∀ size', some (alone, size') = some (Item.cssClass name, size) → name ⊆ word := by
      intro size' hsame
      have hitem : alone = .cssClass name := (Prod.mk.inj (Option.some.inj hsame)).1
      unfold alone at hitem
      split at hitem
      · obtain rfl := Item.cssClass.inj hitem
        exact List.subset_cons_self _ _
      · cases hitem
      · cases hitem
    refine List.Subset.trans ?_ (List.subset_append_left word rest)
    split at h
    · split at h
      · cases h
      · split at h
        · exact halone _ h
        · cases h
    · exact halone _ h

lemma subset_of_mem_items {fuel : ℕ} {t name : Text} (h : .cssClass name ∈ (items fuel t).1) : name ⊆ t := by
  fun_induction items fuel t with
  | case1 => cases h
  | case2 => cases h
  | case3 => cases h
  | case4 fuel t _ item size hitem rest stop hrest ih =>
    rcases List.mem_cons.mp h with rfl | h
    · exact subset_of_itemAt? hitem
    · rw [hrest] at ih
      exact List.Subset.trans (ih h) (List.drop_subset size t)

lemma classes_of_ofAttributes? {t : Text} {info : Info} (h : Info.ofAttributes? t = some info) :
    ∀ name ∈ info.classes, name ⊆ t := by
  intro name hname
  unfold Info.ofAttributes? at h
  dsimp only at h
  split at h
  · cases h
  · obtain rfl := Option.some.inj h
    obtain ⟨item, hitem, hclass⟩ := List.mem_filterMap.mp (List.mem_of_mem_drop hname)
    split at hclass
    · obtain rfl := Option.some.inj hclass
      exact subset_of_mem_items hitem
    · cases hclass

lemma classes_of_languageLine? {t rest : Text} {n : ℕ} {info : Info}
    (h : languageLine? t n = some (info, rest)) : info.classes = [] := by
  have hafter : ∀ t, afterLanguage? t = some (info, rest) → info.classes = [] := by
    intro t h
    unfold afterLanguage? at h
    split at h
    · obtain ⟨rfl, -⟩ := Prod.mk.inj (Option.some.inj h)
      rfl
    · obtain ⟨quoted, -, h⟩ := Option.bind_eq_some_iff.mp h
      split at h
      · split at h
        · obtain ⟨list, -, heq⟩ := Option.map_eq_some_iff.mp h
          obtain ⟨rfl, -⟩ := Prod.mk.inj heq
          rfl
        · cases h
      · cases h
  induction n with
  | zero => exact hafter _ h
  | succ n ih =>
    rw [languageLine?, Option.orElse_eq_orElse, Option.orElse_eq_or, Option.or_eq_some_iff] at h
    rcases h with h | ⟨-, h⟩
    · exact hafter _ h
    · exact ih h

/-- The classes of a fenced block stand in the line that opens it. -/
lemma classes_of_openingLine? {t rest : Text} {info : Info} (h : openingLine? t = some (some info, rest)) :
    ∀ name ∈ info.classes, name ⊆ t := by
  unfold openingLine? at h
  split at h
  · rename_i body
    split at h
    · rename_i line rest' hline
      split at h
      · rename_i attributes hreverse
        intro name hname
        have hattributes := (Prod.mk.inj (Option.some.inj h)).1
        refine List.Subset.trans (classes_of_ofAttributes? hattributes name hname) fun c hc => ?_
        have hin : c ∈ line := by
          rw [← List.mem_reverse, hreverse]
          exact List.mem_cons_of_mem _ (List.mem_reverse.mp hc)
        rw [Text.cutLine_some hline]
        exact List.mem_cons_of_mem _ (List.mem_append_left _ hin)
      · cases h
    · cases h
  · obtain ⟨⟨info', rest'⟩, hfound, heq⟩ := Option.map_eq_some_iff.mp h
    obtain ⟨heq, -⟩ := Prod.mk.inj heq
    obtain rfl := Option.some.inj heq
    rw [classes_of_languageLine? hfound]
    simp

lemma classes_of_find {before after : Text} {hit : Text.Hit Block} (h : find before after = some hit) :
    ∀ name ∈ hit.value.info.classes, name ⊆ after := by
  unfold find at h
  split at h
  · split at h
    · cases h
    · rename_i c cs
      dsimp only at h
      split at h
      · obtain ⟨⟨info, body⟩, hopening, h⟩ := Option.bind_eq_some_iff.mp h
        obtain ⟨⟨code, size⟩, -, h⟩ := Option.bind_eq_some_iff.mp h
        obtain ⟨info', rfl, rfl⟩ := Option.map_eq_some_iff.mp h
        intro name hname
        refine List.Subset.trans (classes_of_openingLine? hopening name hname) fun d hd => ?_
        have hrest : d ∈ (c :: cs).dropWhile (· = c) := (List.dropWhile_suffix _).subset hd
        exact (List.dropWhile_suffix _).subset hrest
      · cases h
  · cases h

end Classes

/-- Marks in place of fenced blocks bring no bracket into the text. -/
lemma extractFrom_clean (kept : List Text) {ps : List (Text.Piece Block)} (h : ∀ p, .plain p ∈ ps → '<' ∉ p) :
    '<' ∉ (extractFrom kept ps).1 := by
  induction ps generalizing kept with
  | nil => exact List.not_mem_nil
  | cons p ps ih =>
    have hps := fun kept => ih kept fun q hq => h q (List.mem_cons_of_mem p hq)
    cases p with
    | plain q =>
      rw [extractFrom, List.mem_append, not_or]
      exact ⟨h q List.mem_cons_self, hps kept⟩
    | found b =>
      have htext := hps (kept ++ [b.html])
      rw [extractFrom]
      simp [htext, Mark.bracket_not_mem_html]

/-- Of a source without brackets the HTML of fenced blocks is kept, their classes without brackets. -/
lemma extract_clean {source : Text} (h : '<' ∉ source) : '<' ∉ (extract source).1 ∧
    ∀ html ∈ (extract source).2, ∃ b : Block, html = b.html ∧ ∀ name ∈ b.info.classes, '<' ∉ name := by
  have hplain : ∀ p, .plain p ∈ Text.pieces find source → '<' ∉ p := by
    intro p hp
    rcases Text.mem_piecesFrom hp with ⟨q, hq, hchars⟩ | ⟨_, _, _, hfound, -⟩
    · obtain rfl := Text.Piece.plain.inj hq
      intro hmem
      exact (hchars _ hmem).elim (fun hmem => by cases hmem) h
    · cases hfound
  refine ⟨extractFrom_clean [] hplain, fun html hhtml => ?_⟩
  rw [extract, extractFrom_kept, List.nil_append] at hhtml
  obtain ⟨b, hb, rfl⟩ := List.mem_map.mp hhtml
  rcases Text.mem_piecesFrom (Text.mem_constructs.mp hb) with ⟨q, hq, -⟩ | ⟨_, after, hit, hfound, hfind, hafter⟩
  · cases hq
  · obtain rfl := Text.Piece.found.inj hfound
    exact ⟨_, rfl, fun name hname hmem => h (hafter.subset (classes_of_find hfind name hname hmem))⟩

end FencedCode

namespace RawHtml

/-- The scan has found no raw HTML so far. -/
structure Clear (kept : List Text) (s : RawHtml) : Prop extends Outside s where
  trailing : s.trailing = false
  raw : s.raw = []
  kept : s.kept = kept
  clean : ∀ t ∈ s.clean, '<' ∉ t

section Clear

variable {kept : List Text} {s : RawHtml}

lemma Clear.advance (h : Clear kept s) (t : Text) : Clear kept (s.advance t) := by
  unfold RawHtml.advance
  dsimp only
  split <;> exact ⟨⟨h.inside, h.verbatimTag⟩, h.trailing, h.raw, h.kept, h.clean⟩

lemma Clear.keepText (h : Clear kept s) {t : Text} (ht : '<' ∉ t) : Clear kept (s.keepText t) :=
  ⟨⟨h.inside, h.verbatimTag⟩, h.trailing, h.raw, h.kept, List.forall_mem_cons.mpr ⟨ht, h.clean⟩⟩

lemma Clear.onText (h : Clear kept s) {t : Text} (ht : '<' ∉ t) : Clear kept (s.onText t) := by
  unfold RawHtml.onText
  rw [h.trailing]
  simp only [Bool.false_and, Bool.false_eq_true, if_false, h.inside]
  exact h.keepText ht

/-- A character reference is text. -/
lemma Clear.onEmpty (h : Clear kept s) {t : Text} (ht : '<' ∉ t) : Clear kept (s.onEmpty t false) := by
  obtain ⟨starts, lines, hstart⟩ := s.atLineStart_eq
  have hlines : Clear kept { s with starts := lines } :=
    ⟨⟨h.inside, h.verbatimTag⟩, h.trailing, h.raw, h.kept, h.clean⟩
  unfold RawHtml.onEmpty
  rw [h.inside, h.trailing, hstart]
  simpa using hlines.keepText ht

lemma numberReference?_subset {t name after : Text} (h : numberReference? t = some (name, after)) :
    name ⊆ t ∧ after ⊆ t := by
  unfold numberReference? at h
  split at h
  · rename_i rest
    split at h
    rename_i lead digits hlead
    obtain rfl : rest = lead ++ digits := by
      split at hlead
      all_goals
        obtain ⟨rfl, rfl⟩ := Prod.mk.inj hlead
        rfl
    extract_lets isHex at h
    generalize (if lead.isEmpty then Char.isDigit else isHex) = isPart at h
    split at h
    rename_i digits' after' hspan
    obtain ⟨rfl, -⟩ := Text.spanWhile_eq hspan
    split at h
    · rename_i c cs
      split at h
      · cases h
      · obtain ⟨rfl, rfl⟩ := Prod.mk.inj (Option.some.inj h)
        constructor
        · intro d hd
          simp only [List.mem_cons, List.mem_append] at hd ⊢
          tauto
        · intro d hd
          have hin : d ∈ c :: cs := by
            split at hd
            · exact List.mem_cons_of_mem c hd
            · exact hd
          simp only [List.mem_cons, List.mem_append] at hin ⊢
          tauto
    · cases h
  · cases h

lemma nameReference?_subset {t name after : Text} (h : nameReference? t = some (name, after)) :
    name ⊆ t ∧ after ⊆ t := by
  unfold nameReference? at h
  split at h
  · split at h
    · split at h
      · rename_i c cs _ more after' hspan
        obtain ⟨rfl, -⟩ := Text.spanWhile_eq hspan
        obtain ⟨rfl, rfl⟩ := Prod.mk.inj (Option.some.inj h)
        constructor
        · intro d hd
          simp only [List.mem_cons, List.mem_append] at hd ⊢
          tauto
        · intro d hd
          simp [hd]
      · cases h
    · cases h
  · cases h

/-- A text without brackets is read as text. -/
lemma Clear.pass (h : Clear kept s) (final : Bool) (fuel : ℕ) {t : Text} (ht : '<' ∉ t) :
    Clear kept (RawHtml.pass final fuel s t).1 ∧ '<' ∉ (RawHtml.pass final fuel s t).2 := by
  induction fuel generalizing s t with
  | zero => exact ⟨h, ht⟩
  | succ fuel ih =>
    obtain ⟨plain, hplain⟩ : ∃ plain, plain = t.takeWhile fun c => c ≠ '<' && c ≠ '&' := ⟨_, rfl⟩
    obtain ⟨s', hs'⟩ : ∃ s', s' = if plain.isEmpty then s else (s.onText plain).advance plain := ⟨_, rfl⟩
    have hread : Clear kept s' := by
      rw [hs']
      split
      · exact h
      · refine (h.onText fun hmem => ht ?_).advance _
        rw [hplain] at hmem
        exact (List.takeWhile_prefix _).subset hmem
    have hrest : '<' ∉ t.drop plain.length := fun hmem => ht (List.mem_of_mem_drop hmem)
    rw [RawHtml.pass, h.verbatimTag]
    simp only [← hplain, ← hs']
    generalize t.drop plain.length = rest at hrest
    have hsub : ∀ {u : Text}, u ⊆ rest → '<' ∉ u := fun hu hmem => hrest (hu hmem)
    split
    · exact ⟨hread, by simp⟩
    · exact absurd List.mem_cons_self hrest
    · split
      · rename_i name after hreference
        obtain ⟨hname, hafter⟩ := numberReference?_subset hreference
        refine ih ((hread.onEmpty ?_).advance _) (hsub hafter)
        simp [hsub hname]
      · split
        · dsimp only
          exact ⟨(hread.onText (hsub (List.take_subset 2 _))).advance _, hsub (List.drop_subset 2 _)⟩
        · exact ⟨hread, hrest⟩
    · split
      · rename_i name after hreference
        obtain ⟨hname, hafter⟩ := nameReference?_subset hreference
        refine ih ((hread.onEmpty ?_).advance _) (hsub hafter)
        simp [hsub hname]
      · exact ih ((hread.onText (hsub (List.take_subset _ _))).advance _) (hsub (List.drop_subset _ _))

/-- Nothing is kept of a text without brackets. -/
lemma extract_clear {source : Text} (h : '<' ∉ source) (kept : List Text) :
    '<' ∉ (extract source kept).1 ∧ (extract source kept).2 = kept := by
  have hstart : Clear kept { source, kept } := ⟨⟨rfl, rfl⟩, rfl, rfl, rfl, by simp⟩
  unfold extract
  extract_lets fuel
  split
  rename_i s rest hfirst
  obtain ⟨hread, hrest⟩ := hstart.pass false fuel h
  rw [hfirst] at hread hrest
  split
  rename_i s' rest' hsecond
  have hagain : Clear kept { s with source := rest } :=
    ⟨⟨hread.inside, hread.verbatimTag⟩, hread.trailing, hread.raw, hread.kept, hread.clean⟩
  obtain ⟨hread', hrest'⟩ := hagain.pass true fuel hrest
  rw [hsecond] at hread' hrest'
  obtain ⟨last, hlast⟩ : ∃ last, last = if rest'.isEmpty then s' else s'.onText rest' := ⟨_, rfl⟩
  have hdone : Clear kept last := by
    rw [hlast]
    split
    · exact hread'
    · exact hread'.onText hrest'
  simp only [← hlast, hdone.raw, List.isEmpty_nil, if_true]
  refine ⟨?_, hdone.kept⟩
  rw [List.mem_flatten]
  rintro ⟨t, ht, hmem⟩
  exact hdone.clean t (List.mem_reverse.mp ht) hmem

end Clear

end RawHtml

end Markdown

end Sitewright
