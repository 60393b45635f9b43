import Sitewright.Proofs.BlockMark

/-!
Where the text of blocks comes from. Whatever a rule of the block structure reads off a block is written
with the characters of the block, and with line feeds.
-/
namespace Sitewright.Markdown.Block
open Text (join splitOn)

/-- Every character of a text is in another one, line feeds aside. -/
def Within (t source : Text) : Prop := ∀ c ∈ t, c = '\n' ∨ c ∈ source

section Within

variable {t u source : Text}

lemma within_of_subset (h : t ⊆ source) : Within t source := fun _ hc => .inr (h hc)

lemma within_nil (source : Text) : Within [] source := fun _ hc => by cases hc

lemma Within.trans (h : Within t u) (hu : Within u source) : Within t source :=
  fun c hc => (h c hc).elim .inl (hu c)

lemma Within.of_subset (h : Within u source) (ht : t ⊆ u) : Within t source := fun c hc => h c (ht hc)

lemma Within.append (ht : Within t source) (hu : Within u source) : Within (t ++ u) source :=
  fun c hc => (List.mem_append.mp hc).elim (ht c) (hu c)

lemma Within.not_mem (h : Within t source) {c : Char} (hfeed : c ≠ '\n') (hc : c ∉ source) : c ∉ t :=
  fun hmem => (h c hmem).elim hfeed hc

lemma within_join {lines : List Text} (h : ∀ line ∈ lines, Within line source) :
    Within (join ['\n'] lines) source := by
  intro c hc
  rcases Text.mem_join hc with hc | ⟨line, hline, hc⟩
  · exact .inl (List.mem_singleton.mp hc)
  · exact h line hline c hc

lemma within_of_mem_splitOn {line : Text} (h : line ∈ splitOn '\n' source) : Within line source :=
  fun _ hc => .inr (Text.mem_of_mem_splitOn h hc)

end Within

section Rules

lemma within_of_mem_parts {t part : Text} (h : part ∈ parts t) : Within part t := by
  have hgo : ∀ read t, part ∈ parts.go read t → Within part (read ++ t) := by
    intro read t
    fun_induction parts.go read t with
    | case1 read =>
      intro hpart
      rw [List.mem_singleton.mp hpart]
      exact within_of_subset (by simp)
    | case2 read cs ih =>
      intro hpart
      rcases List.mem_cons.mp hpart with rfl | hpart
      · exact within_of_subset fun c hc => by simp_all
      · exact (ih hpart).trans (within_of_subset fun c hc => by simp_all)
    | case3 read c cs hne ih =>
      intro hpart
      exact (ih hpart).trans (within_of_subset fun d hd => by simp_all [or_left_comm])
  exact hgo [] t h

lemma within_detabLines {lines : List Text} {source : Text} (h : ∀ line ∈ lines, Within line source) :
    (∀ line ∈ (detabLines lines).1, Within line source) ∧ ∀ line ∈ (detabLines lines).2, Within line source := by
  induction lines with
  | nil => exact ⟨h, h⟩
  | cons line lines ih =>
    obtain ⟨hline, hlines⟩ := List.forall_mem_cons.mp h
    obtain ⟨hcode, hrest⟩ := ih hlines
    rw [detabLines]
    split
    · exact ⟨List.forall_mem_cons.mpr ⟨hline.of_subset (List.drop_subset _ _), hcode⟩, hrest⟩
    · split
      · exact ⟨List.forall_mem_cons.mpr ⟨within_nil source, hcode⟩, hrest⟩
      · exact ⟨by simp, h⟩

lemma within_detab (t : Text) : Within (detab t).1 t ∧ Within (detab t).2 t := by
  have hlines : ∀ line ∈ splitOn '\n' t, Within line t := fun _ hline => within_of_mem_splitOn hline
  obtain ⟨hcode, hrest⟩ := within_detabLines hlines
  exact ⟨within_join hcode, within_join hrest⟩

lemma within_looseDetab (level : ℕ) (t : Text) : Within (looseDetab level t) t := by
  refine within_join fun part hpart => ?_
  obtain ⟨line, hline, rfl⟩ := List.mem_map.mp hpart
  split
  · exact (within_of_mem_splitOn hline).of_subset (List.drop_subset _ _)
  · exact within_of_mem_splitOn hline

lemma within_underlined? {t text : Text} {level : ℕ} {rest : List Text}
    (h : underlined? t = some (level, text, rest)) : text ⊆ t ∧ ∀ line ∈ rest, line ⊆ t := by
  unfold underlined? at h
  split at h
  · rename_i first second lines hlines
    have hall : ∀ line ∈ first :: second :: lines, line ⊆ t := fun line hline _ hc =>
      Text.mem_of_mem_splitOn (hlines ▸ hline) hc
    simp only [] at h
    split at h
    · obtain ⟨-, rfl, rfl⟩ : _ ∧ Text.strip first = text ∧ lines = rest := by simpa using h
      exact ⟨List.Subset.trans (Text.trim_subset _ _) (hall first List.mem_cons_self),
        fun line hline => hall line (by simp [hline])⟩
    · cases h
  · cases h

lemma within_rule? {t before after : Text} (h : rule? t = some (before, after)) :
    Within before t ∧ Within after t := by
  obtain ⟨k, -, hk⟩ := Option.map_eq_some_iff.mp h
  obtain ⟨rfl, rfl⟩ := Prod.mk.inj hk
  exact ⟨within_join fun line hline => within_of_mem_splitOn (List.mem_of_mem_take hline),
    within_join fun line hline => within_of_mem_splitOn (List.mem_of_mem_drop hline)⟩

lemma marker?_subset {kind : ListKind} {t marker rest : Text} (h : kind.marker? t = some (marker, rest)) :
    rest ⊆ t := by
  unfold ListKind.marker? at h
  split at h
  · split at h
    · rename_i d ds rest' hspan
      obtain ⟨-, rfl⟩ := Prod.mk.inj (Option.some.inj h)
      obtain ⟨rfl, -⟩ := Text.spanWhile_eq hspan
      exact fun c hc => by simp [hc]
    · cases h
  · split at h
    · split at h
      · obtain ⟨-, rfl⟩ := Prod.mk.inj (Option.some.inj h)
        exact List.subset_cons_self _ _
      · cases h
    · cases h

/-- The text of an item begins with no space. -/
lemma itemStart?_some {kind : ListKind} {low high : ℕ} {line marker text : Text}
    (h : itemStart? kind low high line = some (marker, text)) : text ⊆ line ∧ text.head? ≠ some ' ' := by
  unfold itemStart? at h
  dsimp only at h
  split at h
  · obtain ⟨⟨marker', rest⟩, hmarker, h⟩ := Option.bind_eq_some_iff.mp h
    split at h
    · cases h
    · rename_i spaces text' _ hspan
      obtain ⟨-, rfl⟩ := Prod.mk.inj (Option.some.inj h)
      have htext : text' = rest.dropWhile (· = ' ') := (Prod.mk.inj hspan).2.symm
      constructor
      · rw [htext]
        exact fun c hc => List.mem_of_mem_drop (marker?_subset hmarker ((List.dropWhile_suffix _).subset hc))
      · rw [htext]
        intro hhead
        have hnot := List.head?_dropWhile_not (· = ' ') rest
        rw [hhead] at hnot
        simp at hnot
  · cases h

lemma addLine_cases (kind : ListKind) (read : List Text) (line : Text) :
    (∃ text, text ⊆ line ∧ text.head? ≠ some ' ' ∧ addLine kind read line = text :: read) ∨
      addLine kind read line = [] ∨ ∃ last rest, read = last :: rest ∧
        (addLine kind read line = line :: last :: rest ∨ addLine kind read line = (last ++ '\n' :: line) :: rest) := by
  unfold addLine
  split
  · rename_i text hstart
    obtain ⟨hsubset, hhead⟩ := itemStart?_some hstart
    exact .inl ⟨_, hsubset, hhead, rfl⟩
  · exact .inr (.inl rfl)
  · rename_i last rest _
    refine .inr (.inr ⟨last, rest, rfl, ?_⟩)
    dsimp only
    split
    · exact .inl rfl
    · exact .inr rfl

lemma within_of_mem_items {kind : ListKind} {t item : Text} (h : item ∈ items kind t) : Within item t := by
  have hfold : ∀ (lines read : List Text), (∀ line ∈ lines, Within line t) → (∀ item ∈ read, Within item t) →
      ∀ item ∈ lines.foldl (addLine kind) read, Within item t := by
    intro lines
    induction lines with
    | nil => exact fun read _ hread => hread
    | cons line lines ih =>
      intro read hlines hread
      obtain ⟨hline, hrest⟩ := List.forall_mem_cons.mp hlines
      refine ih _ hrest ?_
      rcases addLine_cases kind read line with ⟨text, htext, -, heq⟩ | heq | ⟨last, rest, rfl, heq | heq⟩
      · rw [heq]
        exact List.forall_mem_cons.mpr ⟨hline.of_subset htext, hread⟩
      · rw [heq]
        simp
      · rw [heq]
        exact List.forall_mem_cons.mpr ⟨hline, hread⟩
      · rw [heq]
        obtain ⟨hlast, hread⟩ := List.forall_mem_cons.mp hread
        refine List.forall_mem_cons.mpr ⟨hlast.append fun c hc => ?_, hread⟩
        exact (List.mem_cons.mp hc).elim .inl (hline c)
  exact hfold _ [] (fun line => within_of_mem_splitOn) (by simp) item (List.mem_reverse.mp h)

/-- The first item of a block is not indented. -/
lemma not_isIndented_of_mem_head {kind : ListKind} {t item : Text} (h : item ∈ (items kind t).head?) :
    isIndented item = false := by
  have hfold : ∀ (lines read : List Text), (∀ item ∈ read.getLast?, item.head? ≠ some ' ') →
      ∀ item ∈ (lines.foldl (addLine kind) read).getLast?, item.head? ≠ some ' ' := by
    intro lines
    induction lines with
    | nil => exact fun read hread => hread
    | cons line lines ih =>
      intro read hread
      refine ih _ ?_
      rcases addLine_cases kind read line with ⟨text, -, hhead, heq⟩ | heq | ⟨last, rest, rfl, heq | heq⟩
      · rw [heq]
        cases read with
        | nil => simpa using hhead
        | cons last rest => rwa [List.getLast?_cons_cons]
      · rw [heq]
        simp
      · rw [heq]
        rwa [List.getLast?_cons_cons]
      · rw [heq]
        cases rest with
        | nil =>
          have hlast : last.head? ≠ some ' ' := hread last rfl
          cases last with
          | nil => simp
          | cons c cs => simpa using hlast
        | cons next rest =>
          rw [List.getLast?_cons_cons] at hread ⊢
          exact hread
  have hhead : item.head? ≠ some ' ' := by
    refine hfold (splitOn '\n' t) [] (by simp) item ?_
    rwa [items, List.head?_reverse] at h
  cases item with
  | nil => rfl
  | cons c cs =>
    have hc : ' ' ≠ c := fun heq => hhead (by rw [heq]; rfl)
    simp [isIndented, tab, List.isPrefixOf, hc]

lemma unquote_subset (line : Text) : unquote line ⊆ line := by
  have hdrop : ∀ {u rest : Text}, line.drop (min 3 (line.takeWhile (· = ' ')).length) = u → rest ⊆ u →
      rest ⊆ line := fun hu hrest c hc => List.mem_of_mem_drop (hu ▸ hrest hc)
  unfold unquote
  split
  · exact List.nil_subset _
  · cases hquoted : quoted? line with
    | none => exact List.Subset.refl _
    | some rest =>
      rw [Option.getD_some]
      unfold quoted? at hquoted
      split at hquoted
      · rename_i hline
        obtain rfl := Option.some.inj hquoted
        exact hdrop hline fun c hc => by simp [hc]
      · rename_i hline
        obtain rfl := Option.some.inj hquoted
        exact hdrop hline fun c hc => by simp [hc]
      · cases hquoted

lemma within_quote? {t : Text} {before lines : List Text} (h : quote? t = some (before, lines)) :
    (∀ line ∈ before, Within line t) ∧ ∀ line ∈ lines, Within line t := by
  obtain ⟨k, -, hk⟩ := Option.map_eq_some_iff.mp h
  obtain ⟨rfl, rfl⟩ := Prod.mk.inj hk
  refine ⟨fun line hline => within_of_mem_splitOn (List.mem_of_mem_take hline), fun line hline => ?_⟩
  obtain ⟨line', hline', rfl⟩ := List.mem_map.mp hline
  exact (within_of_mem_splitOn (List.mem_of_mem_drop hline')).of_subset (unquote_subset line')

lemma find?_subset {fresh : Bool} {t before name after : Text} {reference : Reference}
    (h : Reference.find? fresh t = some (before, name, reference, after)) : before ⊆ t ∧ after ⊆ t := by
  obtain ⟨middle, rfl, -⟩ := exists_find h
  exact ⟨List.subset_append_left _ _, fun c hc => by simp [hc]⟩

end Rules

section Tables

lemma cutAt_subset {origin : ℕ} {t part : Text} {places : List ℕ} (h : part ∈ Table.cutAt origin t places) :
    part ⊆ t := by
  induction places generalizing origin t with
  | nil =>
    rw [List.mem_singleton.mp h]
    exact List.Subset.refl t
  | cons p ps ih =>
    rcases List.mem_cons.mp h with rfl | h
    · exact List.take_subset _ _
    · exact List.Subset.trans (ih h) (List.drop_subset _ _)

lemma dropLead_subset (lead t : Text) : Text.dropLead lead t ⊆ t := by
  unfold Text.dropLead
  cases hrest : lead.isPrefixOf? t with
  | none => exact List.Subset.refl t
  | some rest =>
    rw [List.isPrefixOf?_eq_some_iff_append_eq] at hrest
    exact hrest ▸ List.subset_append_right lead rest

/-- The cells of a row are parts of it. -/
lemma cells_subset {bordered : Bool} {row cell : Text} (h : cell ∈ Table.cells bordered row) : cell ⊆ row := by
  unfold Table.cells Table.split at h
  split at h
  · refine List.Subset.trans (cutAt_subset h) (List.Subset.trans ?_ (dropLead_subset ['|'] row))
    unfold Table.dropEndPipe
    split
    · exact List.Subset.trans (Text.dropEndWhile_subset _ _) (List.dropLast_subset _)
    · exact List.Subset.refl _
  · exact cutAt_subset h

end Tables

end Sitewright.Markdown.Block
