import Sitewright.Proofs.BlockText
import Sitewright.Proofs.CodeTree

/-!
The tree of a document without angle brackets. Its only code is in blocks of code, each with a single
element inside; when these are highlighted no element of code is left in the tree.
-/
namespace Sitewright.Markdown
open CodeSign

/-- A block of code as it is written, with nothing inside it but its code. -/
structure IsCodeBlock (e : Element) : Prop where
  tag : e.tag = "pre".toList
  text : e.text = []
  child : ∃ code, e.children = [code] ∧ code.tag = "code".toList ∧ code.tail = []

/-- A tree of plain elements and of blocks of code, without angle brackets outside the code. -/
inductive IsBlockTree : Element → Prop
  | plain {e : Element} (clean : IsClean e) (tag : isPlainTag e.tag = true)
      (children : ∀ c ∈ e.children, IsBlockTree c) : IsBlockTree e
  | code {e : Element} (block : IsCodeBlock e) (tail : '<' ∉ e.tail) : IsBlockTree e

/-- A tree that blocks may be added to. -/
structure IsOpen (e : Element) : Prop where
  tree : IsBlockTree e
  tag : isPlainTag e.tag = true

section Growing

variable {e child : Element}

lemma IsCodeBlock.not_plain (h : IsCodeBlock e) : isPlainTag e.tag = false := by
  rw [h.tag]
  decide

lemma IsOpen.clean (h : IsOpen e) : IsClean e := by
  cases h.tree with
  | plain clean tag children => exact clean
  | code block tail => exact absurd h.tag (by simp [block.not_plain])

lemma IsOpen.children (h : IsOpen e) : ∀ c ∈ e.children, IsBlockTree c := by
  cases h.tree with
  | plain clean tag children => exact children
  | code block tail => exact absurd h.tag (by simp [block.not_plain])

lemma isOpen_of (clean : IsClean e) (tag : isPlainTag e.tag = true)
    (children : ∀ c ∈ e.children, IsBlockTree c) : IsOpen e := ⟨.plain clean tag children, tag⟩

lemma IsOpen.of_last (h : IsOpen e) (hlast : e.last? = some child) : IsBlockTree child :=
  h.children child (List.mem_of_getLast? hlast)

lemma IsOpen.push (h : IsOpen e) (hchild : IsBlockTree child) : IsOpen (e.push child) := by
  refine isOpen_of ⟨h.clean.names, h.clean.text, h.clean.tail⟩ h.tag fun c hc => ?_
  rcases List.mem_append.mp hc with hc | hc
  · exact h.children c hc
  · exact List.mem_singleton.mp hc ▸ hchild

lemma IsOpen.setLast (h : IsOpen e) (hchild : IsBlockTree child) : IsOpen (e.setLast child) := by
  refine isOpen_of ⟨h.clean.names, h.clean.text, h.clean.tail⟩ h.tag fun c hc => ?_
  rcases List.mem_append.mp hc with hc | hc
  · exact h.children c (List.dropLast_subset _ hc)
  · exact List.mem_singleton.mp hc ▸ hchild

lemma IsOpen.with_text (h : IsOpen e) {text : Text} (ht : '<' ∉ text) : IsOpen { e with text } :=
  isOpen_of ⟨h.clean.names, ht, h.clean.tail⟩ h.tag h.children

lemma last?_push (e child : Element) : (e.push child).last? = some child := by
  simp [Element.last?, Element.push]

lemma last?_setLast (e child : Element) : (e.setLast child).last? = some child := by
  simp [Element.last?, Element.setLast]

lemma isOpen_named {tag : String} (h : isPlainTag tag.toList = true) : IsOpen (Element.named tag) :=
  isOpen_of ⟨by simp [Element.named], by simp [Element.named], by simp [Element.named]⟩ h (by simp [Element.named])

lemma isBlockTree_text {tag : Text} (htag : isPlainTag tag = true) {text : Text} (h : '<' ∉ text) :
    IsBlockTree { tag, text } :=
  .plain ⟨by simp, h, by simp⟩ htag (by simp)

lemma isBlockTree_paragraph {text : Text} (h : '<' ∉ text) : IsBlockTree (Block.paragraph text) :=
  isBlockTree_text (by decide) h

lemma IsBlockTree.tail (h : IsBlockTree e) : '<' ∉ e.tail := by
  cases h with
  | plain clean tag children => exact clean.tail
  | code block tail => exact tail

lemma IsBlockTree.with_tail (h : IsBlockTree e) {tail : Text} (ht : '<' ∉ tail) : IsBlockTree { e with tail } := by
  cases h with
  | plain clean tag children => exact .plain ⟨clean.names, clean.text, ht⟩ tag children
  | code block tail => exact .code ⟨block.tag, block.text, block.child⟩ ht

lemma IsBlockTree.isOpen_of_isTag (h : IsBlockTree e) {tag : String} (htag : e.isTag tag = true)
    (hplain : isPlainTag tag.toList = true) : IsOpen e := by
  rw [Element.isTag, beq_iff_eq] at htag
  exact ⟨h, htag ▸ hplain⟩

lemma IsBlockTree.isOpen_of_isList (h : IsBlockTree e) (hlist : e.isList = true) : IsOpen e := by
  rw [Element.isList, Bool.or_eq_true] at hlist
  rcases hlist with htag | htag
  · exact h.isOpen_of_isTag htag (by decide)
  · exact h.isOpen_of_isTag htag (by decide)

end Growing

namespace Block

section Rules

variable {parent : Element}

lemma isBlockTree_codeBlock (code : Text) : IsBlockTree (codeBlock code) :=
  .code ⟨rfl, rfl, _, rfl, rfl, rfl⟩ (by simp [codeBlock, Element.named])

lemma isBlockTree_extendCode {pre : Element} (h : IsBlockTree pre) (hcode : pre.isCodeBlock = true) (more : Text) :
    IsBlockTree (extendCode pre more) := by
  rw [Element.isCodeBlock, Bool.and_eq_true] at hcode
  have htag : pre.tag = "pre".toList := by simpa [Element.isTag] using hcode.1
  cases h with
  | plain clean tag children =>
    rw [htag] at tag
    exact absurd tag (by decide)
  | code block tail =>
    obtain ⟨code, hchild, hcodeTag, hcodeTail⟩ := block.child
    unfold extendCode
    rw [hchild]
    exact .code ⟨block.tag, block.text, _, rfl, hcodeTag, hcodeTail⟩ tail

lemma isOpen_fillCode (h : IsOpen parent) (filler : Text) : IsOpen (fillCode parent filler) := by
  unfold fillCode
  split
  · rename_i pre hpre
    obtain ⟨hlast, hcode⟩ := Option.filter_eq_some_iff.mp hpre
    exact h.setLast (isBlockTree_extendCode (h.of_last hlast) hcode _)
  · exact h

lemma isOpen_addCode (h : IsOpen parent) (code : Text) : IsOpen (addCode parent code) := by
  unfold addCode
  split
  · rename_i pre hpre
    obtain ⟨hlast, hcode⟩ := Option.filter_eq_some_iff.mp hpre
    exact h.setLast (isBlockTree_extendCode (h.of_last hlast) hcode _)
  · exact h.push (isBlockTree_codeBlock code)

lemma isOpen_addText (ctx : Context) (h : IsOpen parent) {block : Text} (hblock : '<' ∉ block) :
    IsOpen (addText ctx parent block) := by
  have hdrop : '<' ∉ block.dropWhile Text.isBlank := fun hmem => hblock ((List.dropWhile_suffix _).subset hmem)
  unfold addText
  split
  · exact h
  · split
    · split
      · rename_i child hlast
        have hchild := h.of_last hlast
        refine h.setLast (hchild.with_tail ?_)
        simp [hchild.tail, hblock]
      · refine h.with_text ?_
        split
        · exact hdrop
        · simp [h.clean.text, hdrop]
    · exact h.push (isBlockTree_paragraph hdrop)

/-- The text of an item stays in the item as a paragraph. -/
lemma isBlockTree_wrapText {item : Element} (h : IsBlockTree item) : IsBlockTree (wrapText item) := by
  unfold wrapText
  split
  · exact h
  · rename_i htext
    cases h with
    | plain clean tag children =>
      exact .plain ⟨clean.names, by simp, clean.tail⟩ tag
        (List.forall_mem_cons.mpr ⟨isBlockTree_paragraph clean.text, children⟩)
    | code block tail => exact absurd block.text (by simpa using htext)

lemma isBlockTree_wrapTail {item : Element} (h : IsBlockTree item) : IsBlockTree (wrapTail item) := by
  unfold wrapTail
  split
  · rename_i child hlast
    split
    · exact h
    · rename_i htail
      cases h with
      | plain clean tag children =>
        have hopen : IsOpen item := isOpen_of clean tag children
        have hchild := hopen.of_last hlast
        refine ((hopen.setLast (hchild.with_tail (by simp))).push (isBlockTree_paragraph ?_)).tree
        exact fun hmem => hchild.tail ((List.dropWhile_suffix _).subset hmem)
      | code block tail =>
        obtain ⟨code, hchild, -, hcode⟩ := block.child
        have hsame : child = code := by
          rw [Element.last?, hchild] at hlast
          exact (Option.some.inj hlast).symm
        rw [hsame, hcode] at htail
        exact absurd rfl htail
  · exact h

lemma isPlainTag_heading (level : ℕ) : isPlainTag ('h' :: Text.ofNat level) = true := by
  have hletters : ∀ c ∈ RawTable.letters, c ≠ '<' ∧ inName c = true := Text.forall_of_all (by decide)
  have hnumber : ∀ c ∈ 'h' :: Text.ofNat level, c ≠ '<' ∧ inName c = true := by
    intro c hc
    rcases List.mem_cons.mp hc with rfl | hc
    · decide
    · exact hletters c (RawTable.mem_letters_of_mem_ofNat hc)
  rw [isPlainTag_iff]
  refine ⟨fun hmem => (hnumber _ hmem).1 rfl, fun c hc => (hnumber c hc).2, ?_⟩
  rw [CodeSign.lookup_eq_none (c := 'h') List.mem_cons_self (by decide)]
  exact nofun

/-- A heading of whatever level. -/
lemma isBlockTree_heading (level : ℕ) {text : Text} (h : '<' ∉ text) :
    IsBlockTree { tag := 'h' :: Text.ofNat level, text } := isBlockTree_text (isPlainTag_heading level) h

lemma isBlockTree_row (shape : Table.Shape) {tag : String} (htag : isPlainTag tag.toList = true)
    {cells : List Text} (h : ∀ cell ∈ cells, '<' ∉ cell) : IsBlockTree (Table.row shape tag cells) := by
  have htr : isPlainTag "tr".toList = true := by decide
  refine .plain ⟨by simp [Table.row, Element.named], by simp [Table.row, Element.named],
    by simp [Table.row, Element.named]⟩ htr fun c hc => ?_
  obtain ⟨⟨s, i⟩, -, rfl⟩ := List.mem_map.mp hc
  have hcell : '<' ∉ cells.getD i [] := by
    rw [List.getD_eq_getElem?_getD]
    cases hget : cells[i]? with
    | none => simp
    | some cell => exact h cell (List.mem_of_getElem? hget)
  refine .plain ⟨?_, ?_, by simp [Table.cell, Element.named]⟩ htag (by simp [Table.cell, Element.named])
  · intro a ha
    unfold Table.cell at ha
    dsimp only at ha
    split at ha
    · rw [List.mem_singleton.mp ha]
      exact (by decide : '<' ∉ "style".toList)
    · cases ha
  · exact fun hmem => hcell (Text.trim_subset _ _ hmem)

lemma isBlockTree_table (shape : Table.Shape) {block : Text} (h : '<' ∉ block) :
    IsBlockTree (Table.build shape block) := by
  obtain ⟨lines, hlines⟩ : ∃ lines, lines = (Text.splitOn '\n' block).map (Text.trim (· = ' ')) := ⟨_, rfl⟩
  have hclean : ∀ line ∈ lines, '<' ∉ line := by
    intro line hline hmem
    rw [hlines] at hline
    obtain ⟨line', hline', rfl⟩ := List.mem_map.mp hline
    exact h (Text.mem_of_mem_splitOn hline' (Text.trim_subset _ _ hmem))
  have hcells : ∀ line ∈ lines, ∀ cell ∈ Table.cells shape.bordered line, '<' ∉ cell :=
    fun line hline cell hcell hmem => hclean line hline (cells_subset hcell hmem)
  have hnamed : ∀ tag, isPlainTag tag.toList = true → ∀ children, (∀ c ∈ children, IsBlockTree c) →
      IsBlockTree { Element.named tag with children } := fun tag htag children hchildren =>
    .plain ⟨by simp [Element.named], by simp [Element.named], by simp [Element.named]⟩ htag hchildren
  rw [Table.build, ← hlines]
  refine hnamed "table" (by decide) _ (List.forall_mem_cons.mpr ⟨?_, List.forall_mem_singleton.mpr ?_⟩)
  · refine hnamed "thead" (by decide) _ (List.forall_mem_singleton.mpr ?_)
    refine isBlockTree_row shape (by decide) fun cell hcell hmem => ?_
    have hin := cells_subset hcell hmem
    cases lines with
    | nil => cases hin
    | cons line lines => exact hclean line List.mem_cons_self hin
  · refine hnamed "tbody" (by decide) _ ?_
    split
    · refine List.forall_mem_singleton.mpr (hnamed "tr" (by decide) _ fun c hc => ?_)
      obtain ⟨s, -, rfl⟩ := List.mem_map.mp hc
      exact (isOpen_named (by decide)).tree
    · intro c hc
      obtain ⟨line, hline, rfl⟩ := List.mem_map.mp hc
      exact isBlockTree_row shape (by decide) (hcells line (List.mem_of_mem_drop hline))

end Rules

/-- What every part of the construction makes of blocks without brackets: trees stay open. -/
structure OpenConstruction (fuel : ℕ) : Prop where
  blocks : ∀ ctx parent blocks, IsOpen parent → (∀ b ∈ blocks, '<' ∉ b) →
    Yields (addBlocks fuel ctx parent blocks) IsOpen
  block : ∀ ctx parent block, IsOpen parent → '<' ∉ block →
    Yields (addBlock fuel ctx parent block) fun r => IsOpen r.1 ∧ ∀ b ∈ r.2, '<' ∉ b
  quote : ∀ parent blocks, IsOpen parent → (∀ b ∈ blocks, '<' ∉ b) →
    Yields (addQuote fuel parent blocks) IsOpen
  toList : ∀ ctx parent block, IsOpen parent → '<' ∉ block → Yields (addToList fuel ctx parent block) IsOpen
  items : ∀ kind parent block, IsOpen parent → '<' ∉ block → Yields (addItems fuel kind parent block) IsOpen
  each : ∀ list items, IsOpen list → (∀ item ∈ items, '<' ∉ item) →
    (∀ item ∈ items.head?, isIndented item = true → ∀ last ∈ list.last?, IsOpen last) →
    Yields (addEach fuel list items) IsOpen

section Step

variable {fuel : ℕ} (ih : OpenConstruction fuel)
include ih

lemma OpenConstruction.blocks_succ {ctx : Context} {parent : Element} {blocks : List Text} (h : IsOpen parent)
    (hblocks : ∀ b ∈ blocks, '<' ∉ b) : Yields (addBlocks (fuel + 1) ctx parent blocks) IsOpen := by
  cases blocks with
  | nil =>
    rw [addBlocks]
    · exact yields_pure h
    · simp
  | cons block blocks =>
    obtain ⟨hblock, hrest⟩ := List.forall_mem_cons.mp hblocks
    rw [addBlocks]
    exact (ih.block ctx parent block h hblock).bind fun r hr =>
      ih.blocks ctx r.1 (r.2 ++ blocks) hr.1 (List.forall_mem_append.mpr ⟨hr.2, hrest⟩)

omit ih in
lemma clean_unlessEmpty {b : Text} (h : '<' ∉ b) : ∀ rest ∈ unlessEmpty b, '<' ∉ rest := by
  unfold unlessEmpty
  split
  · simp
  · simpa using h

lemma OpenConstruction.block_succ {ctx : Context} {parent : Element} {block : Text} (h : IsOpen parent)
    (hblock : '<' ∉ block) :
    Yields (addBlock (fuel + 1) ctx parent block) fun r => IsOpen r.1 ∧ ∀ b ∈ r.2, '<' ∉ b := by
  have hnone : ∀ b ∈ ([] : List Text), '<' ∉ b := by simp
  have hsubset : ∀ {t : Text}, t ⊆ block → '<' ∉ t := fun ht hmem => hblock (ht hmem)
  have hwithin : ∀ {t : Text}, Within t block → '<' ∉ t := fun ht => ht.not_mem (by decide) hblock
  rw [addBlock]
  simp only []
  split
  · exact yields_pure ⟨isOpen_fillCode h _, clean_unlessEmpty (hsubset (List.drop_subset _ _))⟩
  -- an indented block below a list, then a block of code
  split
  · exact (ih.toList _ _ _ h hblock).bind fun e he => yields_pure ⟨he, hnone⟩
  split
  · exact yields_pure ⟨isOpen_addCode h _, clean_unlessEmpty (hwithin (within_detab block).2)⟩
  -- a table, a heading of either form, and a rule
  split
  · exact yields_pure ⟨h.push (isBlockTree_table _ hblock), hnone⟩
  split
  · rename_i heading hheading
    obtain ⟨htext, hbefore, hafter, -⟩ := heading?_some hheading
    refine (ih.blocks _ _ _ h (clean_unlessEmpty (hsubset hbefore))).bind fun e he =>
      yields_pure ⟨he.push (isBlockTree_heading _ (hsubset htext)), ?_⟩
    split
    · exact hnone
    · refine List.forall_mem_singleton.mpr ?_
      split
      · exact hwithin ((within_looseDetab 1 _).trans (within_of_subset hafter))
      · exact hsubset hafter
  split
  · rename_i level text rest hunder
    obtain ⟨htext, hrest⟩ := within_underlined? hunder
    refine yields_pure ⟨h.push (isBlockTree_heading _ (hsubset htext)), ?_⟩
    split
    · exact hnone
    · exact List.forall_mem_singleton.mpr (hwithin (within_join fun line hline => within_of_subset (hrest line hline)))
  split
  · rename_i before after hrule
    obtain ⟨hbefore, hafter⟩ := within_rule? hrule
    refine (ih.blocks _ _ _ h (clean_unlessEmpty (hwithin (hbefore.of_subset (Text.dropEndWhile_subset _ _))))).bind
      fun e he => yields_pure ⟨he.push (isOpen_named (by decide)).tree, clean_unlessEmpty ?_⟩
    exact hwithin (hafter.of_subset (List.dropWhile_suffix _).subset)
  -- lists of either kind and a quote, which take the whole block
  split
  · exact (ih.items _ _ _ h hblock).bind fun e he => yields_pure ⟨he, hnone⟩
  split
  · exact (ih.items _ _ _ h hblock).bind fun e he => yields_pure ⟨he, hnone⟩
  split
  · rename_i before lines hquote
    obtain ⟨hbefore, hlines⟩ := within_quote? hquote
    refine (ih.blocks _ _ _ h (List.forall_mem_singleton.mpr (hwithin (within_join hbefore)))).bind fun e he =>
      (ih.quote _ _ he fun part hpart => ?_).bind fun e' he' => yields_pure ⟨he', hnone⟩
    refine hwithin ((within_of_mem_parts hpart).trans (within_join ?_))
    split
    · exact hlines
    · exact List.forall_mem_cons.mpr ⟨within_nil _, hlines⟩
  -- a reference, which leaves the text before and after it, or else plain text
  split
  · rename_i before name reference after hfind
    obtain ⟨hbefore, hafter⟩ := find?_subset hfind
    refine (yields_true _).bind fun _ _ => yields_pure ⟨h, List.forall_mem_append.mpr ⟨?_, ?_⟩⟩
    · split
      · exact hnone
      · exact List.forall_mem_singleton.mpr (hsubset (List.Subset.trans (Text.dropEndWhile_subset _ _) hbefore))
    · split
      · exact hnone
      · exact List.forall_mem_singleton.mpr (hsubset (List.Subset.trans (List.dropWhile_suffix _).subset hafter))
  · exact yields_pure ⟨isOpen_addText ctx h hblock, hnone⟩

lemma OpenConstruction.quote_succ {parent : Element} {blocks : List Text} (h : IsOpen parent)
    (hblocks : ∀ b ∈ blocks, '<' ∉ b) : Yields (addQuote (fuel + 1) parent blocks) IsOpen := by
  rw [addQuote]
  split
  · rename_i quote hquote
    obtain ⟨hlast, htag⟩ := Option.filter_eq_some_iff.mp hquote
    have hopen := (h.of_last hlast).isOpen_of_isTag htag (by decide)
    exact (ih.blocks _ _ _ hopen hblocks).bind fun e he => yields_pure (h.setLast he.tree)
  · exact (ih.blocks _ _ _ (isOpen_named (by decide)) hblocks).bind fun e he => yields_pure (h.push he.tree)

omit ih in
lemma isPlainTag_of_isTag {e : Element} {tag : String} (h : e.isTag tag = true)
    (htag : isPlainTag tag.toList = true) : isPlainTag e.tag = true := by
  rw [Element.isTag, beq_iff_eq] at h
  rwa [h]

omit ih in
/-- Blocks that belong some levels below an element go to lists and their items. -/
lemma isOpen_changeDown {change : Element → Build Element} (hchange : ∀ e, IsOpen e → Yields (change e) IsOpen)
    {indent levels level : ℕ} {e : Element} (h : IsOpen e) :
    Yields (changeDown change (listLevel indent levels level e).2 e) IsOpen := by
  induction levels generalizing level e with
  | zero => exact hchange e h
  | succ levels ihl =>
    unfold listLevel
    split
    · split
      · rename_i child hlast
        split
        · rename_i hchild
          have hopen : IsOpen child := by
            rcases Bool.or_eq_true_iff.mp hchild with hlist | htag
            · exact (h.of_last hlast).isOpen_of_isList hlist
            · exact (h.of_last hlast).isOpen_of_isTag htag (by decide)
          dsimp only
          unfold changeDown
          rw [hlast]
          exact (ihl hopen).bind fun e' he' => yields_pure (h.setLast he'.tree)
        · exact hchange e h
      · exact hchange e h
    · exact hchange e h

lemma OpenConstruction.toList_succ {ctx : Context} {parent : Element} {block : Text} (h : IsOpen parent)
    (hblock : '<' ∉ block) : Yields (addToList (fuel + 1) ctx parent block) IsOpen := by
  rw [addToList]
  simp only []
  generalize (block.takeWhile (· = ' ')).length / 4 = indent
  obtain ⟨found, hfound⟩ : ∃ found, found =
      listLevel indent (block.length + 1) (if ctx = .list then 1 else 0) parent := ⟨_, rfl⟩
  have hloose : '<' ∉ looseDetab found.1 block := (within_looseDetab _ _).not_mem (by decide) hblock
  have hone : ∀ b ∈ [looseDetab found.1 block], '<' ∉ b := List.forall_mem_singleton.mpr hloose
  have hparts : ∀ b ∈ parts (looseDetab found.1 block), '<' ∉ b := fun b hb =>
    (within_of_mem_parts hb).not_mem (by decide) hloose
  have hitem : ∀ e, IsOpen e → Yields (do
      return e.push (← addBlocks fuel .detabbed (Element.named "li") [looseDetab found.1 block])) IsOpen :=
    fun e he => (ih.blocks _ _ _ (isOpen_named (by decide)) hone).bind fun e' he' => yields_pure (he.push he'.tree)
  rw [← hfound]
  split
  · split
    · rename_i child hlast
      split
      · rename_i hlist
        exact (ih.blocks _ _ _ ((h.of_last hlast).isOpen_of_isList hlist) hone).bind fun e he =>
          yields_pure (h.setLast he.tree)
      · exact ih.blocks _ _ _ h hone
    · exact ih.blocks _ _ _ h hone
  · rw [hfound]
    refine isOpen_changeDown (fun sibling hsibling => ?_) h
    rw [← hfound]
    split
    · exact ih.blocks _ _ _ hsibling hone
    · split
      · rename_i item hlast
        split
        · rename_i htag
          have hopen : IsOpen (wrapText item) :=
            ⟨isBlockTree_wrapText (hsibling.of_last hlast),
              (sameOuter_wrapText item).tag ▸ isPlainTag_of_isTag htag (by decide)⟩
          exact (ih.blocks _ _ _ hopen hparts).bind fun e he => yields_pure (hsibling.setLast he.tree)
        · exact hitem sibling hsibling
      · exact hitem sibling hsibling

lemma OpenConstruction.items_succ {kind : ListKind} {parent : Element} {block : Text} (h : IsOpen parent)
    (hblock : '<' ∉ block) : Yields (addItems (fuel + 1) kind parent block) IsOpen := by
  have htag : isPlainTag kind.tag.toList = true := by cases kind <;> decide
  have hfound : ∀ item ∈ Block.items kind block, '<' ∉ item := fun item hitem =>
    (within_of_mem_items hitem).not_mem (by decide) hblock
  rw [addItems]
  split
  · rename_i list hlist
    obtain ⟨hlast, hkind⟩ := Option.filter_eq_some_iff.mp hlist
    have hopen := (h.of_last hlast).isOpen_of_isTag hkind htag
    extract_lets loose
    have hready : IsOpen loose := by
      unfold loose
      split
      · rename_i item hitem
        exact hopen.setLast (isBlockTree_wrapTail (isBlockTree_wrapText (hopen.of_last hitem)))
      · exact hopen
    have hfirst : '<' ∉ (Block.items kind block).headD [] := by
      cases hitems : Block.items kind block with
      | nil => simp
      | cons item rest => exact hfound item (hitems ▸ List.mem_cons_self)
    refine (ih.blocks _ _ _ (isOpen_named (by decide)) (List.forall_mem_singleton.mpr hfirst)).bind fun first hli =>
      (ih.each _ _ (hready.push hli.tree) (fun item hitem => hfound item (List.mem_of_mem_drop hitem)) ?_).bind
        fun e he => yields_pure (h.setLast he.tree)
    intro item _ _ last hlast
    rw [last?_push] at hlast
    exact Option.some.inj hlast ▸ hli
  · have hhead : ∀ list : Element, ∀ item ∈ (Block.items kind block).head?, isIndented item = true →
        ∀ last ∈ list.last?, IsOpen last := by
      intro list item hitem hindent
      rw [not_isIndented_of_mem_head hitem] at hindent
      cases hindent
    split
    · exact ih.each _ _ h hfound (hhead _)
    · have hlist : ∀ attributes : List (Text × Text), (∀ a ∈ attributes, '<' ∉ a.1) →
          IsOpen { Element.named kind.tag with attributes } := fun attributes hattributes =>
        isOpen_of ⟨hattributes, by simp [Element.named], by simp [Element.named]⟩ htag (by simp [Element.named])
      refine (ih.each _ _ (hlist _ ?_) hfound (hhead _)).bind fun e he => yields_pure (h.push he.tree)
      have hstart : '<' ∉ "start".toList := by decide
      intro a ha
      split at ha
      · split at ha
        · cases ha
        · rw [List.mem_singleton.mp ha]
          exact hstart
      · cases ha

lemma OpenConstruction.each_succ {list : Element} {items : List Text} (h : IsOpen list)
    (hitems : ∀ item ∈ items, '<' ∉ item)
    (hhead : ∀ item ∈ items.head?, isIndented item = true → ∀ last ∈ list.last?, IsOpen last) :
    Yields (addEach (fuel + 1) list items) IsOpen := by
  cases items with
  | nil =>
    rw [addEach]
    · exact yields_pure h
    · simp
  | cons item rest =>
    obtain ⟨hitem, hrest⟩ := List.forall_mem_cons.mp hitems
    rw [addEach]
    split
    · rename_i last hlast
      split at hlast
      · rename_i hindent
        have hopen : IsOpen last := hhead item rfl hindent last hlast
        refine (ih.blocks _ _ _ hopen (List.forall_mem_singleton.mpr hitem)).bind fun e he =>
          ih.each _ _ (h.setLast he.tree) hrest fun _ _ _ last hlast => ?_
        rw [last?_setLast] at hlast
        exact Option.some.inj hlast ▸ he
      · cases hlast
    · refine (ih.blocks _ _ _ (isOpen_named (by decide)) (List.forall_mem_singleton.mpr hitem)).bind fun e he =>
        ih.each _ _ (h.push he.tree) hrest fun _ _ _ last hlast => ?_
      rw [last?_push] at hlast
      exact Option.some.inj hlast ▸ he

end Step

lemma openConstruction (fuel : ℕ) : OpenConstruction fuel := by
  induction fuel with
  | zero =>
    constructor
    case blocks =>
      intro ctx parent blocks h _
      rw [addBlocks]
      exact yields_pure h
    case block =>
      intro ctx parent block h _
      rw [addBlock]
      exact yields_pure ⟨h, by simp⟩
    case quote =>
      intro parent blocks h _
      rw [addQuote]
      exact yields_pure h
    case toList =>
      intro ctx parent block h _
      rw [addToList]
      exact yields_pure h
    case items =>
      intro kind parent block h _
      rw [addItems]
      exact yields_pure h
    case each =>
      intro list items h _ _
      rw [addEach]
      exact yields_pure h
  | succ fuel ih =>
    exact ⟨fun _ _ _ => ih.blocks_succ, fun _ _ _ => ih.block_succ, fun _ _ => ih.quote_succ,
      fun _ _ _ => ih.toList_succ, fun _ _ _ => ih.items_succ, fun _ _ => ih.each_succ⟩

/-- The tree of a source without brackets is one of plain elements and blocks of code. -/
theorem isOpen_document {t : Text} (h : '<' ∉ t) : IsOpen (document t).1 :=
  (openConstruction _).blocks .document _ _ (isOpen_named (by decide))
    (fun b hb => (within_of_mem_parts hb).not_mem (by decide) h) []

end Block

namespace Layout

lemma throughout_mark (n : ℕ) : Throughout IsTidy { Element.named "p" with text := Mark.html n } :=
  .mk ⟨⟨by simp [Element.named], fun hmem => (Mark.isPart_of_mem hmem).ne (by decide) rfl,
    by simp [Element.named]⟩, .inl (by decide : isPlainTag "p".toList = true)⟩ (by simp [Element.named])

mutual
/-- Highlighting leaves no code in a tree. -/
lemma tidy_highlight (kept : List Text) : (e : Element) → IsBlockTree e → Throughout IsTidy (highlight kept e).1
  | ⟨tag, attributes, text, verbatim, children, tail⟩, h => by
    rw [highlight]
    split
    · rename_i code _
      exact throughout_mark _
    · rename_i hnone
      cases h with
      | plain clean tag children =>
        exact .mk ⟨⟨clean.names, clean.text, clean.tail⟩, .inl tag⟩ (tidy_highlightAll kept _ children)
      | code block tail =>
        obtain ⟨code, hchild, hcode, -⟩ := block.child
        obtain rfl : tag = "pre".toList := block.tag
        obtain rfl : children = [code] := hchild
        simp [soleCode?, Element.isTag, hcode] at hnone

lemma tidy_highlightAll (kept : List Text) : (es : List Element) → (∀ e ∈ es, IsBlockTree e) →
    ∀ e ∈ (highlightAll kept es).1, Throughout IsTidy e
  | [], h => by
    rw [highlightAll]
    exact fun _ he => absurd he List.not_mem_nil
  | e :: es, h => by
    obtain ⟨he, hes⟩ := List.forall_mem_cons.mp h
    rw [highlightAll]
    exact List.forall_mem_cons.mpr ⟨tidy_highlight kept e he, tidy_highlightAll (highlight kept e).2 es hes⟩
end

end Layout

end Sitewright.Markdown
