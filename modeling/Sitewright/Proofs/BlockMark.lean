import Sitewright.Proofs.BlockTree
import Sitewright.Proofs.Mark

/-!
Marks of kept HTML among the blocks of a document. No rule looks into a mark, so a mark between
blank lines becomes a paragraph, and stays one.
-/
namespace Sitewright.Markdown.Block

variable (n : ℕ)

lemma splitOn_mark : Text.splitOn '\n' (Mark.html n) = [Mark.html n] :=
  Text.splitOn_of_not_mem fun h => (Mark.isPart_of_mem h).ne (by decide) rfl

lemma cutLine_mark : Text.cutLine (Mark.html n) = (Mark.html n, none) := by
  have hlines : (Mark.html n).dropWhile (· ≠ '\n') = [] :=
    List.dropWhile_eq_nil_iff.mpr fun c hc => by
      simpa using (Mark.isPart_of_mem hc).ne (by decide)
  rw [Text.cutLine, hlines]

lemma heading?_eq_none {fresh : Bool} {t : Text} (h : '#' ∉ t) : heading? fresh t = none := by
  induction t generalizing fresh with
  | nil => rfl
  | cons c cs ih =>
    have hc : c ≠ '#' := (List.ne_of_not_mem_cons h).symm
    simp [heading?, hc, ih (List.not_mem_of_not_mem_cons h)]

lemma find?_eq_none {fresh : Bool} {t : Text} (h : '[' ∉ t) : Reference.find? fresh t = none := by
  have hat : ∀ {t : Text}, '[' ∉ t → Reference.at? t = none := by
    intro t h
    unfold Reference.at?
    simp only []
    split
    · rename_i rest hrest
      have hmem : '[' ∈ t.drop (min 3 (t.takeWhile (· = ' ')).length) := by
        rw [hrest]
        exact List.mem_cons_self
      exact absurd (List.mem_of_mem_drop hmem) h
    · rfl
  induction t generalizing fresh with
  | nil => rfl
  | cons c cs ih =>
    unfold Reference.find?
    rw [hat h, ite_self, ih (List.not_mem_of_not_mem_cons h)]
    rfl

/-- A mark on its own becomes a paragraph. -/
lemma addBlock_mark {ctx : Context} (hctx : ctx ≠ .list) (fuel : ℕ) (parent : Element) :
    addBlock (fuel + 1) ctx parent (Mark.html n) =
      pure (parent.push (paragraph (Mark.html n)), []) := by
  have hheading : heading? true (Mark.html n) = none :=
    heading?_eq_none fun h => (Mark.isPart_of_mem h).ne (by decide) rfl
  have hreference : Reference.find? true (Mark.html n) = none :=
    find?_eq_none fun h => (Mark.isPart_of_mem h).ne (by decide) rfl
  have htable : Table.Shape.ofBlock? (Mark.html n) = none := by
    rw [Table.Shape.ofBlock?, splitOn_mark]
    rfl
  have hunder : underlined? (Mark.html n) = none := by
    rw [underlined?, splitOn_mark]
  have hrule : rule? (Mark.html n) = none := by
    rw [rule?, splitOn_mark]
    rfl
  have hquote : quote? (Mark.html n) = none := by
    rw [quote?, splitOn_mark]
    rfl
  have hitem : ∀ kind, itemStart? kind 0 3 (Text.cutLine (Mark.html n)).1 = none := by
    intro kind
    rw [cutLine_mark]
    cases kind <;> rfl
  have hempty : (Mark.html n).isEmpty = false := rfl
  have hhead : (Mark.html n).head? ≠ some '\n' := fun h => absurd (Option.some.inj h) (by decide)
  have hindent : isIndented (Mark.html n) = false := rfl
  have htext : addText ctx parent (Mark.html n) = parent.push (paragraph (Mark.html n)) := by
    have hblank : Text.isBlankText (Mark.html n) = false := rfl
    have hdrop : (Mark.html n).dropWhile Text.isBlank = Mark.html n := rfl
    rw [addText, hblank, hdrop, if_neg Bool.false_ne_true, if_neg hctx]
  rw [addBlock]
  simp [hempty, hhead, hindent, continuesList, htable, hheading, hunder, hrule, hitem, hquote,
    hreference, htext]

/-- Does a block hold a mark and nothing else but line feeds before it? -/
def IsMark (block : Text) : Prop := block.dropWhile (· = '\n') = Mark.html n

variable {n}

lemma IsMark.cases {block : Text} (h : IsMark n block) :
    block = Mark.html n ∨ ∃ rest, block = '\n' :: rest ∧ IsMark n rest := by
  cases block with
  | nil => cases h
  | cons c cs =>
    by_cases hc : c = '\n'
    · subst hc
      exact .inr ⟨cs, rfl, h⟩
    · left
      rwa [IsMark, List.dropWhile_cons_of_neg (by simpa using hc)] at h

lemma IsMark.length_pos {block : Text} (h : IsMark n block) : 0 < block.length := by
  rcases h.cases with rfl | ⟨rest, rfl, -⟩
  · exact Nat.succ_pos _
  · exact Nat.succ_pos _

/-- A mark among the blocks of a document becomes a paragraph among the children of its element. -/
lemma paragraph_mem_addBlocks {fuel : ℕ} {parent : Element} {blocks : List Text}
    (hfuel : size blocks ≤ fuel) (hparent : parent.isList = false)
    (hmark : ∃ block ∈ blocks, IsMark n block) :
    Yields (addBlocks fuel .document parent blocks) fun e => paragraph (Mark.html n) ∈ e.children := by
  -- each round takes the first block, and what it leaves to be read is smaller
  induction fuel generalizing parent blocks with
  | zero =>
    obtain ⟨block, hblock, -⟩ := hmark
    cases blocks with
    | nil => cases hblock
    | cons b bs =>
      rw [size_cons] at hfuel
      omega
  | succ fuel ih =>
    cases blocks with
    | nil =>
      obtain ⟨block, hblock, -⟩ := hmark
      cases hblock
    | cons b bs =>
      rw [size_cons] at hfuel
      rw [addBlocks]
      obtain ⟨block, hblock, hmark⟩ := hmark
      rcases List.mem_cons.mp hblock with rfl | hblock
      · -- the mark is read now, or a line feed before it comes off and it is read next
        obtain ⟨f, rfl⟩ : ∃ f, fuel = f + 1 := by
          have hpos := hmark.length_pos
          exact ⟨fuel - 1, by omega⟩
        rcases hmark.cases with rfl | ⟨rest, rfl, hrest⟩
        · rw [addBlock_mark n (by decide), pure_bind]
          have hadded := (construction (f + 1)).blocks .document
            (parent.push (paragraph (Mark.html n))) bs
          refine hadded.imp fun e he => ?_
          have hgrows := he.grows (by decide) hparent
          exact hgrows.paragraphs _ (by simp [Element.push]) rfl
        · have hfill : addBlock (f + 1) .document parent ('\n' :: rest) =
              pure (fillCode parent ['\n'], [rest]) := by
            have hne : rest.isEmpty = false := by
              have hpos := hrest.length_pos
              simpa using List.ne_nil_of_length_pos hpos
            rw [addBlock]
            simp [unlessEmpty, hne]
          rw [hfill, pure_bind]
          refine ih ?_ ?_ ⟨rest, by simp, hrest⟩
          · rw [List.singleton_append, size_cons]
            rw [List.length_cons] at hfuel
            omega
          · exact (grows_fillCode _ _).outer.isList.trans hparent
      · refine ((construction fuel).block .document parent b).bind fun r hr => ih ?_ ?_ ?_
        · have hsize := hr.2 (by decide)
          rw [size_append]
          omega
        · exact hr.1.outer.isList.trans hparent
        · exact ⟨block, List.mem_append_right _ hblock, hmark⟩

lemma size_parts (t : Text) : size (parts t) ≤ t.length + 1 := by
  have hgo : ∀ part t, size (parts.go part t) ≤ part.length + t.length + 1 := by
    intro part t
    fun_induction parts.go part t with
    | case1 part => simp [size]
    | case2 part cs ih =>
      rw [size_cons, List.length_reverse]
      simp only [List.length_cons, List.length_nil] at ih ⊢
      omega
    | case3 part c cs hne ih =>
      simp only [List.length_cons] at ih ⊢
      omega
  simpa [parts] using hgo [] t

/-- Every mark that stands alone between blank lines is a paragraph of the document, and no text
stands behind the blocks of a document. -/
theorem paragraph_mem_document {t : Text} (hmark : ∃ block ∈ parts t, IsMark n block) :
    paragraph (Mark.html n) ∈ (document t).1.children := by
  refine paragraph_mem_addBlocks ?_ (by decide) hmark []
  have hsize := size_parts t
  omega

lemma document_grows (t : Text) : Grows (Element.named "div") (document t).1 :=
  ((construction _).blocks .document _ _ []).grows (by decide) (by decide)

end Sitewright.Markdown.Block
