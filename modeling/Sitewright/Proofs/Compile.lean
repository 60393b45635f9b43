import Sitewright.Proofs.InlineMark
import Sitewright.Proofs.KeptMark
import Sitewright.Proofs.Prose
import Sitewright.Proofs.Recovery
import Sitewright.Proofs.Rewriting
import Sitewright.Proofs.Source

/-!
What becomes of raw HTML when a body is compiled. The token that stands for it passes through Markdown
in a block of its own; behind Markdown the HTML comes back, and a few words are still rewritten.
-/
namespace Sitewright.Markdown
open Text (Apart Rewritten Trimmed)

section Page

variable {source : Text}

/-- What a block of raw HTML holds stands on the page. -/
lemma infix_page {word : Text} (hword : Kept.Sturdy word)
    (h : InRawBlock word (RawTable.protect (Source.normalize source)).1) :
    word <:+: (Draft.ofSource source).page := by
  obtain ⟨n, html, hmark, hkept, hhtml⟩ := h
  obtain ⟨draft, hdraft⟩ : ∃ draft, draft = Draft.ofSource source := ⟨_, rfl⟩
  obtain ⟨masked, hmasked⟩ : ∃ masked, masked = (RawTable.protect (Source.normalize source)).1 :=
    ⟨_, rfl⟩
  obtain ⟨root, hroot⟩ : ∃ root, root = (Block.document (extracted masked).1).1 := ⟨_, rfl⟩
  have hdraftRoot : draft.root = (Layout.highlight (extracted masked).2 root).1 := by
    rw [hdraft, hroot, hmasked, Draft.ofSource]
  have hdraftKept : draft.kept = (Layout.highlight (extracted masked).2 root).2 := by
    rw [hdraft, hroot, hmasked, Draft.ofSource]
  rw [← hmasked] at hmark hkept
  rw [← hdraft]
  -- the block becomes a paragraph of the document, which no later stage touches
  have hgrows : Block.Grows (Element.named "div") root := hroot ▸ Block.document_grows _
  have hmem : Block.paragraph (Mark.html n) ∈ root.children :=
    hroot ▸ Block.paragraph_mem_document hmark
  rw [Layout.highlight_root _ hgrows.outer.tag] at hdraftRoot
  have htails : ∀ c ∈ draft.root.children, c.tail = [] := by
    rw [hdraftRoot]
    exact Layout.tails_highlightAll _ (hgrows.tails (by simp [Element.named]))
  have hpending : Block.paragraph (Mark.html n) ∈ draft.root.children := by
    rw [hdraftRoot]
    exact Layout.mark_mem_highlightAll _ hmem
  obtain ⟨hread, hmore⟩ := Inline.paragraph_mem_read draft.references draft.kept htails hpending
  -- later stages keep more HTML, behind what was kept before
  have hall : (extracted masked).2 <+: (Inline.read draft.references draft.kept draft.root).2 := by
    refine List.IsPrefix.trans ?_ hmore
    rw [hdraftKept]
    exact Layout.kept_highlight _ root
  have hpage : markedParagraph n <:+:
      inner (Layout.finish (Inline.read draft.references draft.kept draft.root).1) := by
    refine markedParagraph_infix_inner ?_ ?_ ?_ hread
    · rw [Inline.read, hdraftRoot]
      exact hgrows.outer.1
    · rw [Inline.read, hdraftRoot]
      exact hgrows.outer.2.1
    · rw [Inline.read, hdraftRoot]
      exact hgrows.outer.2.2
  exact Kept.infix_restore hword hhtml (getElem?_mono hall hkept) hpage

end Page

section Tokens

/-- The token of a fence looks like no mark and no paragraph. -/
lemma sturdy_blockToken {nonce : Text} (hnonce : ∀ c ∈ nonce, c ∈ Digest.digits) (n : ℕ) :
    Kept.Sturdy (RawTable.blockToken nonce n) :=
  Kept.sturdy_of_tag ⟨by decide, by decide⟩
    (RawTable.forall_tail_blockToken hnonce (p := fun c => c ≠ '<' ∧ c ≠ Mark.opening)
      (Text.forall_of_all (by decide)) (Text.forall_of_all (by decide)) n)

end Tokens

/-- The text of a body in which raw fences are looked for. -/
def normalized (body : Text) : Text := Source.normalize (Fence.normalize body)

/-- A body with a fence is not blank. -/
lemma not_blank_of_colon {body : Text} (h : ':' ∈ normalized body) :
    Text.isBlankText (Fence.normalize body) = false := by
  by_contra hblank
  have hall := Source.isBlankText_normalize (Bool.not_eq_false _ ▸ hblank)
  have hfalse := List.all_eq_true.mp hall ':' h
  cases hfalse

/-- What is still rewritten once raw HTML is back: the mark of an ampersand and, in a body with fenced
code, the tag that opens a highlighted block. -/
def lateWords (body : Text) : List Text :=
  Mark.ampersand :: if Fence.languages (Fence.normalize body) = [] then [] else [Fence.highlightTag]

section Late

/-- Raw HTML that no late rewriting overlaps is in the compiled page as it is, save for white space
where it ends the page. -/
lemma late_spares {body before html after : Text} (hblank : Text.isBlankText (Fence.normalize body) = false)
    (hpage : (Draft.ofSource (Fence.normalize body)).table.restore
      (Draft.ofSource (Fence.normalize body)).page = before ++ html ++ after)
    (hapart : ∀ word ∈ lateWords body, Apart word before html after) :
    ∃ front back, compile body = Text.strip (front ++ html ++ back) := by
  have hamp : Apart Mark.ampersand before html after := hapart _ List.mem_cons_self
  have hnew : ∀ new : Text, new = ['&'] → new = ['&'] := fun _ h => h
  have hrewritten : Rewritten Mark.ampersand (· = ['&']) (before ++ html ++ after)
      (Text.replace Mark.ampersand ['&'] (before ++ html ++ after)) :=
    Text.rewritten_replace (by decide) _
  obtain ⟨a, b, hreplaced, ha, hb⟩ := hrewritten.spare (by decide) rfl hamp
  have hcompile : compile body =
      Fence.labelLanguages (Text.strip (a ++ html ++ b)) (Fence.normalize body) := by
    rw [compile, hblank, if_neg Bool.false_ne_true, Draft.html, hpage, hreplaced]
  rw [hcompile, Fence.labelLanguages]
  split
  · exact ⟨a, b, rfl⟩
  · rename_i langs hlangs
    have htag : Apart Fence.highlightTag before html after := by
      refine hapart _ ?_
      rw [lateWords, if_neg hlangs]
      simp
    have htag' : Apart Fence.highlightTag a html b :=
      (htag.rewrite_front hnew (by decide) ha).rewrite_behind hnew (by decide) hb
    obtain ⟨t, ht, hstrip⟩ := (Fence.rewritten_labelFrom (Fence.languages (Fence.normalize body))
      (Text.strip (a ++ html ++ b))).strip (by decide) (by
        rintro _ ⟨language, -, rfl⟩
        exact ⟨Fence.labelTag_ne_nil language, Fence.trimmed_labelTag language⟩)
    obtain ⟨front, back, rfl, -, -⟩ := ht.spare (by decide) rfl htag'
    exact ⟨front, back, hstrip⟩

end Late

lemma table_ofSource (body : Text) : (Draft.ofSource (Fence.normalize body)).table =
    (RawTable.protect (normalized body)).2 := by
  rw [Draft.ofSource, normalized]

lemma nonce_protect (body : Text) : (RawTable.protect body).2.nonce = RawTable.nonceOf body := by
  rw [RawTable.protect_eq]
  rfl

/-- HTML whose token is not on the page has no part in the HTML of a document. -/
lemma html_reassign {draft : Draft} {token html : Text} (h : ¬ token <:+: draft.page) :
    { draft with table := draft.table.reassign token html }.html = draft.html := by
  have hpage : { draft with table := draft.table.reassign token html }.page = draft.page := rfl
  rw [Draft.html, Draft.html, hpage, RawTable.restore_reassign h]

/-- A fence behind a paragraph. -/
def paragraphAndFence : Text := "Hi.\n\n:::html\n<b>x</b>\n:::".toList

/-- Fences are looked for in text whose tabs are spaces. -/
example : Text.findAll Region.find (normalized ":::html\n<pre>\ta</pre>\n:::".toList) =
    [.raw ":::html\n<pre>   a</pre>\n:::".toList "<pre>   a</pre>".toList] := rfl

end Sitewright.Markdown
