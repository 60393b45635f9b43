import Sitewright.Proofs.BlockCode
import Sitewright.Proofs.BracketFree
import Sitewright.Proofs.InlineCode

/-!
Links in code. A link is in code on a compiled page just where its token is in code on the page that
Markdown makes; so there is none when no code that Markdown finds holds a token.
-/
namespace Sitewright

namespace RawTable
open Markdown (Free)

/-- Is HTML stored under this token? -/
def Stores (table : RawTable) (token : Text) : Prop := token ∈ table.entries.map Prod.fst

instance (table : RawTable) (t : Text) : Decidable (Free table.Stores t) :=
  inferInstanceAs (Decidable (∀ token ∈ table.entries.map Prod.fst, ¬ token <:+: t))

variable {table : RawTable}

lemma stores_of_startsLink {t : Text} (h : table.startsLink t = true) : ∃ token, table.Stores token ∧ token <+: t := by
  obtain ⟨token, html, htoken, hlookup⟩ := startsLink_some h
  obtain ⟨front, back, hentries, -⟩ := List.lookup_eq_some_iff.mp hlookup
  exact ⟨token, by simp [Stores, hentries], (inlineTokenAt?_some htoken).2⟩

lemma Stores.lookup {token : Text} (h : table.Stores token) : ∃ html, table.entries.lookup token = some html := by
  obtain ⟨entry, hentry, rfl⟩ := List.mem_map.mp h
  rw [← Option.ne_none_iff_exists']
  intro hnone
  simpa using List.lookup_eq_none_iff.mp hnone entry hentry

/-- The tokens of links are words of letters. -/
lemma HoldsLinks.letters (h : table.HoldsLinks) (hnonce : ∀ c ∈ table.nonce, c ∈ Digest.digits) {token : Text}
    (htoken : table.Stores token) : token.head? = some 'f' ∧ ∀ c ∈ token, c ∈ letters := by
  obtain ⟨html, hlookup⟩ := htoken.lookup
  obtain ⟨⟨n, rfl⟩, -⟩ := h token html hlookup
  exact ⟨rfl, fun c hc => mem_letters_of_mem_inlineToken hnonce hc⟩

end RawTable

namespace Markdown
open CodeSign

/-- Markdown takes no token for code: there is none in its blocks of code, and its code spans hold
nothing but text without tokens and marks. -/
structure Draft.SparesLinks (d : Draft) : Prop where
  blocks : ∀ html ∈ d.kept, Free d.table.Stores html ∧ Mark.opening ∉ html
  spans : ∀ code ∈ (Inline.read d.references d.kept d.root).1.codes, IsBareCode d.table.Stores code

instance (d : Draft) : Decidable d.SparesLinks :=
  decidable_of_iff ((∀ html ∈ d.kept, Free d.table.Stores html ∧ Mark.opening ∉ html) ∧
    ∀ code ∈ (Inline.read d.references d.kept d.root).1.codes, IsBareCode d.table.Stores code)
    ⟨fun ⟨hblocks, hspans⟩ => ⟨hblocks, hspans⟩, fun ⟨hblocks, hspans⟩ => ⟨hblocks, hspans⟩⟩

/-- Trees are written as they seem if their code is bare. -/
lemma Throughout.writable {words : Text → Prop} {e : Element} (h : Throughout IsTidy e)
    (hcodes : ∀ code ∈ e.codes, IsBareCode words code) : Throughout (IsWritable words) e := by
  induction h with
  | @mk e self children ih =>
    obtain ⟨tag, attributes, text, verbatim, children, tail⟩ := e
    rw [Element.codes] at hcodes
    obtain ⟨hself, hinner⟩ := List.forall_mem_append.mp hcodes
    refine .mk ⟨self.names, self.kind.imp_right fun ⟨hcode, _⟩ => ?_⟩ fun c hc =>
      ih c hc fun code hcode => hinner code (Element.codes_subset hc hcode)
    rw [if_pos hcode] at hself
    exact hself _ (List.mem_singleton_self _)

variable {body : Text}

section Page

variable (hfence : RawTable.HasNoFence (normalized body)) (hbracket : '<' ∉ body)
include hfence hbracket

lemma bracket_not_mem_masked : '<' ∉ (RawTable.protect (normalized body)).1 := by
  intro hmem
  rcases RawTable.mem_masked hfence hmem with hmem | hmem
  · exact bracket_not_mem_normalized hbracket hmem
  · exact absurd hmem (by decide)

/-- The page of a body without raw fences and brackets is calm if its code has no tokens in it. -/
lemma calm_page (h : (Draft.ofSource (Fence.normalize body)).SparesLinks)
    (hwords : ∀ token, (Draft.ofSource (Fence.normalize body)).table.Stores token →
      token.head? = some 'f' ∧ ∀ c ∈ token, c ∈ RawTable.letters) :
    Calm (Draft.ofSource (Fence.normalize body)).table.Stores (Draft.ofSource (Fence.normalize body)).page := by
  obtain ⟨draft, hdraft⟩ : ∃ draft, draft = Draft.ofSource (Fence.normalize body) := ⟨_, rfl⟩
  obtain ⟨masked, hmasked⟩ : ∃ masked, masked = (RawTable.protect (normalized body)).1 := ⟨_, rfl⟩
  obtain ⟨root, hroot⟩ : ∃ root, root = (Block.document (extracted masked).1).1 := ⟨_, rfl⟩
  have hdraftRoot : draft.root = (Layout.highlight (extracted masked).2 root).1 := by
    rw [hdraft, hroot, hmasked, Draft.ofSource, normalized]
  have hdraftKept : draft.kept = (Layout.highlight (extracted masked).2 root).2 := by
    rw [hdraft, hroot, hmasked, Draft.ofSource, normalized]
  rw [← hdraft] at h hwords ⊢
  have hclean : '<' ∉ masked := hmasked ▸ bracket_not_mem_masked hfence hbracket
  obtain ⟨hfenced, hblocks⟩ := FencedCode.extract_clean hclean
  obtain ⟨htext, hraw⟩ := RawHtml.extract_clear hfenced (FencedCode.extract masked).2
  have hopen : IsOpen root := hroot ▸ Block.isOpen_document htext
  have hgrows : Block.Grows (Element.named "div") root := hroot ▸ Block.document_grows _
  have hextracted : (extracted masked).2 = (FencedCode.extract masked).2 := hraw
  have htidy := Layout.tidy_highlight (extracted masked).2 root hopen.tree
  rw [← hdraftRoot] at htidy
  obtain ⟨codes, hindented⟩ := Layout.exists_highlight (extracted masked).2 root
  rw [← hdraftKept, hextracted] at hindented
  have hkept : ∀ html ∈ draft.kept, Kept.Harmless draft.table.Stores html := by
    intro html hhtml
    obtain ⟨hfree, hmark⟩ := h.blocks html hhtml
    rw [hindented, List.mem_append] at hhtml
    rcases hhtml with hin | hin
    · obtain ⟨b, rfl, hclasses⟩ := hblocks html hin
      exact b.harmless_html hclasses hfree hmark
    · obtain ⟨code, -, rfl⟩ := List.mem_map.mp hin
      exact Highlight.harmless_indented hfree hmark
  obtain ⟨hread, hback⟩ := Inline.tidy_read draft.references hkept htidy.children
  refine Kept.Harmless.calm_restore hback (calm_inner hwords ?_ ?_ ?_ fun e he => ?_)
  · rw [Inline.read, hdraftRoot, Layout.highlight_root _ hgrows.outer.tag]
    exact hgrows.outer.1
  · rw [Inline.read, hdraftRoot, Layout.highlight_root _ hgrows.outer.tag]
    exact hgrows.outer.2.1
  · rw [Inline.read, hdraftRoot, Layout.highlight_root _ hgrows.outer.tag]
    exact hgrows.outer.2.2
  · refine (hread e he).writable fun code hcode => h.spans code ?_
    generalize (Inline.read draft.references draft.kept draft.root).1 = whole at he
    obtain ⟨tag, attributes, text, verbatim, children, tail⟩ := whole
    rw [Element.codes]
    exact List.mem_append_right _ (Element.codes_subset he hcode)

end Page

/-- A link indented below a heading, where Markdown sees code without a blank line before it. -/
def linkBelowHeading : Text := "# H\n    [a](b)\x7bpost\x7d".toList

/-- A link in a code span, with another one behind it. -/
def linkInSpan : Text := "`[a](b)\x7bpost\x7d` [c](d)\x7bget\x7d".toList

end Markdown

end Sitewright
