import Sitewright.Proofs.CodeHtml

/-!
Document trees and the code in them. In HTML written from a tree no link is in code if the elements of
code hold nothing but text, and none of the tokens of links.
-/
namespace Sitewright.Markdown
open CodeSign

/-- Is it the name of a tag that opens no code? -/
def isPlainTag (tag : Text) : Bool :=
  !tag.contains '<' && tag.all inName && names.lookup tag ≠ some .opens

/-- A property of an element and of all elements inside it. -/
inductive Throughout (p : Element → Prop) : Element → Prop
  | mk {e : Element} (self : p e) (children : ∀ c ∈ e.children, Throughout p c) : Throughout p e

section Throughout

variable {p q : Element → Prop} {e : Element}

lemma Throughout.self (h : Throughout p e) : p e := by
  cases h with
  | mk self children => exact self

lemma Throughout.children (h : Throughout p e) : ∀ c ∈ e.children, Throughout p c := by
  cases h with
  | mk self children => exact children

end Throughout

/-- An element without angle brackets in its texts and the names of its attributes. -/
structure IsClean (e : Element) : Prop where
  names : ∀ a ∈ e.attributes, '<' ∉ a.1
  text : '<' ∉ e.text
  tail : '<' ∉ e.tail

/-- A clean element whose tag opens no code, unless it is that of code itself. -/
structure IsTidy (e : Element) : Prop extends IsClean e where
  kind : isPlainTag e.tag = true ∨ e.tag = "code".toList ∧ e.attributes = []

mutual
/-- The elements of code in a tree. -/
def Element.codes : Element → List Element
  | ⟨tag, attributes, text, verbatim, children, tail⟩ =>
    (if tag = "code".toList then [⟨tag, attributes, text, verbatim, children, tail⟩] else []) ++
      Element.codesOf children

/-- The elements of code in some trees. -/
def Element.codesOf : List Element → List Element
  | [] => []
  | e :: es => Element.codes e ++ Element.codesOf es
end

lemma Element.codes_subset {e : Element} {es : List Element} (h : e ∈ es) : e.codes ⊆ Element.codesOf es := by
  induction es with
  | nil => cases h
  | cons d ds ih =>
    rw [codesOf]
    rcases List.mem_cons.mp h with rfl | h
    · exact List.subset_append_left _ _
    · exact List.Subset.trans (ih h) (List.subset_append_right _ _)

variable {words : Text → Prop}

/-- An element of code that holds nothing but text, without marks and without the words. -/
structure IsBareCode (words : Text → Prop) (e : Element) : Prop where
  tag : e.tag = "code".toList
  attributes : e.attributes = []
  children : e.children = []
  free : Free words e.text
  mark_free : Mark.opening ∉ e.text

instance (e : Element) [Decidable (Free words e.text)] : Decidable (IsBareCode words e) :=
  decidable_of_iff (e.tag = "code".toList ∧ e.attributes = [] ∧ e.children = [] ∧ Free words e.text ∧
    Mark.opening ∉ e.text)
    ⟨fun ⟨htag, hattributes, hchildren, hfree, hmark⟩ => ⟨htag, hattributes, hchildren, hfree, hmark⟩,
      fun ⟨htag, hattributes, hchildren, hfree, hmark⟩ => ⟨htag, hattributes, hchildren, hfree, hmark⟩⟩

/-- An element whose tags are no more than they seem. -/
structure IsWritable (words : Text → Prop) (e : Element) : Prop where
  names : ∀ a ∈ e.attributes, '<' ∉ a.1
  kind : isPlainTag e.tag = true ∨ IsBareCode words e

section Writing

lemma isPlainTag_iff {tag : Text} : isPlainTag tag = true ↔
    '<' ∉ tag ∧ (∀ c ∈ tag, inName c = true) ∧ names.lookup tag ≠ some .opens := by
  simp [isPlainTag, and_assoc]

/-- End tags open nothing. -/
lemma lookup_slash (tag : Text) : names.lookup ('/' :: tag) ≠ some .opens := by
  have hnames : ∀ n ∈ names, n.2 = .opens → n.1.head? ≠ some '/' := by decide
  intro h
  obtain ⟨front, back, hsplit, -⟩ := List.lookup_eq_some_iff.mp h
  exact hnames ('/' :: tag, .opens) (by rw [hsplit]; simp) rfl rfl

lemma attributesHtml_clean {attributes : List (Text × Text)} (h : ∀ a ∈ attributes, '<' ∉ a.1) :
    '<' ∉ attributes.flatMap attributeHtml ∧ ∀ c ∈ (attributes.flatMap attributeHtml).head?, c = ' ' := by
  have hone : ∀ a ∈ attributes, '<' ∉ attributeHtml a ∧ ∃ t, attributeHtml a = ' ' :: t := by
    intro a ha
    unfold attributeHtml
    dsimp only
    split
    · exact ⟨by simp [bracket_not_mem_escapeHtml], _, rfl⟩
    · exact ⟨by simp [bracket_not_mem_escapeHtml, h a ha], _, rfl⟩
  constructor
  · rw [List.mem_flatMap]
    rintro ⟨a, ha, hmem⟩
    exact (hone a ha).1 hmem
  · cases attributes with
    | nil => simp
    | cons a as =>
      obtain ⟨t, ht⟩ := (hone a List.mem_cons_self).2
      simp [ht]

/-- A tag written for an element is as plain as its name. -/
lemma Calm.append_opening {tag t : Text} (htag : isPlainTag tag = true) {attributes : List (Text × Text)}
    (hnames : ∀ a ∈ attributes, '<' ∉ a.1) (h : Calm words t) :
    Calm words ('<' :: tag ++ attributes.flatMap attributeHtml ++ '>' :: t) := by
  obtain ⟨hbracket, hname, hsign⟩ := isPlainTag_iff.mp htag
  obtain ⟨hclean, hhead⟩ := attributesHtml_clean hnames
  generalize attributes.flatMap attributeHtml = written at hclean hhead ⊢
  have htagged := h.append_tag (u := tag ++ (written ++ ['>'])) (by simp [hbracket, hclean])
    ⟨'>', by simp, by decide⟩ (by rw [ofTag?_named hname hhead]; exact hsign)
  simpa using htagged

lemma Calm.append_closing {tag t : Text} (htag : isPlainTag tag = true) (h : Calm words t) :
    Calm words ("</".toList ++ tag ++ ['>'] ++ t) := by
  obtain ⟨hbracket, hname, -⟩ := isPlainTag_iff.mp htag
  have hslash : ∀ c ∈ '/' :: tag, inName c = true := by
    simpa using ⟨by decide, hname⟩
  have hsign : ofTag? ('/' :: tag ++ ['>']) = names.lookup ('/' :: tag) :=
    ofTag?_of_stop hslash (by decide) []
  have htagged := h.append_tag (u := '/' :: tag ++ ['>']) (by simp [hbracket]) ⟨'>', by simp, by decide⟩
    (by rw [hsign]; exact lookup_slash tag)
  simpa using htagged

lemma mark_not_mem_escapeHtml {t : Text} (h : Mark.opening ∉ t) (quotes : Bool) :
    Mark.opening ∉ escapeHtml quotes t := by
  have hnames : ∀ name ∈ ["amp".toList, "lt".toList, "gt".toList, "quot".toList],
      Mark.opening ∉ '&' :: name ∧ Mark.opening ≠ ';' := by decide
  induction t with
  | nil => exact h
  | cons c cs ih =>
    rw [List.mem_cons, not_or] at h
    rcases escapeHtml_cons quotes c cs with ⟨-, hsame⟩ | ⟨name, hname, hescaped⟩
    · simp [hsame, ih h.2, h.1]
    · obtain ⟨hfree, hsep⟩ := hnames name hname
      rw [hescaped, List.mem_append, not_or]
      exact ⟨hfree, by simp [ih h.2, hsep]⟩

/-- A beginning of an escaped text that holds only letters is a beginning of the text. -/
lemma prefix_of_escapeHtml {quotes : Bool} {t word : Text} (hletters : ∀ c ∈ word, c ∈ RawTable.letters)
    (h : word <+: escapeHtml quotes t) : word <+: t := by
  induction t generalizing word with
  | nil => exact h
  | cons c cs ih =>
    cases word with
    | nil => exact List.nil_prefix
    | cons d word =>
      rcases escapeHtml_cons quotes c cs with ⟨-, hsame⟩ | ⟨name, -, hescaped⟩
      · rw [hsame, List.cons_prefix_cons] at h
        rw [List.cons_prefix_cons]
        exact ⟨h.1, ih (fun c hc => hletters c (List.mem_cons_of_mem d hc)) h.2⟩
      · rw [hescaped, List.cons_append, List.cons_prefix_cons] at h
        have hamp := hletters d List.mem_cons_self
        rw [h.1] at hamp
        exact absurd hamp (by decide)

lemma Calm.append_htmls {es : List Element} (h : ∀ e ∈ es, ∀ t, Calm words t → Calm words (e.html ++ t))
    {t : Text} (ht : Calm words t) : Calm words (Element.htmls es ++ t) := by
  induction es with
  | nil => rwa [Element.htmls]
  | cons e es ih =>
    rw [Element.htmls, List.append_assoc]
    exact h e List.mem_cons_self _ (ih fun d hd => h d (List.mem_cons_of_mem e hd))

variable (hwords : ∀ word, words word → word.head? = some 'f' ∧ ∀ c ∈ word, c ∈ RawTable.letters)
include hwords

/-- Escaping puts none of the words into a text. -/
lemma Free.escapeHtml {t : Text} (h : Free words t) (quotes : Bool) : Free words (escapeHtml quotes t) := by
  have hnames : ∀ name ∈ ["amp".toList, "lt".toList, "gt".toList, "quot".toList], 'f' ∉ '&' :: name := by decide
  intro word hword
  obtain ⟨hhead, hletters⟩ := hwords word hword
  have hnot := h word hword
  have hsep : ';' ∉ word := fun hmem => absurd (hletters _ hmem) (by decide)
  contrapose! hnot
  clear h
  induction t with
  | nil => exact hnot
  | cons c cs ih =>
    rcases escapeHtml_cons quotes c cs with ⟨-, hsame⟩ | ⟨name, hname, hescaped⟩
    · rw [hsame, List.infix_cons_iff, ← hsame] at hnot
      rcases hnot with hin | hin
      · exact (prefix_of_escapeHtml hletters hin).isInfix
      · exact (ih hin).trans (List.suffix_cons c cs).isInfix
    · rw [hescaped] at hnot
      rcases Text.infix_append_cons hsep hnot with hin | hin
      · exact absurd (hin.subset (List.mem_of_mem_head? hhead)) (hnames name hname)
      · exact (ih hin).trans (List.suffix_cons c cs).isInfix

/-- An element of code that holds nothing but text is a stretch of code. -/
lemma isCode_span {text : Text} (hfree : Free words text) (hmark : Mark.opening ∉ text) :
    IsCode words ("<code>".toList ++ escapeHtml false text ++ "</code>".toList) := by
  have hopening : Reads "<code>".toList [.opens] := reads_of_last (by decide) (by decide)
  have hclosing : Reads "</code>".toList [.closes] := reads_of_last (by decide) (by decide)
  have hall := (hopening.append (reads_text (bracket_not_mem_escapeHtml false text))).append hclosing
  refine ⟨?_, ⟨rfl, ?_⟩, ?_, ?_, ?_⟩
  · rw [hall.ofHtml_eq]
    exact isLevel_nil.enclose
  · have htake : ∀ t : Text, ("<code>".toList ++ t).take 3 = "<co".toList := fun _ => rfl
    rw [List.append_assoc, htake]
    decide
  · have hend : "</code>".toList = "</cod".toList ++ ['e', '>'] := by decide
    exact ⟨_ ++ "</cod".toList, 'e', by rw [hend, List.append_assoc _ "</cod".toList], by decide⟩
  · intro word hword hin
    obtain ⟨hhead, hletters⟩ := hwords word hword
    have hfirst : 'f' ∈ word := List.mem_of_mem_head? hhead
    have hsplit : "<code>".toList ++ escapeHtml false text ++ "</code>".toList =
        "<code".toList ++ '>' :: (escapeHtml false text ++ '<' :: "/code>".toList) := by
      have htags : "<code>".toList = "<code".toList ++ ['>'] ∧ "</code>".toList = '<' :: "/code>".toList := by
        decide
      rw [htags.1, htags.2, List.append_assoc, List.append_assoc, List.singleton_append]
    rw [hsplit] at hin
    rcases Text.infix_append_cons (fun hmem => absurd (hletters _ hmem) (by decide)) hin with hin | hin
    · exact absurd (hin.subset hfirst) (by decide)
    · rcases Text.infix_append_cons (fun hmem => absurd (hletters _ hmem) (by decide)) hin with hin | hin
      · exact hfree.escapeHtml hwords false word hword hin
      · exact absurd (hin.subset hfirst) (by decide)
  · simp only [List.mem_append, not_or]
    exact ⟨⟨by decide, mark_not_mem_escapeHtml hmark false⟩, by decide⟩

/-- The HTML of a tree is calm if its elements are. -/
theorem Throughout.calm_html {e : Element} (h : Throughout (IsWritable words) e) :
    ∀ t, Calm words t → Calm words (e.html ++ t) := by
  induction h with
  | @mk e self hchildren ih =>
    obtain ⟨tag, attributes, text, verbatim, children, tail⟩ := e
    intro t ht
    have htail : Calm words (escapeHtml false tail ++ t) := ht.append_text (bracket_not_mem_escapeHtml false tail)
    rcases self.kind with hplain | hcode
    · have hend : Calm words ((if voidTags.contains tag then [] else "</".toList ++ tag ++ ['>']) ++
          (escapeHtml false tail ++ t)) := by
        split
        · exact htail
        · exact htail.append_closing hplain
      have hopened := ((Calm.append_htmls ih hend).append_text (bracket_not_mem_escapeHtml false text)).append_opening
        hplain self.names
      rw [Element.html]
      simpa only [List.append_assoc, List.cons_append] using hopened
    · obtain ⟨rfl, rfl, rfl, hfree, hmark⟩ := hcode
      have hvoid : voidTags.contains "code".toList = false := by decide
      have hhtml : Element.html ⟨"code".toList, [], text, verbatim, [], tail⟩ =
          "<code>".toList ++ escapeHtml false text ++ "</code>".toList ++ escapeHtml false tail := by
        have htags : "<code>".toList = '<' :: "code".toList ++ ['>'] ∧
            "</code>".toList = "</".toList ++ "code".toList ++ ['>'] := by decide
        rw [Element.html, Element.htmls, hvoid, htags.1, htags.2]
        simp only [List.flatMap_nil, List.append_nil, List.append_assoc, List.cons_append, List.nil_append,
          Bool.false_eq_true, if_false]
      rw [hhtml, List.append_assoc _ _ t]
      exact .code (isCode_span hwords hfree hmark) htail

end Writing

namespace Layout

/-- An element stays as it seems when only its texts change, and those of code do not. -/
lemma writable_of_same {e e' : Element} (h : IsWritable words e) (htag : e'.tag = e.tag)
    (hnames : e'.attributes.map Prod.fst = e.attributes.map Prod.fst)
    (htext : e.tag = "code".toList → e'.text = e.text) (hchildren : e.children = [] → e'.children = []) :
    IsWritable words e' where
  names a ha := by
    have hmem : a.1 ∈ e.attributes.map Prod.fst := hnames ▸ List.mem_map_of_mem ha
    obtain ⟨b, hb, hsame⟩ := List.mem_map.mp hmem
    exact hsame ▸ h.names b hb
  kind := by
    rw [htag]
    refine h.kind.imp_right fun hcode => ?_
    refine ⟨htag.trans hcode.tag, ?_, hchildren hcode.children, ?_, ?_⟩
    · rw [hcode.attributes] at hnames
      exact List.map_eq_nil_iff.mp hnames
    · rw [htext hcode.tag]
      exact hcode.free
    · rw [htext hcode.tag]
      exact hcode.mark_free

mutual
lemma writable_spaced : (e : Element) → Throughout (IsWritable words) e →
    Throughout (IsWritable words) (spaced e)
  | ⟨tag, attributes, text, verbatim, children, tail⟩, h => by
    rw [spaced]
    split
    · rename_i hblock
      refine .mk (writable_of_same h.self rfl rfl ?_ ?_) (writable_spacedBlocks children h.children)
      · rintro rfl
        exact absurd hblock (by decide)
      · rintro rfl
        rw [spacedBlocks]
    · exact .mk (writable_of_same h.self rfl rfl (fun _ => rfl) id) h.children

lemma writable_spacedBlocks : (es : List Element) → (∀ e ∈ es, Throughout (IsWritable words) e) →
    ∀ e ∈ spacedBlocks es, Throughout (IsWritable words) e
  | [], h => by rwa [spacedBlocks]
  | e :: es, h => by
    rw [spacedBlocks]
    refine List.forall_mem_cons.mpr ⟨?_, writable_spacedBlocks es (List.forall_mem_cons.mp h).2⟩
    split
    · exact writable_spaced e (List.forall_mem_cons.mp h).1
    · exact (List.forall_mem_cons.mp h).1
end

mutual
lemma writable_feedBreaks : (e : Element) → Throughout (IsWritable words) e →
    Throughout (IsWritable words) (feedBreaks e)
  | ⟨tag, attributes, text, verbatim, children, tail⟩, h => by
    rw [feedBreaks]
    refine .mk (writable_of_same h.self rfl rfl (fun _ => rfl) ?_) (writable_feedBreaksAll children h.children)
    rintro rfl
    rw [feedBreaksAll]

lemma writable_feedBreaksAll : (es : List Element) → (∀ e ∈ es, Throughout (IsWritable words) e) →
    ∀ e ∈ feedBreaksAll es, Throughout (IsWritable words) e
  | [], h => by rwa [feedBreaksAll]
  | e :: es, h => by
    rw [feedBreaksAll]
    exact List.forall_mem_cons.mpr ⟨writable_feedBreaks e (List.forall_mem_cons.mp h).1,
      writable_feedBreaksAll es (List.forall_mem_cons.mp h).2⟩
end

mutual
lemma writable_unprotected : (e : Element) → Throughout (IsWritable words) e →
    Throughout (IsWritable words) (unprotected e)
  | ⟨tag, attributes, text, verbatim, children, tail⟩, h => by
    rw [unprotected]
    refine .mk (writable_of_same h.self rfl ?_ ?_ ?_) (writable_unprotectedAll children h.children)
    · rw [List.map_map]
      rfl
    · rintro rfl
      dsimp only
      rw [if_pos rfl]
    · rintro rfl
      rw [unprotectedAll]

lemma writable_unprotectedAll : (es : List Element) → (∀ e ∈ es, Throughout (IsWritable words) e) →
    ∀ e ∈ unprotectedAll es, Throughout (IsWritable words) e
  | [], h => by rwa [unprotectedAll]
  | e :: es, h => by
    rw [unprotectedAll]
    exact List.forall_mem_cons.mpr ⟨writable_unprotected e (List.forall_mem_cons.mp h).1,
      writable_unprotectedAll es (List.forall_mem_cons.mp h).2⟩
end

end Layout

/-- The page written from a tree is calm if the elements of the tree are. -/
theorem calm_inner (hwords : ∀ word, words word → word.head? = some 'f' ∧ ∀ c ∈ word, c ∈ RawTable.letters)
    {root : Element} (htag : root.tag = "div".toList) (hattributes : root.attributes = [])
    (htail : root.tail = []) (h : ∀ e ∈ root.children, Throughout (IsWritable words) e) :
    Calm words (inner (Layout.finish root)) := by
  obtain ⟨tag, attributes, text, verbatim, children, tail⟩ := root
  obtain rfl : tag = "div".toList := htag
  obtain rfl : attributes = [] := hattributes
  obtain rfl : tail = [] := htail
  obtain ⟨text', hfinish⟩ := Layout.finish_div text verbatim children
  rw [hfinish, inner_eq]
  refine Calm.strip (Calm.append_text (bracket_not_mem_escapeHtml false text') ?_)
  have hall := Layout.writable_unprotectedAll _
    (Layout.writable_feedBreaksAll _ (Layout.writable_spacedBlocks children h))
  have hnil : Calm words ([] : Text) := .nil
  simpa using Calm.append_htmls (fun e he => (hall e he).calm_html hwords) hnil

end Sitewright.Markdown
