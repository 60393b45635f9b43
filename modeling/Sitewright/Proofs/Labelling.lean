import Sitewright.Proofs.Escape
import Sitewright.Proofs.Rewriting
import Sitewright.Proofs.Scan

/-!
Labels of highlighted blocks. The blocks of a page are told by the tag that opens them, and the languages
of a source are given to the tags one after another. A page shows which labels its tags were given.
-/
namespace Sitewright

namespace Text

lemma findLiteral_eq {needle before after : Text} (hneedle : needle ≠ []) : findLiteral needle before after =
    if needle.isPrefixOf after then some ⟨(), needle.length⟩ else none := by
  have hempty : needle.isEmpty = false := by simpa using hneedle
  rw [findLiteral, hempty]
  rfl

lemma findLiteral_eq_none {needle before after : Text} (hneedle : needle ≠ []) :
    findLiteral needle before after = none ↔ ¬ needle <+: after := by
  rw [findLiteral_eq hneedle, ite_eq_right_iff, ← List.isPrefixOf_iff_prefix]
  simp

lemma exact_findLiteral {needle : Text} (hneedle : needle ≠ []) :
    (findLiteral needle).Exact fun _ => needle := by
  intro before after hit h
  rw [findLiteral_eq hneedle, Option.ite_none_right_eq_some] at h
  obtain ⟨hlead, h⟩ := h
  obtain rfl := Option.some.inj h
  exact ⟨rfl, hneedle, List.isPrefixOf_iff_prefix.mp hlead⟩

/-- The names of the characters that are escaped in attributes. -/
def entities : List (Text × Char) :=
  [("amp".toList, '&'), ("lt".toList, '<'), ("gt".toList, '>'), ("quot".toList, '"'), ("#x27".toList, '\'')]

lemma escapeAttribute_cons (c : Char) (cs : Text) :
    escapeAttribute (c :: cs) = escapeAttribute [c] ++ escapeAttribute cs := by
  rw [escapeAttribute, escapeAttribute, escapeAttribute, List.flatMap_cons, List.flatMap_singleton]

/-- A character is copied, or gives way to its entity. -/
lemma escapeAttribute_singleton (c : Char) : escapeAttribute [c] = [c] ∧ c ∉ ['&', '"'] ∨
    ∃ name, escapeAttribute [c] = '&' :: (name ++ [';']) ∧ (';' ∉ name ∧ '"' ∉ name) ∧
      entities.lookup name = some c := by
  have hname : ∀ e ∈ entities, (';' ∉ e.1 ∧ '"' ∉ e.1) ∧ entities.lookup e.1 = some e.2 ∧
      escapeAttribute [e.2] = '&' :: (e.1 ++ [';']) := by decide
  by_cases hc : c ∈ entities.map Prod.snd
  · obtain ⟨e, he, rfl⟩ := List.mem_map.mp hc
    obtain ⟨hmarks, hlookup, hescape⟩ := hname e he
    exact .inr ⟨e.1, hescape, hmarks, hlookup⟩
  · simp only [entities, List.map_cons, List.map_nil, List.mem_cons, List.not_mem_nil, or_false, not_or] at hc
    obtain ⟨hand, hless, hmore, hquote, htick⟩ := hc
    refine .inl ⟨?_, by simp [hand, hquote]⟩
    rw [escapeAttribute, List.flatMap_singleton, if_neg hand, if_neg hless, if_neg hmore, if_neg hquote,
      if_neg htick]

/-- Escaped text shows what it was made from. -/
lemma escapeAttribute_injective : Function.Injective escapeAttribute := by
  have hhead : ∀ c d x y, escapeAttribute [c] ++ x = escapeAttribute [d] ++ y → c = d ∧ x = y := by
    intro c d x y h
    rcases escapeAttribute_singleton c with ⟨hc, hcnot⟩ | ⟨name, hname, hmarks, hlookup⟩ <;>
      rcases escapeAttribute_singleton d with ⟨hd, hdnot⟩ | ⟨name', hname', hmarks', hlookup'⟩
    · rw [hc, hd] at h
      exact List.cons.inj h
    · rw [hc, hname'] at h
      obtain rfl := (List.cons.inj h).1
      exact absurd (by decide) hcnot
    · rw [hname, hd] at h
      obtain rfl := (List.cons.inj h).1
      exact absurd (by decide) hdnot
    · rw [hname, hname'] at h
      have hrest : name ++ ';' :: x = name' ++ ';' :: y := by
        simpa using (List.cons.inj h).2
      obtain ⟨rfl, hxy⟩ := append_cons_inj hrest hmarks.1 hmarks'.1
      exact ⟨Option.some.inj (hlookup.symm.trans hlookup'), hxy⟩
  have hne : ∀ c cs, escapeAttribute (c :: cs) ≠ [] := by
    intro c cs hnil
    rw [escapeAttribute_cons, List.append_eq_nil_iff] at hnil
    rcases escapeAttribute_singleton c with ⟨hc, -⟩ | ⟨name, hname, -⟩
    · rw [hc] at hnil
      cases hnil.1
    · rw [hname] at hnil
      cases hnil.1
  intro t t' h
  induction t generalizing t' with
  | nil =>
    cases t' with
    | nil => rfl
    | cons d ds => exact absurd h.symm (hne d ds)
  | cons c cs ih =>
    cases t' with
    | nil => exact absurd h (hne c cs)
    | cons d ds =>
      rw [escapeAttribute_cons, escapeAttribute_cons d] at h
      obtain ⟨rfl, hrest⟩ := hhead _ _ _ _ h
      rw [ih hrest]

end Text

namespace Fence
open Text (Piece Quiet Scanned constructs findLiteral pieces sourceOf)

variable {α β : Type}

/-- Finds the tags of highlighted blocks. -/
def findTag : Text.Finder Unit := findLiteral highlightTag

lemma exact_findTag : findTag.Exact fun _ => highlightTag := Text.exact_findLiteral (by decide)

/-- The tag of a highlighted block with a label or without. -/
def tagWith : Option Text → Text
  | none => highlightTag
  | some language => labelTag language

/-- What the tags of highlighted blocks start with. -/
def tagLead : Text := "<div class=\"codehilite\"".toList

lemma highlightTag_eq : highlightTag = tagLead ++ ['>'] := by decide

lemma labelTag_eq (language : Text) : labelTag language =
    tagLead ++ ' ' :: ("data-language=\"".toList ++ (Text.escapeAttribute language ++ '"' :: ['>'])) := by
  have hlead : "<div class=\"codehilite\" data-language=\"".toList =
      tagLead ++ ' ' :: "data-language=\"".toList := by decide
  have hclose : "\">".toList = '"' :: ['>'] := by decide
  refine (congrArg₂ (fun lead close => lead ++ Text.escapeAttribute language ++ close) hlead hclose).trans ?_
  rw [List.append_assoc, List.append_assoc, List.cons_append]

/-- A tag shows its label. -/
lemma tagWith_injective {label label' : Option Text} {x y : Text} (h : tagWith label ++ x = tagWith label' ++ y) :
    label = label' ∧ x = y := by
  have hnot : ¬ '>' = ' ' := by decide
  cases label with
  | none =>
    cases label' with
    | none => exact ⟨rfl, List.append_cancel_left h⟩
    | some language =>
      simp only [tagWith, highlightTag_eq, labelTag_eq, List.append_assoc] at h
      exact absurd (List.cons.inj (List.append_cancel_left h)).1 hnot
  | some language =>
    cases label' with
    | none =>
      simp only [tagWith, highlightTag_eq, labelTag_eq, List.append_assoc] at h
      exact absurd (List.cons.inj (List.append_cancel_left h)).1.symm hnot
    | some language' =>
      simp only [tagWith, labelTag_eq, List.append_assoc, List.cons_append] at h
      have hquoted := List.append_cancel_left (List.cons.inj (List.append_cancel_left h)).2
      obtain ⟨hlanguage, hrest⟩ := Text.append_cons_inj hquoted
        (Text.quote_not_mem_escapeAttribute language) (Text.quote_not_mem_escapeAttribute language')
      exact ⟨congrArg some (Text.escapeAttribute_injective hlanguage), (List.cons.inj hrest).2⟩

/-- Pieces written as text, whose tags are given the labels in order. -/
def carrying : List (Option Text) → List (Piece α) → Text
  | _, [] => []
  | labels, .plain t :: ps => t ++ carrying labels ps
  | labels, .found _ :: ps => tagWith labels.head?.join ++ carrying labels.tail ps

lemma carrying_map (f : α → β) (labels : List (Option Text)) (ps : List (Piece α)) :
    carrying labels (ps.map (Piece.map f)) = carrying labels ps := by
  induction ps generalizing labels with
  | nil => rfl
  | cons p ps ih =>
    cases p with
    | plain t => exact congrArg (t ++ ·) (ih labels)
    | found v => exact congrArg (tagWith labels.head?.join ++ ·) (ih labels.tail)

/-- Labels can be read off the text. -/
lemma carrying_injective {labels labels' : List (Option Text)} {ps : List (Piece α)}
    (hlength : labels.length = (constructs ps).length)
    (hlength' : labels'.length = (constructs ps).length)
    (h : carrying labels ps = carrying labels' ps) : labels = labels' := by
  induction ps generalizing labels labels' with
  | nil => rw [List.length_eq_zero_iff.mp hlength, List.length_eq_zero_iff.mp hlength']
  | cons p ps ih =>
    cases p with
    | plain t => exact ih hlength hlength' (List.append_cancel_left h)
    | found v =>
      obtain ⟨label, labels, rfl⟩ := List.exists_cons_of_length_eq_add_one hlength
      obtain ⟨label', labels', rfl⟩ := List.exists_cons_of_length_eq_add_one hlength'
      obtain ⟨hlabel, hrest⟩ := tagWith_injective h
      have hsame : label = label' := by simpa using hlabel
      rw [hsame, ih (Nat.succ.inj hlength) (Nat.succ.inj hlength') hrest]

/-- The label of the `k`-th tag: the language at its place, `text` behind the last one. Without languages
there are no labels. -/
def labelAt (langs : List Text) (k : ℕ) : Option Text :=
  if langs.isEmpty then none else some (langs.getD k "text".toList)

/-- The labels of so many tags. -/
def labels (langs : List Text) (count : ℕ) : List (Option Text) := (List.range count).map (labelAt langs)

lemma carrying_bare (count : ℕ) (ps : List (Piece Unit)) :
    carrying (labels [] count) ps = sourceOf (fun _ => highlightTag) ps := by
  induction ps generalizing count with
  | nil => rfl
  | cons p ps ih =>
    cases p with
    | plain t => exact congrArg (t ++ ·) (ih count)
    | found v =>
      cases count with
      | zero => exact congrArg (highlightTag ++ ·) (ih 0)
      | succ count =>
        have hnone : labels [] (count + 1) = none :: labels [] count := by
          rw [labels, List.range_succ_eq_map, List.map_cons, List.map_map]
          rfl
        rw [hnone]
        exact congrArg (highlightTag ++ ·) (ih count)

lemma labelFrom_quiet (langs : List Text) {before t after : Text} (h : Quiet findTag before t after) :
    labelFrom langs 0 (t ++ after) = t ++ labelFrom langs 0 after := by
  induction t generalizing before with
  | nil => rfl
  | cons c cs ih =>
    have hhead : ¬ highlightTag <+: c :: (cs ++ after) :=
      (Text.findLiteral_eq_none (by decide)).mp (h [] (c :: cs) rfl (List.cons_ne_nil c cs))
    rw [List.cons_append, labelFrom_cons langs hhead, ih h.of_cons]
    rfl

lemma labelFrom_scanned (langs : List Text) {before : Text} {ps : List (Piece Unit)}
    (h : Scanned findTag (fun _ => highlightTag) before ps) :
    labelFrom langs 0 (sourceOf (fun _ => highlightTag) ps) = carrying
      ((List.range (constructs ps).length).map fun k => some (langs.getD k "text".toList)) ps := by
  induction h generalizing langs with
  | @last before t hquiet =>
    have hcopied := labelFrom_quiet langs hquiet
    rw [List.append_nil] at hcopied
    simpa [sourceOf, Piece.source, carrying, labelFrom] using hcopied
  | @step before t v ps hquiet hfind hps ih =>
    have hnext : ∀ k, langs.tail.getD k "text".toList = langs.getD (k + 1) "text".toList := by
      intro k
      cases langs <;> rfl
    have hfirst : langs.headD "text".toList = langs.getD 0 "text".toList := by
      cases langs <;> rfl
    rw [Text.sourceOf_cons, Text.sourceOf_cons]
    simp only [Piece.source]
    rw [labelFrom_quiet langs hquiet, labelFrom_tag, ih langs.tail, hfirst]
    simp only [hnext]
    rw [Text.constructs_plain, Text.constructs_found, List.length_cons, List.range_succ_eq_map, List.map_cons,
      List.map_map]
    rfl

/-- The tags of a page are given the languages of a source, each the one at its place. -/
theorem labelLanguages_eq (html source : Text) : labelLanguages html source = carrying
    (labels (languages source) (constructs (pieces findTag html)).length) (pieces findTag html) := by
  obtain ⟨hsource, hscanned⟩ := (Text.pieces_eq_iff exact_findTag).mp (rfl : pieces findTag html = _)
  cases hlangs : languages source with
  | nil => rw [labelLanguages, hlangs, carrying_bare, hsource]
  | cons language langs =>
    have hlabelled := labelFrom_scanned (language :: langs) hscanned
    rw [hsource] at hlabelled
    rw [labelLanguages, hlangs]
    exact hlabelled

end Fence

end Sitewright
