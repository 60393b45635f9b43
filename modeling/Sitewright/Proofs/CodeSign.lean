import Mathlib.Data.List.TakeWhile
import Sitewright.Proofs.Recovery
import Sitewright.Proofs.Rewriting

/-!
Links and code in HTML. Reading the tags of a text from left to right tells how deep in code each link
is. What replaces tokens, marks and tags behind Markdown changes nothing about that.
-/
namespace Sitewright

/-- What a tag has to do with code: an element of code or preformatted text begins or ends, or there is
an anchor or a button. -/
inductive CodeSign where
  | opens
  | closes
  | link
  deriving DecidableEq

namespace CodeSign
open Text (isBlank)

/-- The names of tags that matter, end tags with their slash. -/
def names : List (Text × CodeSign) := [("code".toList, opens), ("pre".toList, opens),
  ("/code".toList, closes), ("/pre".toList, closes), ("a".toList, link), ("button".toList, link)]

/-- May a character be part of the name of a tag? -/
def inName (c : Char) : Bool := !isBlank c && c ≠ '>'

/-- The sign of a tag, given the text behind its opening bracket. -/
def ofTag? (t : Text) : Option CodeSign := names.lookup (t.takeWhile inName)

/-- The sign at a place: that of a tag, or a link where something stands for one. -/
def at? (stands : Text → Bool) : Text → Option CodeSign
  | [] => none
  | c :: cs => if c = '<' then ofTag? cs else if stands (c :: cs) then some link else none

/-- The signs of a text in order. -/
def along (stands : Text → Bool) : Text → List CodeSign
  | [] => []
  | c :: cs => (at? stands (c :: cs)).toList ++ along stands cs

/-- The signs of HTML, where nothing stands for a link. -/
abbrev ofHtml (t : Text) : List CodeSign := along (fun _ => false) t

/-- How many links are in code, when so many elements of code are open before the signs. -/
def linksWithin : ℕ → List CodeSign → ℕ
  | _, [] => 0
  | depth, opens :: signs => linksWithin (depth + 1) signs
  | depth, closes :: signs => linksWithin (depth - 1) signs
  | depth, link :: signs => (if depth = 0 then 0 else 1) + linksWithin depth signs

end CodeSign

/-- How many anchors and buttons are in elements of code or preformatted text. -/
def linksInCode (html : Text) : ℕ := CodeSign.linksWithin 0 (CodeSign.ofHtml html)

namespace CodeSign
open Text (isBlank Rewritten)

section Names

/-- Does a text begin with a character of names that is in none of those that matter? -/
def Strange (t : Text) : Prop := ∃ c ∈ t.head?, inName c = true ∧ ∀ n ∈ names, c ∉ n.1

lemma strange_cons {c : Char} (h : inName c = true ∧ ∀ n ∈ names, c ∉ n.1) (t : Text) : Strange (c :: t) :=
  ⟨c, rfl, h⟩

lemma strange_bracket (t : Text) : Strange ('<' :: t) := strange_cons (by decide) t

lemma Strange.append {t : Text} (h : Strange t) (u : Text) : Strange (t ++ u) := by
  obtain ⟨c, hc, hstrange⟩ := h
  obtain ⟨cs, rfl⟩ := List.head?_eq_some_iff.mp hc
  exact strange_cons hstrange _

lemma lookup_eq_none {name : Text} {c : Char} (hmem : c ∈ name) (h : ∀ n ∈ names, c ∉ n.1) :
    names.lookup name = none :=
  List.lookup_eq_none_iff.mpr fun n hn => by
    rw [bne_iff_ne]
    rintro rfl
    exact h n hn hmem

lemma ofTag?_strange {t : Text} (h : Strange t) (front : Text) (hfront : ∀ c ∈ front, inName c = true) :
    ofTag? (front ++ t) = none := by
  obtain ⟨c, hc, hin, hstrange⟩ := h
  obtain ⟨cs, rfl⟩ := List.head?_eq_some_iff.mp hc
  rw [ofTag?, List.takeWhile_append_of_pos hfront, List.takeWhile_cons_of_pos hin]
  exact lookup_eq_none (List.mem_append_right front List.mem_cons_self) hstrange

/-- Two texts that are the same up to where both end or both go on strangely. -/
inductive Agree : Text → Text → Prop
  | nil : Agree [] []
  | strange {t t' : Text} (h : Strange t) (h' : Strange t') : Agree t t'
  | cons (c : Char) {t t' : Text} (h : Agree t t') : Agree (c :: t) (c :: t')

lemma Agree.refl : (t : Text) → Agree t t
  | [] => .nil
  | c :: cs => .cons c (Agree.refl cs)

/-- Texts that agree begin with the same name, as far as names matter. -/
lemma Agree.ofTag? {t t' : Text} (h : Agree t t') : ofTag? t = ofTag? t' := by
  suffices hfront : ∀ front : Text, (∀ c ∈ front, inName c = true) →
      CodeSign.ofTag? (front ++ t) = CodeSign.ofTag? (front ++ t') by
    simpa using hfront [] (by simp)
  induction h with
  | nil => exact fun _ _ => rfl
  | strange h h' => exact fun front hfront => by rw [ofTag?_strange h front hfront, ofTag?_strange h' front hfront]
  | @cons c t t' h ih =>
    intro front hfront
    by_cases hc : inName c = true
    · have hlonger : ∀ d ∈ front ++ [c], inName d = true := by
        simpa using fun d hd => hd.elim (hfront d) fun hd => hd ▸ hc
      simpa using ih (front ++ [c]) hlonger
    · simp only [CodeSign.ofTag?, List.takeWhile_append_of_pos hfront, List.takeWhile_cons_of_neg hc]

/-- The name of a tag ends where it does, whatever follows. -/
lemma ofTag?_append {t : Text} (h : ∃ c ∈ t, inName c = false) (rest : Text) :
    ofTag? (t ++ rest) = ofTag? t := by
  obtain ⟨c, hc, hin⟩ := h
  have hshort : (t.takeWhile inName).length ≠ t.length := by
    intro hlength
    have hall := List.takeWhile_eq_self_iff.mp ((List.takeWhile_prefix inName).eq_of_length hlength)
    rw [hall c hc] at hin
    cases hin
  rw [ofTag?, ofTag?, List.takeWhile_append, if_neg hshort]

/-- White space at the end of a text is in no name. -/
lemma ofTag?_append_blank (t : Text) {back : Text} (hback : ∀ c ∈ back, isBlank c = true) :
    ofTag? (t ++ back) = ofTag? t := by
  have hstop : back.takeWhile inName = [] := by
    cases back with
    | nil => rfl
    | cons c cs => simp [inName, hback c List.mem_cons_self]
  rw [ofTag?, ofTag?, List.takeWhile_append, hstop]
  split
  · rename_i hlength
    rw [List.append_nil, (List.takeWhile_prefix inName).eq_of_length hlength]
  · rfl

end Names

section Along

variable {stands : Text → Bool}

lemma along_cons_of_none {c : Char} {cs : Text} (h : at? stands (c :: cs) = none) :
    along stands (c :: cs) = along stands cs := by
  rw [along, h]
  rfl

/-- A stretch with no signs in it adds none. -/
lemma along_append_of_none {t rest : Text}
    (h : ∀ u v, t = u ++ v → v ≠ [] → at? stands (v ++ rest) = none) :
    along stands (t ++ rest) = along stands rest := by
  induction t with
  | nil => rfl
  | cons c cs ih =>
    have hhead : at? stands (c :: (cs ++ rest)) = none := h [] (c :: cs) rfl (List.cons_ne_nil c cs)
    rw [List.cons_append, along_cons_of_none hhead]
    exact ih fun u v huv hv => h (c :: u) v (by rw [huv]; rfl) hv

lemma ofHtml_cons (c : Char) (cs : Text) :
    ofHtml (c :: cs) = (at? (fun _ => false) (c :: cs)).toList ++ ofHtml cs := rfl

lemma ofHtml_append {t : Text} (h : '<' ∉ t) (rest : Text) : ofHtml (t ++ rest) = ofHtml rest := by
  refine along_append_of_none fun u v huv hv => ?_
  obtain ⟨c, cs, rfl⟩ := List.exists_cons_of_ne_nil hv
  have hc : c ≠ '<' := by
    rintro rfl
    exact h (huv ▸ by simp)
  rw [List.cons_append, at?, if_neg hc]
  rfl

lemma ofHtml_bracket (t : Text) : ofHtml ('<' :: t) = (ofTag? t).toList ++ ofHtml t := rfl

/-- A tag gives its sign, and what is in it and behind it up to the next tag gives none. -/
lemma ofHtml_tag {t : Text} (h : '<' ∉ t) (hname : ∃ c ∈ t, inName c = false) (rest : Text) :
    ofHtml ('<' :: t ++ rest) = (ofTag? t).toList ++ ofHtml rest := by
  rw [List.cons_append, ofHtml_bracket, ofTag?_append hname, ofHtml_append h]

lemma ofHtml_append_blank (t : Text) {back : Text} (hback : ∀ c ∈ back, isBlank c = true) :
    ofHtml (t ++ back) = ofHtml t := by
  induction t with
  | nil =>
    have hbracket : '<' ∉ back := fun hmem => absurd (hback '<' hmem) (by decide)
    simpa using ofHtml_append hbracket []
  | cons c cs ih =>
    have hat : at? (fun _ => false) (c :: (cs ++ back)) = at? (fun _ => false) (c :: cs) := by
      rw [at?, at?, ofTag?_append_blank cs hback]
    rw [List.cons_append, ofHtml_cons, hat, ih, ← ofHtml_cons]

lemma ofHtml_strip (t : Text) : ofHtml (Text.strip t) = ofHtml t := by
  obtain ⟨front, back, ht, -, hfront, hback⟩ := Text.exists_strip t
  have hbracket : '<' ∉ front := fun hmem => absurd (hfront '<' hmem) (by decide)
  conv_rhs => rw [ht, List.append_assoc, ofHtml_append hbracket, ofHtml_append_blank _ hback]

/-- HTML that ends with a tag has the same signs whatever follows, if nothing in it stands for a link. -/
lemma along_of_last {t rest : Text} (hlast : t.getLast? = some '>')
    (hstands : ∀ u v, t = u ++ v → v ≠ [] → stands (v ++ rest) = false) :
    along stands (t ++ rest) = ofHtml t ++ along stands rest := by
  induction t with
  | nil => cases hlast
  | cons c cs ih =>
    have hrest : along stands (cs ++ rest) = ofHtml cs ++ along stands rest := by
      cases cs with
      | nil => rfl
      | cons d cs =>
        rw [List.getLast?_cons_cons] at hlast
        exact ih hlast fun u v huv => hstands (c :: u) v (by rw [huv]; rfl)
    have hat : at? stands (c :: (cs ++ rest)) = at? (fun _ => false) (c :: cs) := by
      rw [at?, at?]
      split
      · rename_i hbracket
        subst hbracket
        cases cs with
        | nil => exact absurd (Option.some.inj hlast) (by decide)
        | cons d cs =>
          rw [List.getLast?_cons_cons] at hlast
          exact ofTag?_append ⟨'>', List.mem_of_getLast? hlast, by decide⟩ rest
      · have hnot := hstands [] (c :: cs) rfl (List.cons_ne_nil c cs)
        rw [List.cons_append] at hnot
        rw [hnot]
    rw [List.cons_append, along, hat, hrest, ofHtml_cons, List.append_assoc]

end Along

section Rewriting

variable {word : Text} {New : Text → Prop} (hword : Strange word) (hnew : ∀ new, New new → Strange new)
include hword hnew

lemma agree_of_rewritten {t t' : Text} (h : Rewritten word New t t') : Agree t t' := by
  induction h with
  | nil => exact .nil
  | copy c h ih => exact .cons c ih
  | swap hn h ih => exact .strange (hword.append _) ((hnew _ hn).append _)

/-- Rewriting changes no signs if the new text has those of the old. -/
lemma ofHtml_rewritten (signs : List CodeSign) (holds : ∀ rest, ofHtml (word ++ rest) = signs ++ ofHtml rest)
    (hnews : ∀ new, New new → ∀ rest, ofHtml (new ++ rest) = signs ++ ofHtml rest) {t t' : Text}
    (h : Rewritten word New t t') : ofHtml t' = ofHtml t := by
  induction h with
  | nil => rfl
  | @copy c t t' h ih =>
    have hat : at? (fun _ => false) (c :: t') = at? (fun _ => false) (c :: t) := by
      rw [at?, at?, (agree_of_rewritten hword hnew h).ofTag?]
    rw [ofHtml_cons, hat, ih, ← ofHtml_cons]
  | swap hn h ih => rw [hnews _ hn, holds, ih]

end Rewriting

end CodeSign
end Sitewright
