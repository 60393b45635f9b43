import Mathlib.Data.List.Infix
import Sitewright.Proofs.Component
import Sitewright.Proofs.Template

/-!
Reading markup back. What the site shows of a value is got back by undoing the entities, and an
element by cutting at its tags: no value begins or ends one, whatever it holds.
-/
namespace Sitewright

namespace Text

/-- The entities of shown values, and what they stand for. -/
def shownEntities : List (Text × Char) :=
  [("&amp;", '&'), ("&lt;", '<'), ("&gt;", '>'), ("&#34;", '"'), ("&#39;", '\'')].map
    fun (e, c) => (e.toList, c)

/-- Finds entities of shown values. -/
def findEntity : Finder Char := fun _ after =>
  (shownEntities.find? fun e => e.1.isPrefixOf after).map fun (e, c) => ⟨c, e.length⟩

/-- The text with its entities undone. -/
def unescape (t : Text) : Text := substitute findEntity (fun c => [c]) t

section Entities

lemma findEntity_local : findEntity.Local := fun _ _ _ => rfl

/-- Nothing but an ampersand begins an entity. -/
lemma findEntity_none {c : Char} (h : c ≠ '&') (cs : Text) : findEntity [] (c :: cs) = none := by
  have hheads : ∀ e ∈ shownEntities, e.1.head? = some '&' := by decide
  rw [findEntity, Option.map_eq_none_iff, List.find?_eq_none]
  intro e he hprefix
  obtain ⟨es, hes⟩ := List.head?_eq_some_iff.mp (hheads e he)
  rw [hes, List.isPrefixOf_iff_prefix, List.cons_prefix_cons] at hprefix
  exact h hprefix.1.symm

lemma unescape_copied {c : Char} (h : c ≠ '&') (cs : Text) : unescape (c :: cs) = c :: unescape cs :=
  substitute_none findEntity_local (findEntity_none h cs)

/-- An entity is undone whatever follows it. -/
lemma unescape_entity {e : Text} {c : Char} (h : ∀ rest, findEntity [] (e ++ rest) = some ⟨c, e.length⟩)
    (hne : e ≠ []) (rest : Text) : unescape (e ++ rest) = c :: unescape rest :=
  substitute_hit findEntity_local (h rest) rfl hne

lemma unescape_escapeShown (t : Text) : unescape (escapeShown t) = t := by
  induction t with
  | nil => rfl
  | cons c cs ih =>
    rw [escapeShown, List.flatMap_cons, ← escapeShown]
    split_ifs with hand hless hmore hquote htick
    · rw [unescape_entity (fun _ => rfl) (by decide), ih, hand]
    · rw [unescape_entity (fun _ => rfl) (by decide), ih, hless]
    · rw [unescape_entity (fun _ => rfl) (by decide), ih, hmore]
    · rw [unescape_entity (fun _ => rfl) (by decide), ih, hquote]
    · rw [unescape_entity (fun _ => rfl) (by decide), ih, htick]
    · rw [List.singleton_append, unescape_copied hand, ih]

lemma mark_not_mem_escapeShown {t : Text} {c : Char} (h : c ∈ escapeShown t) :
    c ∉ ['<', '>', '"', '\''] := by
  have hnone := List.filter_eq_nil_iff.mp (markupSigns_escapeShown t) c h
  simpa using hnone

end Entities

/-- The word begins nowhere in the text, whatever stands behind it. -/
def Avoids (word t : Text) : Prop := ∀ u v, t = u ++ v → v ≠ [] → ∀ rest, ¬ word <+: v ++ rest

section Avoids

variable {word t s : Text}

lemma Avoids.append (ht : Avoids word t) (hs : Avoids word s) : Avoids word (t ++ s) := by
  intro u v huv hv rest
  rcases List.append_eq_append_iff.mp huv with ⟨w, rfl, hw⟩ | ⟨w, hw, rfl⟩
  · exact hs w v hw hv rest
  · by_cases hne : w = []
    · subst hne
      exact hs [] s rfl hv rest
    · rw [List.append_assoc]
      exact ht u w hw hne (s ++ rest)

lemma avoids_of_not_mem {c : Char} (hword : word.head? = some c) (ht : c ∉ t) : Avoids word t := by
  rintro u (_ | ⟨d, v⟩) huv hv rest hprefix
  · exact hv rfl
  · obtain ⟨w, rfl⟩ := List.head?_eq_some_iff.mp hword
    rw [List.cons_append, List.cons_prefix_cons] at hprefix
    exact ht (by rw [huv, hprefix.1]; exact List.mem_append_right u List.mem_cons_self)

/-- Does no end of the text begin with the word or begin the word? -/
def isClear (word t : Text) : Bool :=
  t.tails.all fun v => v.isEmpty || !(word.isPrefixOf v || v.isPrefixOf word)

lemma avoids_of_isClear (h : isClear word t = true) : Avoids word t := by
  intro u v huv hv rest hprefix
  have hv' := List.all_eq_true.mp h v ((List.mem_tails v t).mpr ⟨u, huv.symm⟩)
  simp only [Bool.or_eq_true, List.isEmpty_iff, hv, false_or, Bool.not_eq_true', ← Bool.not_eq_true,
    List.isPrefixOf_iff_prefix] at hv'
  exact hv' (List.prefix_or_prefix_of_prefix hprefix (List.prefix_append v rest))

lemma avoids_escapeShown (hword : word.head? = some '<') (t : Text) : Avoids word (escapeShown t) :=
  avoids_of_not_mem hword fun h => mark_not_mem_escapeShown h (by decide)

lemma render_append (fs gs : List Fragment) :
    Fragment.render (fs ++ gs) = Fragment.render fs ++ Fragment.render gs :=
  List.flatMap_append

/-- A word that begins a tag begins in rendered fragments only where the site itself writes it. -/
lemma avoids_render (hword : word.head? = some '<') {fs : List Fragment}
    (h : (Fragment.written fs).all (isClear word) = true) : Avoids word (Fragment.render fs) := by
  induction fs with
  | nil =>
    intro u v huv hv
    exact absurd (List.append_eq_nil_iff.mp huv.symm).2 hv
  | cons f fs ih =>
    rw [Fragment.render, List.flatMap_cons]
    cases f with
    | markup m =>
      obtain ⟨hm, hrest⟩ := Bool.and_eq_true_iff.mp h
      exact (avoids_of_isClear hm).append (ih hrest)
    | shown t => exact (avoids_escapeShown hword t).append (ih h)

/-- What holds of all that a part writes holds of it if the part is written under a condition. -/
lemma all_written_when {p : Text → Bool} {fs : List Fragment} (b : Bool)
    (h : (Fragment.written fs).all p = true) : (Fragment.written (Fragment.when b fs)).all p = true := by
  cases b with
  | false => rfl
  | true => exact h

end Avoids

/-- Finds what stands behind an opening mark, up to the next closing mark. -/
def enclosed (opening closing : Text) : Finder Text := fun _ after =>
  (opening.isPrefixOf? after).bind fun rest =>
    (breakAt? closing rest).map fun (body, rest) => ⟨body, after.length - rest.length⟩

section Enclosed

variable {opening closing t body : Text}

lemma enclosed_local : (enclosed opening closing).Local := fun _ _ _ => rfl

lemma breakAt?_avoids (hne : closing ≠ []) (h : Avoids closing body) (rest : Text) :
    breakAt? closing (body ++ (closing ++ rest)) = some (body, rest) :=
  Template.breakAt?_append hne fun u v huv hv => h u v huv hv (closing ++ rest)

/-- Nothing is found before the opening mark. -/
lemma findAll_enclosed_avoids (h : Avoids opening t) (rest : Text) :
    findAll (enclosed opening closing) (t ++ rest) = findAll (enclosed opening closing) rest := by
  refine findAll_plain enclosed_local t rest fun u v huv hv => ?_
  rw [enclosed, Option.bind_eq_none_iff]
  intro more hmore
  rw [List.isPrefixOf?_eq_some_iff_append_eq] at hmore
  exact absurd ⟨more, hmore⟩ (h u v huv hv rest)

lemma findAll_enclosed_eq_nil (h : Avoids opening t) : findAll (enclosed opening closing) t = [] := by
  have hall : findAll (enclosed opening closing) (t ++ []) = [] := findAll_enclosed_avoids h []
  rwa [List.append_nil] at hall

/-- Text without the closing mark is found between the marks. -/
lemma findAll_enclosed (hopening : opening ≠ []) (hclosing : closing ≠ []) (h : Avoids closing body)
    (rest : Text) : findAll (enclosed opening closing) (opening ++ (body ++ (closing ++ rest))) =
      body :: findAll (enclosed opening closing) rest := by
  have hbegins : opening.isPrefixOf? (opening ++ (body ++ (closing ++ rest))) =
      some (body ++ (closing ++ rest)) := List.isPrefixOf?_eq_some_iff_append_eq.mpr rfl
  have hfound : enclosed opening closing [] (opening ++ (body ++ (closing ++ rest))) =
      some ⟨body, (opening ++ (body ++ closing)).length⟩ := by
    rw [enclosed, hbegins, Option.bind_some, breakAt?_avoids hclosing h, Option.map_some]
    simp only [List.length_append]
    congr 2
    omega
  have hne : opening ++ (body ++ closing) ≠ [] := List.append_ne_nil_of_left_ne_nil hopening _
  rw [← List.append_assoc body, ← List.append_assoc opening] at hfound ⊢
  exact findAll_hit enclosed_local hfound rfl hne

end Enclosed

end Text

end Sitewright
