import Sitewright.Proofs.Link
import Sitewright.Proofs.Rewriting
import Sitewright.Proofs.Splitting
import Sitewright.Proofs.Token

/-!
What the HTML of a hypermedia link is made of: its own words, and the text, the address and the
attributes of the link, with some characters escaped.
-/
namespace Sitewright

namespace Text

section Escape

variable {x : Text} {f : Char → Text}

/-- A character is copied, or becomes an entity that a word does not overlap. -/
def Escapes (x : Text) (f : Char → Text) : Prop :=
  ∀ c, f c = [c] ∨ ¬ x <:+: f c ∧ (∃ d, (f c).head? = some d ∧ d ∉ x) ∧
    ∃ d, (f c).getLast? = some d ∧ d ∉ x

lemma prefix_of_prefix_flatMap (hf : Escapes x f) {p t : Text} (hp : ∀ c ∈ p, c ∈ x)
    (h : p <+: t.flatMap f) : p <+: t := by
  induction t generalizing p with
  | nil => exact h
  | cons c cs ih =>
    cases p with
    | nil => exact List.nil_prefix
    | cons d p =>
      rw [List.flatMap_cons] at h
      rcases hf c with hc | ⟨-, ⟨e, hhead, he⟩, -⟩
      · rw [hc, List.singleton_append] at h
        obtain ⟨rfl, hrest⟩ := List.cons_prefix_cons.mp h
        exact List.cons_prefix_cons.mpr ⟨rfl, ih (fun e he => hp e (List.mem_cons_of_mem _ he)) hrest⟩
      · obtain ⟨es, hentity⟩ := List.head?_eq_some_iff.mp hhead
        rw [hentity] at h
        obtain ⟨rfl, -⟩ := List.cons_prefix_cons.mp h
        exact absurd (hp d List.mem_cons_self) he

/-- A word in an escaped text that overlaps no entity was in the text. -/
lemma infix_of_infix_flatMap (hf : Escapes x f) {t : Text} (h : x <:+: t.flatMap f) :
    x <:+: t := by
  induction t with
  | nil => exact h
  | cons c cs ih =>
    rw [List.flatMap_cons] at h
    rcases hf c with hc | ⟨hin, ⟨d, hhead, hd⟩, e, hlast, he⟩
    · rw [hc, List.singleton_append] at h
      rcases List.infix_cons_iff.mp h with hstart | hrest
      · refine (prefix_of_prefix_flatMap hf (fun _ h => h) (t := c :: cs) ?_).isInfix
        rwa [List.flatMap_cons, hc, List.singleton_append]
      · exact (ih hrest).trans (List.suffix_cons c cs).isInfix
    · have hapart : Apart x [] (f c) (cs.flatMap f) := apart_of_ends hin hhead hlast hd he
      exact (ih (hapart.infix_behind h)).trans (List.suffix_cons c cs).isInfix

end Escape

section Finding

variable {α : Type} {find : Finder α}

lemma mem_findAllFrom {before plain : Text} {n : ℕ} {t : Text} {v : α}
    (h : .found v ∈ piecesFrom find before plain n t) :
    ∃ before' s hit, s <:+ t ∧ find before' s = some hit ∧ hit.value = v := by
  fun_induction piecesFrom find before plain n t with
  | case1 => simp at h
  | case2 before plain n c cs ih =>
    obtain ⟨before', s, hit, hs, hfound⟩ := ih h
    exact ⟨before', s, hit, hs.trans (List.suffix_cons c cs), hfound⟩
  | case3 before plain c cs hit hfind ih =>
    simp only [List.mem_cons, reduceCtorEq, false_or, Piece.found.injEq] at h
    rcases h with rfl | h
    · exact ⟨before, c :: cs, hit, List.suffix_rfl, hfind, rfl⟩
    · obtain ⟨before', s, hit', hs, hfound⟩ := ih h
      exact ⟨before', s, hit', hs.trans (List.suffix_cons c cs), hfound⟩
  | case4 before plain c cs hfind ih =>
    obtain ⟨before', s, hit, hs, hfound⟩ := ih h
    exact ⟨before', s, hit, hs.trans (List.suffix_cons c cs), hfound⟩

/-- What is found in a text is found at one of its places. -/
lemma mem_findAll {t : Text} {v : α} (h : v ∈ findAll find t) :
    ∃ before s hit, s <:+ t ∧ find before s = some hit ∧ hit.value = v := by
  obtain ⟨p, hp, hv⟩ := List.mem_filterMap.mp h
  cases p with
  | plain t => cases hv
  | found w =>
    obtain rfl := Option.some.inj hv
    exact mem_findAllFrom hp

end Finding

end Text

namespace Hypermedia
open Text (spanWhile spanWhile_eq)

section Attributes

lemma valueAfterEquals?_some {t value : Text} {size : ℕ}
    (h : valueAfterEquals? t = some (value, size)) : value <:+: t := by
  have hbare : ∀ {t : Text}, (if (t.takeWhile fun c => !Text.isBlank c).isEmpty then none
      else some (t.takeWhile fun c => !Text.isBlank c, (t.takeWhile fun c => !Text.isBlank c).length)) =
        some (value, size) → value <:+: t := by
    intro t h
    split at h
    · cases h
    · obtain ⟨rfl, -⟩ := Prod.mk.inj (Option.some.inj h)
      exact (List.takeWhile_prefix _).isInfix
  unfold valueAfterEquals? at h
  dsimp only at h
  split at h
  · rename_i rest
    split at h
    · rename_i quoted more hspan
      obtain ⟨rfl, -⟩ := spanWhile_eq hspan
      obtain ⟨rfl, -⟩ := Prod.mk.inj (Option.some.inj h)
      exact (List.prefix_append quoted _).isInfix.trans (List.suffix_cons _ _).isInfix
    · exact hbare h
  · exact hbare h

/-- The key and the value of an attribute stand in its block. -/
lemma mem_attributes {block : Text} {a : Attribute} (h : a ∈ attributes block) :
    a.key <:+: block ∧ ∀ value ∈ a.value, value <:+: block := by
  obtain ⟨before, s, hit, hs, hfind, rfl⟩ := Text.mem_findAll h
  suffices hin : hit.value.key <:+: s ∧ ∀ value ∈ hit.value.value, value <:+: s from
    ⟨hin.1.trans hs.isInfix, fun value hvalue => (hin.2 value hvalue).trans hs.isInfix⟩
  unfold findAttribute at hfind
  split at hfind
  · cases hfind
  · rename_i key rest _ hspan
    obtain ⟨rfl, -⟩ := spanWhile_eq hspan
    have hkey : key <:+: key ++ '=' :: rest := (List.prefix_append _ _).isInfix
    split at hfind
    · rename_i value size hvalue
      obtain rfl := Option.some.inj hfind
      refine ⟨hkey, fun value' hvalue' => ?_⟩
      obtain rfl := Option.some.inj hvalue'
      exact ((valueAfterEquals?_some hvalue).trans (List.suffix_cons _ _).isInfix).trans
        (List.suffix_append _ _).isInfix
    · obtain rfl := Option.some.inj hfind
      exact ⟨hkey, fun value' hvalue' => by cases hvalue'⟩
  · rename_i key rest _ _ hspan
    obtain ⟨rfl, -⟩ := spanWhile_eq hspan
    obtain rfl := Option.some.inj hfind
    exact ⟨(List.prefix_append _ _).isInfix, fun value' hvalue' => by cases hvalue'⟩

end Attributes

section Signs
open RawTable (signs not_mem_sign not_infix_of_not_lead not_sign_infix_of_not_mem)

variable {sign : Text} (h : sign ∈ signs)
include h

/-- No entity overlaps a sign of a placeholder. -/
lemma escapes_sign {entity : Text} (hhead : entity.head? = some '&') (hlast : entity.getLast? = some ';')
    (hf : 'f' ∉ entity) : ¬ sign <:+: entity ∧ (∃ d, entity.head? = some d ∧ d ∉ sign) ∧
      ∃ d, entity.getLast? = some d ∧ d ∉ sign :=
  ⟨not_sign_infix_of_not_mem h hf, ⟨'&', hhead, not_mem_sign h (by decide)⟩,
    ';', hlast, not_mem_sign h (by decide)⟩

lemma sign_infix_of_escapeText {t : Text} (hin : sign <:+: Text.escapeText t) : sign <:+: t := by
  refine Text.infix_of_infix_flatMap (fun c => ?_) hin
  split_ifs
  · exact .inr (escapes_sign h rfl rfl (by decide))
  · exact .inr (escapes_sign h rfl rfl (by decide))
  · exact .inr (escapes_sign h rfl rfl (by decide))
  · exact .inl rfl

lemma sign_infix_of_escapeAttribute {t : Text} (hin : sign <:+: Text.escapeAttribute t) : sign <:+: t := by
  refine Text.infix_of_infix_flatMap (fun c => ?_) hin
  split_ifs
  · exact .inr (escapes_sign h rfl rfl (by decide))
  · exact .inr (escapes_sign h rfl rfl (by decide))
  · exact .inr (escapes_sign h rfl rfl (by decide))
  · exact .inr (escapes_sign h rfl rfl (by decide))
  · exact .inr (escapes_sign h rfl rfl (by decide))
  · exact .inl rfl

lemma sign_infix_of_quoted {name value : Text} (hin : sign <:+: quoted name value) :
    sign <:+: name ∨ sign <:+: value := by
  have hquoted : quoted name value =
      name ++ '=' :: ([] ++ '"' :: (Text.escapeAttribute value ++ '"' :: [])) := by
    simp [quoted]
  rw [hquoted] at hin
  rcases Text.infix_append_cons (not_mem_sign h (by decide)) hin with hin | hin
  · exact .inl hin
  · rcases Text.infix_append_cons (not_mem_sign h (by decide)) hin with hin | hin
    · exact absurd hin (not_sign_infix_of_not_mem h (by decide))
    · rcases Text.infix_append_cons (not_mem_sign h (by decide)) hin with hin | hin
      · exact .inr (sign_infix_of_escapeAttribute h hin)
      · exact absurd hin (not_sign_infix_of_not_mem h (by decide))

lemma sign_infix_of_writeAttribute? {url : Text} {a : Attribute} {w : Text}
    (hw : writeAttribute? url a = some w) (hin : sign <:+: w) :
    sign <:+: url ∨ sign <:+: a.key ∨ ∃ value ∈ a.value, sign <:+: value := by
  have hnames : ∀ key ∈ hypermediaKeys, ¬ "flint".toList <:+: "hx-".toList ++ key := by
    decide +kernel
  unfold writeAttribute? at hw
  split at hw
  · rename_i hkey
    obtain rfl := Option.some.inj hw
    rcases sign_infix_of_quoted h hin with hin | hin
    · exact absurd hin (not_infix_of_not_lead h (hnames a.key (by simpa using hkey)))
    · cases hvalue : a.value with
      | some value =>
        rw [hvalue] at hin
        exact .inr (.inr ⟨value, rfl, hin⟩)
      | none =>
        rw [hvalue, Option.getD_none] at hin
        split at hin
        · exact .inl hin
        · exact absurd hin (not_sign_infix_of_not_mem h (by decide))
  · split at hw
    · cases hvalue : a.value with
      | some value =>
        rw [hvalue] at hw
        obtain rfl := Option.some.inj hw
        rcases sign_infix_of_quoted h hin with hin | hin
        · exact .inr (.inl hin)
        · exact .inr (.inr ⟨value, rfl, hin⟩)
      | none =>
        rw [hvalue] at hw
        obtain rfl := Option.some.inj hw
        exact .inr (.inl hin)
    · cases hw

lemma sign_infix_of_leadAttributes {url w : Text} {keys : List Text} (hw : w ∈ leadAttributes url keys)
    (hin : sign <:+: w) : sign <:+: url := by
  have hquoted : ∀ name : Text, ¬ "flint".toList <:+: name → sign <:+: quoted name url → sign <:+: url :=
    fun name hname hin => (sign_infix_of_quoted h hin).resolve_left (not_infix_of_not_lead h hname)
  unfold leadAttributes at hw
  split at hw
  · rcases List.mem_cons.mp hw with rfl | hw
    · exact absurd hin (not_sign_infix_of_not_mem h (by decide))
    · split at hw
      · cases hw
      · obtain rfl := List.mem_singleton.mp hw
        exact hquoted _ (by decide) hin
  · obtain rfl := List.mem_singleton.mp hw
    exact hquoted _ (by decide) hin

/-- The HTML of a link holds no sign of a placeholder that the link does not hold. -/
lemma sign_infix_of_render {text url block : Text} (hin : sign <:+: render text url block) :
    sign <:+: text ∨ sign <:+: url ∨ sign <:+: block := by
  obtain ⟨tag, htag⟩ : ∃ tag, tag = (if ((attributes block).map (·.key)).any controlKeys.contains then
    "button" else "a").toList := ⟨_, rfl⟩
  have hnot : ¬ sign <:+: tag := by
    refine not_sign_infix_of_not_mem h ?_
    rw [htag]
    split <;> decide
  have hrender : render text url block = [] ++ '<' :: (tag ++ ' ' ::
      (Text.join [' '] (leadAttributes url ((attributes block).map (·.key)) ++
        (attributes block).filterMap (writeAttribute? url)) ++
      '>' :: (Text.escapeText text ++ '<' :: ([] ++ '/' :: (tag ++ '>' :: []))))) := by
    rw [render, ← htag]
    simp
  have hempty : ¬ sign <:+: [] := not_sign_infix_of_not_mem h (by decide)
  rw [hrender] at hin
  replace hin := (Text.infix_append_cons (not_mem_sign h (by decide)) hin).resolve_left hempty
  replace hin := (Text.infix_append_cons (not_mem_sign h (by decide)) hin).resolve_left hnot
  rcases Text.infix_append_cons (not_mem_sign h (by decide)) hin with hin | hin
  · obtain ⟨w, hw, hin⟩ := Text.exists_infix_of_join (RawTable.sign_ne_nil h)
      (not_mem_sign h (by decide)) hin
    rcases List.mem_append.mp hw with hw | hw
    · exact .inr (.inl (sign_infix_of_leadAttributes h hw hin))
    · obtain ⟨a, ha, hw⟩ := List.mem_filterMap.mp hw
      obtain ⟨hkey, hvalue⟩ := mem_attributes ha
      rcases sign_infix_of_writeAttribute? h hw hin with hin | hin | ⟨value, hmem, hin⟩
      · exact .inr (.inl hin)
      · exact .inr (.inr (hin.trans hkey))
      · exact .inr (.inr (hin.trans (hvalue value hmem)))
  · rcases Text.infix_append_cons (not_mem_sign h (by decide)) hin with hin | hin
    · exact .inl (sign_infix_of_escapeText h hin)
    · replace hin := (Text.infix_append_cons (not_mem_sign h (by decide)) hin).resolve_left hempty
      rcases Text.infix_append_cons (not_mem_sign h (by decide)) hin with hin | hin
      · exact absurd hin hnot
      · exact absurd hin hempty

lemma sign_infix_of_html {l : Link} (hin : sign <:+: l.html) : sign <:+: l.source := by
  rcases sign_infix_of_render h hin with hin | hin | hin
  · exact hin.trans ⟨['['], "](".toList ++ l.url ++ ")\x7b".toList ++ l.block ++ "\x7d".toList,
      by simp [Link.source]⟩
  · exact hin.trans ⟨'[' :: l.text ++ "](".toList, ")\x7b".toList ++ l.block ++ "\x7d".toList,
      by simp [Link.source]⟩
  · exact hin.trans ⟨'[' :: l.text ++ "](".toList ++ l.url ++ ")\x7b".toList, "\x7d".toList, rfl⟩

end Signs

end Hypermedia
end Sitewright
