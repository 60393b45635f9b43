import Sitewright.Child
import Sitewright.Proofs.Hypermedia
import Sitewright.Proofs.RegionLocal

/-!
Lines of a listing of child pages. Its markup has no line that closes a raw fence; what it shows of the
pages is escaped, but keeps its lines.
-/
namespace Sitewright

open Text (Escapes breakAtLine isSpaceTab)

/-- A line that closes a raw fence, without its end. -/
def closingWord (blanks : Text) : Text := ":::".toList ++ (blanks ++ ['\n'])

/-- A line of the text, but neither the first nor the last one, closes a raw fence. -/
def HoldsClose (t : Text) : Prop :=
  ∃ blanks, (∀ c ∈ blanks, isSpaceTab c = true) ∧ '\n' :: closingWord blanks <:+: t

/-- A text of one line has no closing line within. -/
lemma not_holdsClose_of_line {t : Text} (h : '\n' ∉ t) : ¬ HoldsClose t :=
  fun ⟨_, _, hin⟩ => h (hin.subset List.mem_cons_self)

/-- The characters that a closing line is made of. -/
def isClosing (c : Char) : Bool := c = '\n' || c = ':' || isSpaceTab c

/-- Nothing that a closing line is made of is escaped. -/
lemma escapeShown_of_isClosing {w : Text} (hw : ∀ c ∈ w, isClosing c = true) : Text.escapeShown w = w := by
  have hcopied : ∀ c, isClosing c = true → Text.escapeShown [c] = [c] := by
    intro c hc
    have hne : ∀ d, isClosing d = false → c ≠ d := fun d hd heq => by rw [heq, hd] at hc; cases hc
    rw [Text.escapeShown, List.flatMap_singleton, if_neg (hne '&' rfl), if_neg (hne '<' rfl),
      if_neg (hne '>' rfl), if_neg (hne '"' rfl), if_neg (hne '\'' rfl)]
  induction w with
  | nil => rfl
  | cons c w ih =>
    have happend : Text.escapeShown (c :: w) = Text.escapeShown [c] ++ Text.escapeShown w :=
      @List.flatMap_append _ _ [c] w _
    rw [happend, hcopied c (hw c List.mem_cons_self), ih fun d hd => hw d (List.mem_cons_of_mem _ hd)]
    rfl

section Word

variable {blanks : Text} (hblanks : ∀ c ∈ blanks, isSpaceTab c = true)
include hblanks

lemma isClosing_of_mem {c : Char} (hc : c ∈ '\n' :: closingWord blanks) : isClosing c = true := by
  simp only [closingWord, List.mem_cons, List.mem_append, List.not_mem_nil, or_false] at hc
  rcases hc with rfl | hc | hc | rfl
  · rfl
  · exact Text.forall_of_all (p := fun c => isClosing c = true) (by decide) c hc
  · simp [isClosing, hblanks c hc]
  · rfl

/-- Escaping neither makes closing lines nor takes them away. -/
lemma closing_infix_escapeShown {t : Text} :
    '\n' :: closingWord blanks <:+: Text.escapeShown t ↔ '\n' :: closingWord blanks <:+: t := by
  have hentity : ∀ e : Text, '\n' ∉ e → e.head? = some '&' → e.getLast? = some ';' →
      ¬ '\n' :: closingWord blanks <:+: e ∧ (∃ d, e.head? = some d ∧ d ∉ '\n' :: closingWord blanks) ∧
        ∃ d, e.getLast? = some d ∧ d ∉ '\n' :: closingWord blanks := by
    intro e hfeed hhead hlast
    refine ⟨fun h => hfeed (h.subset List.mem_cons_self), ⟨'&', hhead, fun h => ?_⟩, ';', hlast, fun h => ?_⟩
    · exact absurd (isClosing_of_mem hblanks h) (by decide)
    · exact absurd (isClosing_of_mem hblanks h) (by decide)
  constructor
  · refine Text.infix_of_infix_flatMap fun c => ?_
    repeat' split
    · exact .inr (hentity _ (by decide) rfl rfl)
    · exact .inr (hentity _ (by decide) rfl rfl)
    · exact .inr (hentity _ (by decide) rfl rfl)
    · exact .inr (hentity _ (by decide) rfl rfl)
    · exact .inr (hentity _ (by decide) rfl rfl)
    · exact .inl rfl
  · rintro ⟨a, b, rfl⟩
    refine ⟨Text.escapeShown a, Text.escapeShown b, ?_⟩
    conv_lhs => rw [← escapeShown_of_isClosing fun c => isClosing_of_mem hblanks]
    simp only [Text.escapeShown, List.flatMap_append]

/-- A closing line closes a fence. -/
lemma rawClose?_closingWord (b : Text) :
    Region.rawClose? (closingWord blanks ++ b) = some (":::".toList ++ blanks) :=
  Region.rawClose?_eq_some.mpr ⟨blanks, '\n' :: b, rfl,
    by simp only [closingWord, List.append_assoc, List.singleton_append], hblanks, rfl⟩

end Word

namespace Fragment

/-- No line of the text starts with a colon. -/
def solid : Bool → Text → Bool
  | _, [] => true
  | fresh, c :: cs => !(fresh && c = ':') && solid (c = '\n') cs

/-- Does a line start behind the text? -/
def freshAfter : Bool → Text → Bool
  | fresh, [] => fresh
  | _, c :: cs => freshAfter (c = '\n') cs

/-- Markup whose lines do not start with colons, and values within its lines. -/
def tidy : Bool → List Fragment → Bool
  | _, [] => true
  | fresh, .markup m :: fs => solid fresh m && tidy (freshAfter fresh m) fs
  | fresh, .shown _ :: .markup (d :: m) :: fs =>
    !fresh && !isClosing d && (solid false (d :: m) && tidy (freshAfter false (d :: m)) fs)
  | _, _ => false

/-- A closing line stands in the text, or at its start if a line starts there. -/
def Closes (blanks : Text) (fresh : Bool) (t : Text) : Prop :=
  '\n' :: closingWord blanks <:+: t ∨ fresh = true ∧ closingWord blanks <+: t

variable {blanks : Text}

lemma closes_cons {fresh : Bool} {c : Char} {t : Text} (h : (fresh && c = ':') = false) :
    Closes blanks fresh (c :: t) ↔ Closes blanks (c = '\n') t := by
  have hstart : ¬ (fresh = true ∧ closingWord blanks <+: c :: t) := by
    rintro ⟨rfl, hprefix⟩
    obtain ⟨rfl, -⟩ := List.cons_prefix_cons.mp hprefix
    cases h
  rw [Closes, Closes, or_iff_left hstart, List.infix_cons_iff, List.cons_prefix_cons, or_comm,
    decide_eq_true_eq, @eq_comm _ '\n']

lemma closes_solid {fresh : Bool} {m : Text} (h : solid fresh m = true) (rest : Text) :
    Closes blanks fresh (m ++ rest) ↔ Closes blanks (freshAfter fresh m) rest := by
  induction m generalizing fresh with
  | nil => rfl
  | cons c cs ih =>
    rw [solid, Bool.and_eq_true, Bool.not_eq_true'] at h
    rw [List.cons_append, closes_cons h.1, freshAfter]
    exact ih h.2

/-- A closing line in a row of tidy fragments stands in what one of them shows. -/
lemma closes_render (hblanks : ∀ c ∈ blanks, isSpaceTab c = true) {fresh : Bool} {fs : List Fragment}
    (h : tidy fresh fs = true) :
    Closes blanks fresh (render fs) ↔ ∃ t, .shown t ∈ fs ∧ '\n' :: closingWord blanks <:+: t := by
  fun_induction tidy fresh fs with
  | case1 => simp [Closes, render, closingWord]
  | case2 fresh m fs ih =>
    rw [Bool.and_eq_true] at h
    rw [show render (.markup m :: fs) = m ++ render fs from rfl, closes_solid h.1, ih h.2]
    simp
  | case3 fresh t d m fs ih =>
    simp only [Bool.and_eq_true, Bool.not_eq_true'] at h
    obtain ⟨⟨rfl, hd⟩, hm, hfs⟩ := h
    have hne : d ∉ '\n' :: closingWord blanks := by
      intro hmem
      rw [isClosing_of_mem hblanks hmem] at hd
      cases hd
    have hrow : render (.shown t :: .markup (d :: m) :: fs) =
        Text.escapeShown t ++ (d :: m ++ render fs) := rfl
    have hsplit : Closes blanks false (Text.escapeShown t ++ (d :: m ++ render fs)) ↔
        '\n' :: closingWord blanks <:+: t ∨ Closes blanks false (d :: m ++ render fs) := by
      simp only [Closes, Bool.false_eq_true, false_and, or_false]
      rw [← closing_infix_escapeShown hblanks (t := t)]
      constructor
      · intro h
        exact (Text.infix_append_cons hne h).imp_right fun h => h.trans (List.suffix_cons d _).isInfix
      · rintro (h | h)
        · exact h.trans (List.prefix_append _ _).isInfix
        · exact h.trans (List.suffix_append _ _).isInfix
    rw [hrow, hsplit, closes_solid hm, ih hfs]
    simp
  | case4 => cases h

/-- A text that ends in the middle of a line has a line that closes a raw fence just where a closing line
stands in it. -/
lemma breakAtLine_eq_none_iff {t : Text} {d : Char} (hlast : t.getLast? = some d) (hd : isClosing d = false) :
    breakAtLine Region.rawClose? true t = none ↔
      ∀ blanks, (∀ c ∈ blanks, isSpaceTab c = true) → ¬ Closes blanks true t := by
  rw [Text.breakAtLine_eq_none]
  constructor
  · intro h blanks hblanks hcloses
    have hclose : ∀ b, Region.rawClose? (closingWord blanks ++ b) ≠ none := by
      intro b
      rw [rawClose?_closingWord hblanks]
      exact Option.some_ne_none _
    rcases hcloses with ⟨a, b, hab⟩ | ⟨-, b, hb⟩
    · refine hclose b (h (a ++ ['\n']) (closingWord blanks ++ b) ?_ (.inr ⟨a, rfl⟩))
      rw [← hab]
      simp only [List.append_assoc, List.cons_append, List.nil_append]
    · exact hclose b (h [] _ hb.symm (.inl ⟨rfl, rfl⟩))
  · intro h u v huv hu
    cases hv : Region.rawClose? v with
    | none => rfl
    | some closing =>
      obtain ⟨blanks, rest, rfl, rfl, hblanks, hend⟩ := Region.rawClose?_eq_some.mp hv
      cases rest with
      | nil =>
        have hmem : d ∈ ":::".toList ++ blanks := by
          rw [huv, List.append_nil, List.getLast?_append_of_ne_nil _ (by simp)] at hlast
          exact List.mem_of_getLast? hlast
        have hclosing := isClosing_of_mem hblanks (c := d) <| List.mem_cons_of_mem _ <| by
          rw [closingWord, ← List.append_assoc]
          exact List.mem_append_left _ hmem
        rw [hd] at hclosing
        cases hclosing
      | cons c rest =>
        obtain rfl : c = '\n' := of_decide_eq_true hend
        have hword : ":::".toList ++ blanks ++ '\n' :: rest = closingWord blanks ++ rest := by
          simp only [closingWord, List.append_assoc, List.singleton_append]
        refine absurd ?_ (h blanks hblanks)
        rw [huv, hword]
        rcases hu with ⟨rfl, -⟩ | ⟨w, rfl⟩
        · exact .inr ⟨rfl, List.prefix_append _ _⟩
        · exact .inl ⟨w, rest, by simp only [List.append_assoc, List.cons_append, List.nil_append]⟩

end Fragment

namespace Child

/-- A child as its component gets it. -/
def listed (c : Child) : Component.ListedChild where
  url := c.url
  title := c.title
  about := c.about
  description := c.description

/-- The listing of children that the library's own component makes. -/
def markup (children : List Child) : Text :=
  Fragment.render (Component.childrenListing (children.map listed))

lemma listedChild_item (c : Child) : Component.listedChild c.item = c.listed := by
  have htrue : ∀ t : Text, Component.textIfTrue (some (.text t)) = t := by
    intro t
    cases t <;> rfl
  have habout : Component.textFieldIfTrue c.item "meta" = c.about := htrue c.about
  have hdescription : Component.textFieldIfTrue c.item "description" = c.description := htrue c.description
  rw [Component.listedChild, habout, hdescription]
  rfl

lemma listing_builtin (children : List Child) :
    listing Component.builtin children = .ok (markup children) := by
  have hrender : listing Component.builtin children =
      .ok (Fragment.render (Component.childrenListing ((children.map item).map Component.listedChild))) := rfl
  have hlisted : (children.map item).map Component.listedChild = children.map listed := by
    rw [List.map_map]
    exact List.map_congr_left fun c _ => listedChild_item c
  rw [hrender, hlisted, markup]

/-- What a listing shows of a child. -/
def shownTexts (c : Child) : List Text := [c.url, c.title, c.about, c.description]

lemma tidy_fragments (c : Component.ListedChild) (fs : List Fragment) :
    Fragment.tidy true (c.fragments ++ fs) = Fragment.tidy true fs := by
  obtain ⟨url, title, about, description⟩ := c
  cases about <;> cases description <;> rfl

lemma tidy_childrenListing (cs : List Component.ListedChild) :
    Fragment.tidy true (Component.childrenListing cs) = true := by
  have hitems : ∀ cs : List Component.ListedChild, Fragment.tidy true
      (cs.flatMap Component.ListedChild.fragments ++ [Fragment.tags "</ul>"]) = true := by
    intro cs
    induction cs with
    | nil => rfl
    | cons c cs ih => rw [List.flatMap_cons, List.append_assoc, tidy_fragments, ih]
  have hopen : ∀ fs, Fragment.tidy true ([Fragment.tags "<ul class=\"children-list space-y-6\">\n"] ++ fs) =
      Fragment.tidy true fs := fun fs => rfl
  rw [Component.childrenListing, List.append_assoc, hopen]
  cases cs with
  | nil => rfl
  | cons c cs => exact hitems (c :: cs)

lemma shown_ne_tags (t : Text) (s : String) : Fragment.shown t ≠ Fragment.tags s := fun h => by cases h

lemma shown_mem_childrenListing {t : Text} {cs : List Component.ListedChild} :
    .shown t ∈ Component.childrenListing cs ↔ ∃ c ∈ cs, .shown t ∈ c.fragments := by
  cases cs with
  | nil => simp [Component.childrenListing, shown_ne_tags]
  | cons c cs => simp [Component.childrenListing, shown_ne_tags]

lemma shown_mem_fragments {c : Child} {t : Text} (ht : t ≠ []) :
    .shown t ∈ c.listed.fragments ↔ t ∈ c.shownTexts := by
  have hempty : ∀ u : Text, u.isEmpty = true → t ≠ u :=
    fun u hu heq => ht (heq.trans (List.isEmpty_iff.mp hu))
  cases habout : c.about.isEmpty <;> cases hdescription : c.description.isEmpty <;>
    simp [Component.ListedChild.fragments, Fragment.when, shown_ne_tags, listed, shownTexts, *]

/-- A listing has a line that closes a raw fence exactly when a text that it shows has one within. -/
theorem markup_breaks_iff (children : List Child) :
    breakAtLine Region.rawClose? true (markup children) = none ↔
      ∀ c ∈ children, ∀ t ∈ c.shownTexts, ¬ HoldsClose t := by
  have hlast : (markup children).getLast? = some '>' := by
    have hend : markup children = Fragment.render (Component.childrenListing (children.map listed)) := rfl
    rw [Component.childrenListing, Fragment.render, List.flatMap_append] at hend
    rw [hend]
    exact List.getLast?_append_of_ne_nil _ (List.cons_ne_nil '<' _)
  rw [Fragment.breakAtLine_eq_none_iff hlast rfl]
  have hcloses : ∀ blanks, (∀ c ∈ blanks, isSpaceTab c = true) → (Fragment.Closes blanks true (markup children) ↔
      ∃ c ∈ children, ∃ t ∈ c.shownTexts, '\n' :: closingWord blanks <:+: t) := by
    intro blanks hblanks
    rw [markup, Fragment.closes_render hblanks (tidy_childrenListing _)]
    constructor
    · rintro ⟨t, ht, hin⟩
      obtain ⟨_, hlisted, ht⟩ := shown_mem_childrenListing.mp ht
      obtain ⟨c, hc, rfl⟩ := List.mem_map.mp hlisted
      have hne : t ≠ [] := fun hnil => by rw [hnil] at hin; exact absurd (List.infix_nil.mp hin) (by simp)
      exact ⟨c, hc, t, (shown_mem_fragments hne).mp ht, hin⟩
    · rintro ⟨c, hc, t, ht, hin⟩
      have hne : t ≠ [] := fun hnil => by rw [hnil] at hin; exact absurd (List.infix_nil.mp hin) (by simp)
      exact ⟨t, shown_mem_childrenListing.mpr ⟨_, List.mem_map_of_mem hc, (shown_mem_fragments hne).mpr ht⟩, hin⟩
  constructor
  · rintro h c hc t ht ⟨blanks, hblanks, hin⟩
    exact h blanks hblanks ((hcloses blanks hblanks).mpr ⟨c, hc, t, ht, hin⟩)
  · intro h blanks hblanks hline
    obtain ⟨c, hc, t, ht, hin⟩ := (hcloses blanks hblanks).mp hline
    exact h c hc t ht ⟨blanks, hblanks, hin⟩

end Child

end Sitewright
