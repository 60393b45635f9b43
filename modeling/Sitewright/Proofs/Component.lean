import Mathlib.Data.List.Forall2
import Sitewright.Component.Registry
import Sitewright.Proofs.Association

/-!
What the markup of a component depends on. Values are shown with their special characters escaped, and
whether a part is written at all depends on the shape of the props only: which flags are set, which
texts are empty, how long the lists are.
-/
namespace Sitewright

/-- The characters that tags and quoted attributes are made with, in the order in which they stand. -/
def markupSigns (t : Text) : List Char := t.filter (['<', '>', '"', '\''].contains ·)

@[simp] lemma markupSigns_append (s t : Text) : markupSigns (s ++ t) = markupSigns s ++ markupSigns t :=
  List.filter_append ..

/-- What is shown of a value has no such character. -/
@[simp] lemma markupSigns_escapeShown (t : Text) : markupSigns (Text.escapeShown t) = [] := by
  induction t with
  | nil => rfl
  | cons c cs ih =>
    rw [Text.escapeShown, List.flatMap_cons, markupSigns_append, ← Text.escapeShown, ih, List.append_nil]
    repeat' split
    all_goals first | decide | simp_all [markupSigns]

namespace Fragment

/-- What the site itself writes among the fragments. -/
def written : List Fragment → List Text
  | [] => []
  | markup t :: fs => t :: written fs
  | shown _ :: fs => written fs

@[simp] lemma written_append (fs gs : List Fragment) : written (fs ++ gs) = written fs ++ written gs := by
  induction fs with
  | nil => rfl
  | cons f fs ih => cases f <;> simp [written, ih]

@[simp] lemma written_when (b : Bool) (fs : List Fragment) :
    written (when b fs) = if b then written fs else [] := by cases b <;> rfl

/-- Parts in a row that correspond in what the site writes. -/
lemma written_flatMap {α : Type} {f g : α → List Fragment} {xs ys : List α}
    (h : List.Forall₂ (fun x y => written (f x) = written (g y)) xs ys) :
    written (xs.flatMap f) = written (ys.flatMap g) := by
  induction h with
  | nil => rfl
  | cons hxy _ ih => simp only [List.flatMap_cons, written_append, hxy, ih]

/-- Parts in a row in which the site always writes the same. -/
lemma written_flatMap_of_length {α : Type} {f : α → List Fragment} {xs ys : List α}
    (hlength : xs.length = ys.length) (hsame : ∀ x y, written (f x) = written (f y)) :
    written (xs.flatMap f) = written (ys.flatMap f) :=
  written_flatMap (List.forall₂_iff_get.mpr ⟨hlength, fun _ _ _ => hsame _ _⟩)

/-- The special characters of rendered fragments stand in what the site itself writes. -/
lemma markupSigns_render (fs : List Fragment) :
    markupSigns (render fs) = (written fs).flatMap markupSigns := by
  induction fs with
  | nil => rfl
  | cons f fs ih =>
    rw [render, List.flatMap_cons, markupSigns_append, ← render, ih]
    cases f <;> simp [text, written]

end Fragment

namespace Value

/-- A value that counts as true shows something. -/
lemma shown_ne_nil {v : Value} (h : v.isTrue = true) : v.shown ≠ [] := by
  cases v with
  | text t => simpa [isTrue, shown] using h
  | int i => cases i <;> simp [shown, inner, Text.ofInt, Text.ofNat]
  | float x =>
    cases x with
    | finite s m e =>
      simp only [shown, inner, Binary64.text, Binary64.written]
      repeat' split
      all_goals simp
    | infinite s => cases s <;> simp [shown, inner, Binary64.text]
    | nan => simp [shown, inner, Binary64.text]
  | tuple items => rcases items with _ | ⟨v, _ | ⟨w, vs⟩⟩ <;> simp [shown, inner, bracketed]
  | set items => cases items <;> simp [shown, inner, bracketed]
  | bool b => cases b <;> simp [shown, inner]
  | _ => simp [shown, inner, Text.quotedBytes, Date.iso, Moment.text, bracketed]

end Value

namespace Component
open Fragment

@[simp] lemma isEmpty_textIfTrue (v : Option Value) : (textIfTrue v).isEmpty = !v.any Value.isTrue := by
  cases v with
  | none => rfl
  | some v =>
    by_cases h : v.isTrue = true
    · simp [textIfTrue, h, Value.shown_ne_nil h]
    · simp [textIfTrue, h]

section Markup

/-! What the site writes in the parts of each component. -/

lemma Head.written_fragments {h h' : Head} (hdescription : h.description.isEmpty = h'.description.isEmpty)
    (hkeywords : h.keywords.isEmpty = h'.keywords.isEmpty) (hstyles : h.styles.length = h'.styles.length)
    (hscripts : h.scripts.length = h'.scripts.length) : written h.fragments = written h'.fragments := by
  simp only [Head.fragments, written_append, written_when, hdescription, hkeywords]
  rw [written_flatMap_of_length hstyles, written_flatMap_of_length hscripts]
  · rfl
  · exact fun _ _ => rfl
  · exact fun _ _ => rfl

lemma NavLink.written_fragments {l l' : NavLink} (hactive : l.active = l'.active)
    (hboosted : l.boosted = l'.boosted) : written l.fragments = written l'.fragments := by
  simp only [NavLink.fragments, written_append, written_when, hactive, hboosted]
  rfl

lemma written_navigation {ls ls' : List NavLink}
    (h : List.Forall₂ (fun l l' => l.active = l'.active ∧ l.boosted = l'.boosted) ls ls') :
    written (navigation ls) = written (navigation ls') := by
  have hempty : ls.isEmpty = ls'.isEmpty := by cases h <;> rfl
  have hlinks : written (ls.flatMap NavLink.fragments) = written (ls'.flatMap NavLink.fragments) :=
    written_flatMap (h.imp fun _ _ hl => NavLink.written_fragments hl.1 hl.2)
  simp only [navigation, written_append, written_when, hempty, hlinks]

/-- The number of different labels decides about the markup of the site's labels. -/
lemma written_labelFooter {labels labels' : List Text}
    (h : labels.eraseDups.length = labels'.eraseDups.length) (basePath basePath' : Text) :
    written (labelFooter labels basePath) = written (labelFooter labels' basePath') := by
  have hempty : labels.isEmpty = labels'.isEmpty := by
    cases labels <;> cases labels' <;> simp [List.eraseDups_cons] at h ⊢
  have hsorted : (sortedLabels labels).length = (sortedLabels labels').length := by
    rw [sortedLabels, sortedLabels, List.length_mergeSort, List.length_mergeSort, h]
  have hlinks : written ((sortedLabels labels).flatMap (labelLink basePath)) =
      written ((sortedLabels labels').flatMap (labelLink basePath')) :=
    written_flatMap (List.forall₂_iff_get.mpr ⟨hsorted, fun _ _ _ => rfl⟩)
  simp only [labelFooter, written_append, written_when, hempty, hlinks]

lemma Listed.written_fragments {p p' : Listed} (hcategory : p.category.isEmpty = p'.category.isEmpty)
    (hdate : p.date.isEmpty = p'.date.isEmpty)
    (hdescription : p.description.isEmpty = p'.description.isEmpty) :
    written p.fragments = written p'.fragments := by
  simp only [Listed.fragments, written_append, written_when, hcategory, hdate, hdescription]
  rfl

lemma written_listingIndex {ps ps' : List Listed} (heading heading' : Text)
    (h : List.Forall₂ (fun p p' => p.category.isEmpty = p'.category.isEmpty ∧
      p.date.isEmpty = p'.date.isEmpty ∧ p.description.isEmpty = p'.description.isEmpty) ps ps') :
    written (listingIndex heading ps) = written (listingIndex heading' ps') := by
  have hpages : written (ps.flatMap Listed.fragments) = written (ps'.flatMap Listed.fragments) :=
    written_flatMap (h.imp fun _ _ hp => Listed.written_fragments hp.1 hp.2.1 hp.2.2)
  simp only [listingIndex, written_append, hpages]
  rfl

lemma ListedChild.written_fragments {c c' : ListedChild} (habout : c.about.isEmpty = c'.about.isEmpty)
    (hdescription : c.description.isEmpty = c'.description.isEmpty) :
    written c.fragments = written c'.fragments := by
  simp only [ListedChild.fragments, written_append, written_when, habout, hdescription]
  rfl

lemma written_childrenListing {cs cs' : List ListedChild}
    (h : List.Forall₂ (fun c c' => c.about.isEmpty = c'.about.isEmpty ∧
      c.description.isEmpty = c'.description.isEmpty) cs cs') :
    written (childrenListing cs) = written (childrenListing cs') := by
  have hempty : cs.isEmpty = cs'.isEmpty := by cases h <;> rfl
  have hchildren :
      written (cs.flatMap ListedChild.fragments) = written (cs'.flatMap ListedChild.fragments) :=
    written_flatMap (h.imp fun _ _ hc => ListedChild.written_fragments hc.1 hc.2)
  simp only [childrenListing, written_append, hempty]
  split
  · rfl
  · rw [hchildren]

/-- Each step but the last one is a link, whatever it is called. -/
lemma written_crumbFragments {cs cs' : List Crumb} (h : cs.length = cs'.length) :
    written (crumbFragments cs) = written (crumbFragments cs') := by
  induction cs generalizing cs' with
  | nil => rw [List.length_eq_zero_iff.mp h.symm]
  | cons c cs ih =>
    obtain _ | ⟨c', cs'⟩ := cs'
    · cases h
    have hrest : cs.length = cs'.length := Nat.succ.inj h
    match cs, cs', hrest with
    | [], [], _ => rfl
    | d :: ds, d' :: ds', hrest =>
      simp only [crumbFragments, written_append, ih hrest]
      rfl

lemma written_breadcrumbs {cs cs' : List Crumb} (h : cs.length = cs'.length) :
    written (breadcrumbs cs) = written (breadcrumbs cs') := by
  simp only [breadcrumbs, written_append, written_when, h, written_crumbFragments h]

lemma written_categoryPill {category category' : Text} (h : category.isEmpty = category'.isEmpty) :
    written (categoryPill category) = written (categoryPill category') := by
  simp only [categoryPill, written_when, h]
  rfl

lemma written_labelBadges {labels labels' : List Text} (h : labels.length = labels'.length) :
    written (labelBadges labels) = written (labelBadges labels') :=
  written_flatMap_of_length h fun _ _ => rfl

lemma BlogHeader.written_fragments {h h' : BlogHeader} (hauthor : h.author.isEmpty = h'.author.isEmpty)
    (hdate : h.dateIso.isEmpty = h'.dateIso.isEmpty) (hcategory : h.category.isEmpty = h'.category.isEmpty)
    (hlabels : h.labels.length = h'.labels.length) : written h.fragments = written h'.fragments := by
  have hempty : h.labels.isEmpty = h'.labels.isEmpty := by
    rw [Bool.eq_iff_iff, List.isEmpty_iff_length_eq_zero, List.isEmpty_iff_length_eq_zero, hlabels]
  simp only [BlogHeader.fragments, written_append, written_when, hauthor, hdate, hcategory, hempty,
    written_categoryPill hcategory, written_labelBadges hlabels]
  rfl

end Markup

/-- Two results are the same error, or two values in a relation. -/
inductive Corresponds {ε α : Type} (R : α → α → Prop) : Except ε α → Except ε α → Prop
  | error (e : ε) : Corresponds R (.error e) (.error e)
  | ok {x y : α} : R x y → Corresponds R (.ok x) (.ok y)

lemma Corresponds.bind {ε α β : Type} {R : α → α → Prop} {S : β → β → Prop} {a b : Except ε α}
    {f g : α → Except ε β} (h : Corresponds R a b) (hnext : ∀ x y, R x y → Corresponds S (f x) (g y)) :
    Corresponds S (a >>= f) (b >>= g) := by
  cases h with
  | error e => exact .error e
  | ok hxy => exact hnext _ _ hxy

lemma corresponds_iff {ε α β : Type} {f : α → β} {a b : Except ε α} :
    Corresponds (fun x y => f x = f y) a b ↔ a.map f = b.map f := by
  constructor
  · intro h
    cases h with
    | error e => rfl
    | ok hxy => exact congrArg Except.ok hxy
  · intro h
    cases a with
    | error e =>
      cases b with
      | error e' => rw [Except.error.inj h]; exact .error e'
      | ok y => cases h
    | ok x =>
      cases b with
      | error e' => cases h
      | ok y => exact .ok (Except.ok.inj h)

/-- Two items with the same flags: a field is set, or is a text that is not empty, in both of them or in
neither. -/
def SameFields (v w : Value) : Prop := ∀ field, flagField v field = flagField w field

/-- The props that are lists. -/
def listProps : List String := ["css_files", "js_files", "items", "labels", "pages", "children", "trail"]

/-- Two assignments of props of one shape: they may differ in what their texts say and in the order of
the props. -/
structure SameShape (props props' : Props) : Prop where
  /-- They have the same props; a flag is the same in both, a text is empty in both or in neither. -/
  flags : ∀ name, (props.lookup name).map Value.isTrue = (props'.lookup name).map Value.isTrue
  /-- Their lists are as long, and so are the items in turn alike. -/
  lists : ∀ name ∈ listProps,
    Corresponds (List.Forall₂ SameFields) (itemsProp props name) (itemsProp props' name)

/-- How many of the labels of a site differ; it is an error if they are not all texts. -/
def distinctLabels (props : Props) : Except ComponentError ℕ :=
  (itemsProp props "labels" >>= labelTexts).map fun labels => labels.eraseDups.length

/-- A prop that is not known is found under a name that is not known. -/
lemma any_unknown_iff {known : List Text} {props : Props} :
    (props.any fun (name, _) => !known.contains name) = true ↔
      ∃ name, (props.lookup name).isSome = true ∧ name ∉ known := by
  simp only [List.any_eq_true, List.lookup_isSome_iff, beq_iff_eq, Bool.not_eq_true',
    List.contains_eq_mem, decide_eq_false_iff_not]
  constructor
  · rintro ⟨p, hp, hunknown⟩
    exact ⟨p.1, ⟨p, hp, rfl⟩, hunknown⟩
  · rintro ⟨_, ⟨p, hp, rfl⟩, hunknown⟩
    exact ⟨p, hp, hunknown⟩

namespace SameShape

variable {props props' : Props} (h : SameShape props props')
include h

lemma isSome_lookup (name : Text) : (props.lookup name).isSome = (props'.lookup name).isSome := by
  simpa using congrArg Option.isSome (h.flags name)

lemma any_prop? (name : String) :
    (prop? props name).any Value.isTrue = (prop? props' name).any Value.isTrue := by
  have hflags := congrArg (Option.any id) (h.flags name.toList)
  rwa [Option.any_map, Option.any_map] at hflags

lemma isEmpty_textIfTrue (name : String) :
    (textIfTrue (prop? props name)).isEmpty = (textIfTrue (prop? props' name)).isEmpty := by
  rw [Component.isEmpty_textIfTrue, Component.isEmpty_textIfTrue, h.any_prop? name]

lemma itemsIfTrue {name : String} (hname : name ∈ listProps) :
    Corresponds (List.Forall₂ SameFields) (itemsIfTrue (prop? props name))
      (itemsIfTrue (prop? props' name)) := by
  have hlist := h.lists name hname
  have hflag := h.flags name.toList
  simp only [itemsProp, prop?, Component.itemsIfTrue] at hlist ⊢
  cases hv : props.lookup name.toList with
  | none =>
    rw [hv] at hflag
    rw [Option.map_eq_none_iff.mp hflag.symm]
    exact .ok .nil
  | some v =>
    rw [hv] at hflag hlist
    obtain ⟨w, hw, htrue⟩ := Option.map_eq_some_iff.mp hflag.symm
    rw [hw] at hlist ⊢
    simp only [htrue]
    split
    · exact hlist
    · exact .ok .nil

/-- A component refuses the props of both assignments, or renders both with what it builds of them. -/
lemma strict {required optional : List String} {build : Props → Except ComponentError (List Fragment)}
    (hbuild : Corresponds (written · = written ·) (build props) (build props')) :
    Corresponds (markupSigns · = markupSigns ·)
      (strict required optional build props) (strict required optional build props') := by
  have hunknown (known : List Text) :
      (props.any fun (name, _) => !known.contains name) = props'.any fun (name, _) => !known.contains name := by
    rw [Bool.eq_iff_iff, any_unknown_iff, any_unknown_iff]
    simp only [h.isSome_lookup]
  have hmissing (name : String) : (prop? props name).isNone = (prop? props' name).isNone := by
    rw [← Option.not_isSome, ← Option.not_isSome, prop?, prop?, h.isSome_lookup]
  simp only [Component.strict, hunknown, hmissing]
  split
  · exact .error ComponentError.badProps
  split
  · exact .error ComponentError.badProps
  · refine hbuild.bind fun fs fs' hfs => .ok ?_
    rw [markupSigns_render, markupSigns_render, hfs]

end SameShape

lemma SameFields.isEmpty_textFieldIfTrue {v w : Value} (h : SameFields v w) (field : String) :
    (textFieldIfTrue v field).isEmpty = (textFieldIfTrue w field).isEmpty := by
  rw [textFieldIfTrue, textFieldIfTrue, isEmpty_textIfTrue, isEmpty_textIfTrue]
  exact congrArg _ (h field)

/-- Labels that are not all texts are an error, and of texts only the number of different ones counts. -/
lemma corresponds_labels {props props' : Props}
    (hlabels : distinctLabels props = distinctLabels props') :
    Corresponds (written · = written ·)
      (do return labelFooter (← labelTexts (← itemsProp props "labels")) (textProp props "base_path" []))
      (do return labelFooter (← labelTexts (← itemsProp props' "labels")) (textProp props' "base_path" [])) := by
  have htexts : Corresponds (fun labels labels' => labels.eraseDups.length = labels'.eraseDups.length)
      (itemsProp props "labels" >>= labelTexts) (itemsProp props' "labels" >>= labelTexts) :=
    corresponds_iff.mpr hlabels
  simp only [← bind_assoc]
  exact htexts.bind fun labels labels' hcount => .ok (written_labelFooter hcount _ _)

section Build

/-! What the components build of props of one shape. -/

variable {props props' : Props} (h : SameShape props props')
include h

lemma corresponds_head : Corresponds (markupSigns · = markupSigns ·) (head props) (head props') := by
  apply h.strict
  refine (h.lists "css_files" (by decide)).bind fun styles styles' hstyles => ?_
  refine (h.lists "js_files" (by decide)).bind fun scripts scripts' hscripts => .ok ?_
  apply Head.written_fragments
  · exact h.isEmpty_textIfTrue "description"
  · exact h.isEmpty_textIfTrue "keywords"
  · simpa using hstyles.length_eq
  · simpa using hscripts.length_eq

lemma corresponds_blogHeader :
    Corresponds (markupSigns · = markupSigns ·) (blogHeader props) (blogHeader props') := by
  apply h.strict
  refine (h.itemsIfTrue (by decide)).bind fun labels labels' hlabels => .ok ?_
  apply BlogHeader.written_fragments
  · exact h.isEmpty_textIfTrue "author"
  · exact h.isEmpty_textIfTrue "date_iso"
  · exact h.isEmpty_textIfTrue "category"
  · simpa using hlabels.length_eq

/-- Each component of the library refuses both assignments, or renders both with the same signs. -/
lemma corresponds_of_mem {name : Text} {c : Component} (hc : (name, c) ∈ builtin.entries)
    (hlabels : name = "label-footer".toList → distinctLabels props = distinctLabels props') :
    Corresponds (markupSigns · = markupSigns ·) (c props) (c props') := by
  simp only [builtin, List.mem_cons, List.not_mem_nil, or_false, Prod.mk.injEq] at hc
  -- one case for each component, in the order of their registration
  rcases hc with ⟨-, rfl⟩ | ⟨-, rfl⟩ | ⟨-, rfl⟩ | ⟨rfl, rfl⟩ | ⟨-, rfl⟩ | ⟨-, rfl⟩ | ⟨-, rfl⟩ | ⟨-, rfl⟩ |
    ⟨-, rfl⟩ | ⟨-, rfl⟩
  · exact corresponds_head h
  · exact h.strict (.ok rfl)
  · refine h.strict ((h.itemsIfTrue (by decide)).bind fun items items' hitems => .ok ?_)
    apply written_navigation
    rw [List.forall₂_map_left_iff, List.forall₂_map_right_iff]
    exact hitems.imp fun v w hvw => ⟨hvw "active", hvw "hx_boost"⟩
  · exact h.strict (corresponds_labels (hlabels rfl))
  · refine h.strict ((h.lists "pages" (by decide)).bind fun pages pages' hpages => .ok ?_)
    apply written_listingIndex
    rw [List.forall₂_map_left_iff, List.forall₂_map_right_iff]
    exact hpages.imp fun v w hvw => ⟨hvw.isEmpty_textFieldIfTrue "category",
      hvw.isEmpty_textFieldIfTrue "date", hvw.isEmpty_textFieldIfTrue "description"⟩
  · refine h.strict ((h.lists "children" (by decide)).bind fun children children' hchildren => .ok ?_)
    apply written_childrenListing
    rw [List.forall₂_map_left_iff, List.forall₂_map_right_iff]
    exact hchildren.imp fun v w hvw =>
      ⟨hvw.isEmpty_textFieldIfTrue "meta", hvw.isEmpty_textFieldIfTrue "description"⟩
  · refine h.strict ((h.lists "trail" (by decide)).bind fun trail trail' htrail => .ok ?_)
    exact written_breadcrumbs (by simpa using htrail.length_eq)
  · exact h.strict (.ok (written_categoryPill (h.isEmpty_textIfTrue "category")))
  · refine h.strict ((h.itemsIfTrue (by decide)).bind fun labels labels' hlabels => .ok ?_)
    exact written_labelBadges (by simpa using hlabels.length_eq)
  · exact corresponds_blogHeader h

end Build
end Component

open Component in
/-- Rendered with props of one shape, a component of the library writes the same brackets and quotes in
the same order, so no title, label, address, description, category, author or date can add markup to
the page or take it away. For the labels of the site, the number of different labels is part of the
shape. Props that one assignment cannot be rendered with are refused of the other one too. -/
theorem Components.markupSigns_render_builtin {name : Text} {props props' : Props}
    (hshape : SameShape props props')
    (hlabels : name = "label-footer".toList → distinctLabels props = distinctLabels props') :
    (builtin.render name props).map markupSigns = (builtin.render name props').map markupSigns := by
  rw [Components.render, Components.render]
  cases hc : builtin.entries.lookup name with
  | none => rfl
  | some c => exact corresponds_iff.mp (corresponds_of_mem hshape (mem_of_lookup hc) hlabels)

/-- Labels and an address that try to write tags leave the footer with the signs that it has for
others. -/
theorem Components.markupSigns_render_builtin_tags :
    (Component.builtin.render "label-footer".toList
      [("base_path".toList, .text "\"><script>".toList),
        ("labels".toList, .list [.text "<b>".toList, .text "' title='".toList, .text "<b>".toList])]).map
          markupSigns =
      (Component.builtin.render "label-footer".toList
        [("base_path".toList, .text "/notes".toList),
          ("labels".toList, .list [.text "lean".toList, .text "proofs".toList, .text "lean".toList])]).map
            markupSigns ∧
    (Component.builtin.render "label-footer".toList
      [("base_path".toList, .text "\"><script>".toList),
        ("labels".toList, .list [.text "<b>".toList, .text "' title='".toList,
          .text "<b>".toList])]).isOk = true := by
  refine ⟨Components.markupSigns_render_builtin ⟨fun name => ?_, fun name hname => ?_⟩ fun _ => rfl, rfl⟩
  · simp only [lookup_cons_ite, List.lookup_nil]
    repeat' split
    all_goals rfl
  · have hitem (s t : String) : Component.SameFields (.text s.toList) (.text t.toList) := fun _ => rfl
    simp only [Component.listProps, List.mem_cons, List.not_mem_nil, or_false] at hname
    rcases hname with rfl | rfl | rfl | rfl | rfl | rfl | rfl
    case inr.inr.inr.inl => exact .ok (.cons (hitem _ _) (.cons (hitem _ _) (.cons (hitem _ _) .nil)))
    all_goals exact .ok .nil

end Sitewright
