import Sitewright.Proofs.FreshPage
import Sitewright.Proofs.MarkupReading
import Sitewright.Proofs.Rewriting
import Sitewright.Site.Render

/-!
Slugs as runs. The slug of a text is the longest runs of kept characters in its lower case, with a
hyphen between two of them; so it is its own slug, and the link to a label and the listing of the label
have one address.
-/
namespace Sitewright

namespace Text

variable {p : Char → Bool}

/-- The longest runs of characters that belong to a class, in order: a gap, the first run, and the runs of
what does not go on with it. -/
inductive Runs (p : Char → Bool) : Text → List Text → Prop
  | none {t : Text} (h : ∀ c ∈ t, p c = false) : Runs p t []
  | run {gap r rest : Text} {rs : List Text} (hgap : ∀ c ∈ gap, p c = false) (hne : r ≠ [])
      (hr : ∀ c ∈ r, p c = true) (hend : ∀ c ∈ rest.head?, p c = false) (h : Runs p rest rs) :
      Runs p (gap ++ (r ++ rest)) (r :: rs)

section Runs

lemma Runs.mem {t : Text} {rs : List Text} (h : Runs p t rs) :
    ∀ r ∈ rs, r ≠ [] ∧ ∀ c ∈ r, p c = true := by
  induction h with
  | none h => exact List.forall_mem_nil _
  | run hgap hne hr hend h ih => exact List.forall_mem_cons.mpr ⟨⟨hne, hr⟩, ih⟩

/-- A run at the start of a text. -/
lemma Runs.first {r rest : Text} {rs : List Text} (hne : r ≠ []) (hr : ∀ c ∈ r, p c = true)
    (hend : ∀ c ∈ rest.head?, p c = false) (h : Runs p rest rs) : Runs p (r ++ rest) (r :: rs) :=
  @Runs.run p [] r rest rs (List.forall_mem_nil _) hne hr hend h

/-- Characters of no run around a text do not change its runs. -/
lemma Runs.around {t : Text} {rs : List Text} (h : Runs p t rs) {front back : Text}
    (hfront : ∀ c ∈ front, p c = false) (hback : ∀ c ∈ back, p c = false) :
    Runs p (front ++ t ++ back) rs := by
  induction h generalizing front with
  | none h =>
    refine .none fun c hc => ?_
    simp only [List.mem_append] at hc
    rcases hc with (hc | hc) | hc
    · exact hfront c hc
    · exact h c hc
    · exact hback c hc
  | @run gap r rest rs hgap hne hr hend h ih =>
    have hrest := ih (List.forall_mem_nil _)
    rw [List.nil_append] at hrest
    have hsplit : front ++ (gap ++ (r ++ rest)) ++ back = (front ++ gap) ++ (r ++ (rest ++ back)) := by
      simp only [List.append_assoc]
    rw [hsplit]
    refine .run (fun c hc => ?_) hne hr (fun c hc => ?_) hrest
    · exact (List.mem_append.mp hc).elim (hfront c) (hgap c)
    · cases rest with
      | nil => exact hback c (List.mem_of_mem_head? hc)
      | cons d rest => exact hend c hc

/-- A text has its runs in only one way. -/
lemma Runs.unique {t : Text} {rs rs' : List Text} (h : Runs p t rs) (h' : Runs p t rs') : rs = rs' := by
  induction h generalizing rs' with
  | @none t h =>
    cases h' with
    | none => rfl
    | @run gap r rest rs hgap hne hr hend h' =>
      obtain ⟨c, r, rfl⟩ := List.exists_cons_of_ne_nil hne
      have hc := h c (by simp)
      rw [hr c List.mem_cons_self] at hc
      cases hc
  | @run gap r rest rs hgap hne hr hend h ih =>
    generalize ht : gap ++ (r ++ rest) = t at h'
    cases h' with
    | none h' =>
      obtain ⟨c, r, rfl⟩ := List.exists_cons_of_ne_nil hne
      have hc := h' c (by simp [← ht])
      rw [hr c List.mem_cons_self] at hc
      cases hc
    | @run gap' r' rest' rs' hgap' hne' hr' hend' h' =>
      -- the first run starts where the gap ends, and ends where the rest starts
      have hstart : ∀ {g r rest : Text}, (∀ c ∈ g, p c = false) → r ≠ [] → (∀ c ∈ r, p c = true) →
          spanWhile (fun c => !p c) (g ++ (r ++ rest)) = (g, r ++ rest) := by
        intro g r rest hg hne hr
        obtain ⟨c, r, rfl⟩ := List.exists_cons_of_ne_nil hne
        exact spanWhile_stop (fun d hd => by rw [hg d hd]; rfl) (by rw [hr c List.mem_cons_self]; rfl)
      have hspan : spanWhile (fun c => !p c) (gap ++ (r ++ rest)) = (gap, r ++ rest) := hstart hgap hne hr
      rw [ht, hstart hgap' hne' hr'] at hspan
      have hrest := spanWhile_of_head hr hend
      rw [← (Prod.mk.inj hspan).2, spanWhile_of_head hr' hend'] at hrest
      obtain ⟨rfl, rfl⟩ := Prod.mk.inj hrest
      rw [ih h']

lemma exists_runs (p : Char → Bool) (t : Text) : ∃ rs, Runs p t rs := by
  induction t with
  | nil => exact ⟨[], .none (List.forall_mem_nil _)⟩
  | cons c t ih =>
    obtain ⟨rs, h⟩ := ih
    cases hc : p c with
    | false =>
      have hall : Runs p ([c] ++ t ++ []) rs := h.around (by simpa using hc) (List.forall_mem_nil _)
      exact ⟨rs, by simpa using hall⟩
    | true =>
      have hone : ∀ d ∈ [c], p d = true := by simpa using hc
      cases h with
      | none h =>
        refine ⟨[[c]], .first (by simp) hone (fun d hd => ?_) (.none h)⟩
        exact h d (List.mem_of_mem_head? hd)
      | @run gap r rest rs hgap hne hr hend h =>
        cases gap with
        | nil =>
          -- the run goes on in front
          have hlonger : ∀ d ∈ c :: r, p d = true := List.forall_mem_cons.mpr ⟨hc, hr⟩
          exact ⟨(c :: r) :: rs, .first (by simp) hlonger hend h⟩
        | cons d gap =>
          have hbelow := Runs.run hgap hne hr hend h
          refine ⟨[c] :: r :: rs, .first (by simp) hone ?_ hbelow⟩
          intro b hb
          obtain rfl : d = b := Option.some.inj hb
          exact hgap d List.mem_cons_self

/-- Runs with a separator of no run between them are the runs of the whole. -/
lemma runs_join {sep : Char} (hsep : p sep = false) {rs : List Text}
    (h : ∀ r ∈ rs, r ≠ [] ∧ ∀ c ∈ r, p c = true) : Runs p (join [sep] rs) rs := by
  induction rs with
  | nil => exact .none (List.forall_mem_nil _)
  | cons r rs ih =>
    obtain ⟨⟨hne, hr⟩, hrs⟩ := List.forall_mem_cons.mp h
    have hjoin := ih hrs
    cases rs with
    | nil =>
      have hlast : Runs p (r ++ []) [r] := .first hne hr (by simp) (.none (List.forall_mem_nil _))
      simpa [join] using hlast
    | cons s rs =>
      have hrest : Runs p ([sep] ++ join [sep] (s :: rs) ++ []) (s :: rs) :=
        hjoin.around (by simpa using hsep) (List.forall_mem_nil _)
      have hall : Runs p (r ++ ([sep] ++ join [sep] (s :: rs) ++ [])) (r :: s :: rs) := by
        refine .first hne hr (fun c hc => ?_) hrest
        obtain rfl : sep = c := Option.some.inj hc
        exact hsep
      simpa [join] using hall

end Runs

/-- Text of lower case ASCII characters is its own lower case. -/
lemma lower_eq_self {t : Text} (h : ∀ c ∈ t, c.toNat < 128 ∧ asciiLower c = c) : lower t = t := by
  have hgo : ∀ before, lower.go before t = t := by
    induction t with
    | nil => exact fun _ => rfl
    | cons c t ih =>
      obtain ⟨⟨hascii, hlower⟩, ht⟩ := List.forall_mem_cons.mp h
      intro before
      have hchar : lowerChar before c t = [c] := by
        simp only [lowerChar, if_pos hascii, hlower]
      rw [lower.go, hchar, ih ht]
      rfl
  exact hgo []

end Text

open Text (Runs exists_runs)

section Slugs

lemma isBlank_of_isSlugChar {c : Char} (h : isSlugChar c = true) : Text.isBlank c = false :=
  Page.isBlank_of_isIdChar (isIdChar_of_isSlugChar h)

lemma isSlugChar_of_isBlank {c : Char} (h : Text.isBlank c = true) : isSlugChar c = false := by
  by_contra hc
  rw [Bool.not_eq_false] at hc
  rw [isBlank_of_isSlugChar hc] at h
  cases h

lemma hyphenateGaps_run {r : Text} (hne : r ≠ []) (hr : ∀ c ∈ r, isSlugChar c = true) (inGap : Bool)
    (rest : Text) : hyphenateGaps inGap (r ++ rest) = r ++ hyphenateGaps false rest := by
  induction r generalizing inGap with
  | nil => exact absurd rfl hne
  | cons c r ih =>
    obtain ⟨hc, hr⟩ := List.forall_mem_cons.mp hr
    rw [List.cons_append, hyphenateGaps, if_pos hc]
    cases r with
    | nil => rfl
    | cons d r => rw [ih (List.cons_ne_nil d r) hr]; rfl

lemma hyphenateGaps_gap {gap : Text} (hgap : ∀ c ∈ gap, isSlugChar c = false) (rest : Text) :
    hyphenateGaps true (gap ++ rest) = hyphenateGaps true rest := by
  induction gap with
  | nil => rfl
  | cons c gap ih =>
    obtain ⟨hc, hgap⟩ := List.forall_mem_cons.mp hgap
    rw [List.cons_append, hyphenateGaps, if_neg (by rw [hc]; decide), if_pos rfl, ih hgap]

/-- At most one hyphen is written for a gap at the start. -/
lemma hyphenateGaps_rest (t : Text) (h : ∀ c ∈ t.head?, isSlugChar c = false) :
    hyphenateGaps false t = if t = [] then [] else '-' :: hyphenateGaps true t := by
  cases t with
  | nil => rfl
  | cons c t =>
    have hc : ¬ isSlugChar c = true := by rw [h c rfl]; decide
    rw [if_neg (List.cons_ne_nil c t), hyphenateGaps, if_neg hc, if_neg (by decide), hyphenateGaps, if_neg hc,
      if_pos rfl]

/-- A gap at the start gets the only further hyphen. -/
lemma exists_hyphenateGaps_eq (t : Text) :
    ∃ start, (∀ c ∈ start, c = '-') ∧ hyphenateGaps false t = start ++ hyphenateGaps true t := by
  cases t with
  | nil => exact ⟨[], List.forall_mem_nil _, rfl⟩
  | cons c t =>
    by_cases hc : isSlugChar c = true
    · exact ⟨[], List.forall_mem_nil _, by simp [hyphenateGaps, hc]⟩
    · exact ⟨['-'], by simp, by simp [hyphenateGaps, hc]⟩

/-- The runs of a text stand in what is written for it, with one hyphen for each gap between them. -/
lemma hyphenateGaps_runs {t : Text} {rs : List Text} (h : Runs isSlugChar t rs) :
    ∃ back, (∀ c ∈ back, c = '-') ∧ hyphenateGaps true t = Text.join ['-'] rs ++ back := by
  induction h with
  | @none t h =>
    refine ⟨[], List.forall_mem_nil _, ?_⟩
    have hgap := hyphenateGaps_gap h []
    rwa [List.append_nil] at hgap
  | @run gap r rest rs hgap hne hr hend h ih =>
    obtain ⟨back, hback, hrest⟩ := ih
    rw [hyphenateGaps_gap hgap, hyphenateGaps_run hne hr, hyphenateGaps_rest rest hend, hrest]
    split
    · rename_i hnil
      subst hnil
      obtain rfl := (Text.Runs.none (List.forall_mem_nil _)).unique h
      exact ⟨[], List.forall_mem_nil _, rfl⟩
    · cases rs with
      | nil => exact ⟨'-' :: back, List.forall_mem_cons.mpr ⟨rfl, hback⟩, rfl⟩
      | cons s rs => exact ⟨back, hback, by simp [Text.join]⟩

lemma head?_join_of_runs {sep : Char} {rs : List Text} (h : ∀ r ∈ rs, r ≠ [] ∧ ∀ c ∈ r, isSlugChar c = true) :
    ∀ c ∈ (Text.join [sep] rs).head?, isSlugChar c = true := by
  cases rs with
  | nil => simp [Text.join]
  | cons r rs =>
    obtain ⟨⟨hne, hr⟩, -⟩ := List.forall_mem_cons.mp h
    have hhead : (Text.join [sep] (r :: rs)).head? = r.head? := by
      cases rs with
      | nil => rfl
      | cons s rs => rw [Text.join, List.append_assoc, List.head?_append_of_ne_nil _ hne]
    exact fun c hc => hr c (List.mem_of_mem_head? (hhead ▸ hc))

lemma getLast?_join_of_runs {sep : Char} {rs : List Text} (h : ∀ r ∈ rs, r ≠ [] ∧ ∀ c ∈ r, isSlugChar c = true) :
    ∀ c ∈ (Text.join [sep] rs).getLast?, isSlugChar c = true := by
  induction rs with
  | nil => simp [Text.join]
  | cons r rs ih =>
    obtain ⟨⟨hne, hr⟩, hrs⟩ := List.forall_mem_cons.mp h
    cases rs with
    | nil => exact fun c hc => hr c (List.mem_of_getLast? hc)
    | cons s rs =>
      have hnil : Text.join [sep] (s :: rs) ≠ [] := by
        obtain ⟨hs, -⟩ := List.forall_mem_cons.mp hrs
        cases rs <;> simp [Text.join, hs.1]
      rw [Text.join, List.getLast?_append_of_ne_nil _ hnil]
      exact ih hrs

/-- A slug is the runs of the lower case with hyphens between them. -/
lemma slug_eq_join {t : Text} {rs : List Text} (h : Runs isSlugChar (Text.lower t) rs) :
    slug t = Text.join ['-'] rs := by
  obtain ⟨front, back, hstrip, -, hfront, hback⟩ := Text.exists_strip (Text.lower t)
  obtain ⟨rs', h'⟩ := exists_runs isSlugChar (Text.strip (Text.lower t))
  have haround := h'.around (fun c hc => isSlugChar_of_isBlank (hfront c hc))
    (fun c hc => isSlugChar_of_isBlank (hback c hc))
  rw [← hstrip] at haround
  obtain rfl := h.unique haround
  obtain ⟨finish, hfinish, hwritten⟩ := hyphenateGaps_runs h'
  obtain ⟨start, hstart, hall⟩ := exists_hyphenateGaps_eq (Text.strip (Text.lower t))
  have hstays : ∀ c, isSlugChar c = true → decide (c = '-') = false := by
    rintro c hc
    rw [decide_eq_false_iff_not]
    rintro rfl
    revert hc
    decide
  rw [slug, hall, hwritten, ← List.append_assoc]
  exact Text.trim_eq (fun c hc => decide_eq_true (hstart c hc))
    (fun c hc => hstays c (head?_join_of_runs h.mem c hc))
    (fun c hc => hstays c (getLast?_join_of_runs h.mem c hc)) (fun c hc => decide_eq_true (hfinish c hc))

/-- The characters that slugs keep are lower case already. -/
lemma asciiLower_of_isSlugChar {c : Char} (h : isSlugChar c = true) : c.toNat < 128 ∧ Text.asciiLower c = c := by
  simp only [isSlugChar, Bool.or_eq_true, Bool.and_eq_true, decide_eq_true_eq] at h
  have hupper : ¬ ('A' ≤ c ∧ c ≤ 'Z') := by
    rintro ⟨hlow, hhigh⟩
    rcases h with ⟨h, -⟩ | ⟨-, h⟩
    · exact absurd (h.trans hhigh) (by decide)
    · exact absurd (hlow.trans h) (by decide)
  have hle : c ≤ 'z' := h.elim And.right fun h => h.2.trans (by decide)
  refine ⟨Nat.lt_of_le_of_lt hle (by decide), ?_⟩
  rw [Text.asciiLower, if_neg]
  simpa using hupper

lemma slug_slug (t : Text) : slug (slug t) = slug t := by
  obtain ⟨rs, h⟩ := exists_runs isSlugChar (Text.lower t)
  have hlower : Text.lower (slug t) = slug t := by
    refine Text.lower_eq_self fun c hc => ?_
    rcases mem_slug hc with hc | rfl
    · exact asciiLower_of_isSlugChar hc
    · decide
  have hagain : Runs isSlugChar (Text.lower (slug t)) rs := by
    rw [hlower, slug_eq_join h]
    exact Text.runs_join (by decide) h.mem
  rw [slug_eq_join hagain, slug_eq_join h]

end Slugs

namespace Component
open Fragment
open Text (Avoids avoids_of_isClear avoids_of_not_mem avoids_render enclosed escapeShown findAll
  findAll_enclosed findAll_enclosed_avoids findAll_enclosed_eq_nil mark_not_mem_escapeShown render_append unescape
  unescape_escapeShown)

/-- The addresses of the links in markup. -/
def linkAddresses (t : Text) : List Text := (findAll (enclosed "<a href=\"".toList ['"']) t).map unescape

/-- The address of the page of a label. -/
def labelAddress (basePath label : Text) : Text := basePath ++ "/label/".toList ++ slug label

lemma mem_sortedLabels {labels : List Text} {label : Text} : label ∈ sortedLabels labels ↔ label ∈ labels := by
  rw [sortedLabels, List.mem_mergeSort, List.mem_eraseDups]

/-- What stands behind the address of a label in its link. -/
def afterAddress (label : Text) : List Fragment := (labelLink [] label).drop 4

/-- The quote that ends the address, and what follows it. -/
lemma exists_afterAddress (label : Text) : ∃ m rest, afterAddress label = .markup ('"' :: m) :: rest := by
  obtain ⟨m, rest, hsplit, hhead⟩ : ∃ m rest, afterAddress label = .markup m :: rest ∧ m.head? = some '"' :=
    ⟨_, _, rfl, by decide +kernel⟩
  obtain ⟨m, rfl⟩ := List.head?_eq_some_iff.mp hhead
  exact ⟨m, rest, hsplit⟩

lemma avoids_afterAddress (label : Text) : Avoids "<a href=\"".toList (render (afterAddress label)) := by
  have hclear : (written (afterAddress [])).all (Text.isClear "<a href=\"".toList) = true := by decide +kernel
  exact avoids_render rfl hclear

lemma render_labelLink (basePath label : Text) : render (labelLink basePath label) =
    "            ".toList ++ ("<a href=\"".toList ++ (escapeShown (labelAddress basePath label) ++
      render (afterAddress label))) := by
  have hslash : escapeShown "/label/".toList = "/label/".toList := rfl
  have hsplit : labelLink basePath label =
      [tags "            <a href=\"", shown basePath, tags "/label/", shown (slug label)] ++ afterAddress label := rfl
  rw [hsplit, render_append, labelAddress, escapeShown, List.flatMap_append, List.flatMap_append, ← escapeShown,
    ← escapeShown, ← escapeShown, hslash]
  simp [render, tags, Fragment.text]

/-- A link has one address, that of the page of its label. -/
lemma linkAddresses_labelLink (basePath label rest : Text) :
    linkAddresses (render (labelLink basePath label) ++ rest) = labelAddress basePath label :: linkAddresses rest := by
  have hindent : Avoids "<a href=\"".toList "            ".toList := avoids_of_isClear rfl
  have hbody : Avoids ['"'] (escapeShown (labelAddress basePath label)) :=
    avoids_of_not_mem rfl fun h => mark_not_mem_escapeShown h (by decide)
  obtain ⟨back, hback⟩ : ∃ back, render (afterAddress label) = '"' :: back := by
    obtain ⟨m, more, hmore⟩ := exists_afterAddress label
    exact ⟨m ++ render more, by rw [hmore]; rfl⟩
  have hafter : Avoids "<a href=\"".toList ('"' :: back) := hback ▸ avoids_afterAddress label
  have hbehind : Avoids "<a href=\"".toList back := fun u v huv hv rest =>
    hafter ('"' :: u) v (congrArg _ huv) hv rest
  have hsplit : render (labelLink basePath label) ++ rest = "            ".toList ++ ("<a href=\"".toList ++
      (escapeShown (labelAddress basePath label) ++ (['"'] ++ (back ++ rest)))) := by
    rw [render_labelLink, hback]
    simp only [List.append_assoc, List.cons_append, List.nil_append]
  rw [linkAddresses, hsplit, findAll_enclosed_avoids hindent, findAll_enclosed (by decide) (by decide) hbody,
    findAll_enclosed_avoids hbehind, List.map_cons, unescape_escapeShown]
  rfl

/-- The footer is its links and markup around them. -/
lemma exists_labelFooter {labels : List Text} (h : labels ≠ []) (basePath : Text) : ∃ front back,
    labelFooter labels basePath = front ++ (sortedLabels labels).flatMap (labelLink basePath) ++ back ∧
      Avoids "<a href=\"".toList (render front) ∧ Avoids "<a href=\"".toList (render back) := by
  obtain ⟨l, ls, rfl⟩ := List.exists_cons_of_ne_nil h
  exact ⟨_, _, rfl, avoids_render rfl (by decide +kernel), avoids_render rfl (by decide +kernel)⟩

/-- The links of the footer go to the pages of its labels. -/
lemma linkAddresses_labelFooter (labels : List Text) (basePath : Text) :
    linkAddresses (render (labelFooter labels basePath)) = (sortedLabels labels).map (labelAddress basePath) := by
  have hlinks : ∀ (ls : List Text) (rest : Text), Avoids "<a href=\"".toList rest →
      linkAddresses (render (ls.flatMap (labelLink basePath)) ++ rest) = ls.map (labelAddress basePath) := by
    intro ls rest hrest
    induction ls with
    | nil => exact congrArg (List.map unescape) (findAll_enclosed_eq_nil hrest)
    | cons l ls ih =>
      rw [List.flatMap_cons, render_append, List.append_assoc, linkAddresses_labelLink, ih, List.map_cons]
  by_cases hnil : labels = []
  · rw [hnil, sortedLabels, List.eraseDups_nil, List.mergeSort_nil]
    rfl
  · obtain ⟨front, back, hfooter, hfront, hback⟩ := exists_labelFooter hnil basePath
    rw [hfooter, render_append, render_append, List.append_assoc, linkAddresses, findAll_enclosed_avoids hfront]
    exact hlinks _ _ hback

end Component

open Component (labelFooter linkAddresses sortedLabels)

/-- The slug of a text is the longest runs of `a` to `z` and `0` to `9` in its lower case, joined by single
hyphens. It is its own slug and the identifier that is generated for the text as a title, and the footer links
each label to the directory in which the listing of the label is published. -/
theorem slug_runs (text : Text) :
    (∃ rs, Runs isSlugChar (Text.lower text) rs ∧ (∀ rs', Runs isSlugChar (Text.lower text) rs' → rs' = rs) ∧
      slug text = Text.join ['-'] rs ∧ ∀ r ∈ rs, r ≠ [] ∧ ∀ c ∈ r, isSlugChar c = true) ∧
    slug (slug text) = slug text ∧
    freshSlug text [] = slug text ∧
    ∀ basePath labels, (text ∈ sortedLabels labels ↔ text ∈ labels) ∧
      (linkAddresses (Fragment.render (labelFooter labels basePath))).map (· ++ "/index.html".toList) =
        (sortedLabels labels).map fun label => basePath ++ '/' :: Site.listingPath Sitemap.labelDirectory label := by
  refine ⟨?_, slug_slug text, ?_, fun basePath labels => ⟨Component.mem_sortedLabels, ?_⟩⟩
  · obtain ⟨rs, h⟩ := exists_runs isSlugChar (Text.lower text)
    exact ⟨rs, h, fun rs' h' => h'.unique h, slug_eq_join h, h.mem⟩
  · obtain ⟨k, -, hfresh, -, hbefore⟩ := exists_freshSlug_eq text []
    cases k with
    | zero => exact hfresh
    | succ k => exact absurd (hbefore 0 (Nat.succ_pos k)) List.not_mem_nil
  · rw [Component.linkAddresses_labelFooter, List.map_map]
    refine List.map_congr_left fun label _ => ?_
    simp [Component.labelAddress, Site.listingPath, Sitemap.labelDirectory]

example : slug "İ & Kelvin".toList = "i-kelvin".toList := by decide +kernel

end Sitewright
