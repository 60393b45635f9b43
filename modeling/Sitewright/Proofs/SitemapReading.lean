import Sitewright.Proofs.MarkupReading
import Sitewright.Sitemap

/-!
The sitemap read back. Each address of it is one element with one location and at most one date, so
cutting the text at its tags gives the listed pages in their order, whatever their addresses and dates
hold.
-/
namespace Sitewright.Sitemap
open Fragment
open Text (Avoids avoids_escapeShown avoids_of_isClear avoids_render enclosed escapeShown findAll
  findAll_enclosed findAll_enclosed_avoids findAll_enclosed_eq_nil render_append
  unescape unescape_escapeShown)

/-- The elements of a name that stand in a text: what is between their tags. -/
def elements (name : String) (t : Text) : List Text :=
  findAll (enclosed ('<' :: name.toList ++ ['>']) ("</".toList ++ name.toList ++ ['>'])) t

/-- The addresses of a sitemap, of each its locations and its dates. -/
def read (t : Text) : List (List Text × List Text) :=
  (elements "url" t).map fun url =>
    ((elements "loc" url).map unescape, (elements "lastmod" url).map unescape)

section Element

variable (siteUrl : Text) (e : Entry)

/-- The date of an entry, none if it is empty. -/
def date? : Option Text := e.date.filter fun d => d ≠ []

/-- The line of a date. -/
def dateLine : Option Text → List Fragment
  | some d => [tags "    <lastmod>", shown d, tags "</lastmod>\n"]
  | none => []

/-- What stands between the tags of an address. -/
def inside : List Fragment :=
  [tags "\n    <loc>", shown siteUrl, shown e.url, tags "</loc>\n"] ++ dateLine (date? e) ++ [tags "  "]

lemma location_eq : location siteUrl e =
    [tags "  <url>\n    <loc>", shown siteUrl, shown e.url, tags "</loc>\n"] ++ dateLine (date? e) ++
      [tags "  </url>\n"] := by
  unfold location date?
  cases e.date with
  | none => rfl
  | some d => cases d <;> rfl

lemma render_location : render (location siteUrl e) =
    "  ".toList ++ ("<url>".toList ++ (render (inside siteUrl e) ++ ("</url>".toList ++ ['\n']))) := by
  rw [location_eq, inside]
  simp only [render_append, List.append_assoc]
  simp [render, tags, Fragment.text]

/-- Nothing inside an address closes it. -/
lemma avoids_inside : Avoids "</url>".toList (render (inside siteUrl e)) := by
  refine avoids_render rfl ?_
  rw [inside]
  cases date? e <;> rfl

/-- The location of an address is the only one. -/
lemma elements_loc : elements "loc" (render (inside siteUrl e)) = [escapeShown (siteUrl ++ e.url)] := by
  have hsplit : render (inside siteUrl e) = "\n    ".toList ++ ("<loc>".toList ++
      (escapeShown (siteUrl ++ e.url) ++ ("</loc>".toList ++
        render ([tags "\n"] ++ dateLine (date? e) ++ [tags "  "])))) := by
    rw [inside, escapeShown, List.flatMap_append, ← escapeShown, ← escapeShown]
    simp only [render_append, List.append_assoc]
    simp [render, tags, Fragment.text]
  have hbefore : Avoids "<loc>".toList "\n    ".toList := avoids_of_isClear rfl
  have hbody : Avoids "</loc>".toList (escapeShown (siteUrl ++ e.url)) := avoids_escapeShown rfl _
  have hafter : Avoids "<loc>".toList (render ([tags "\n"] ++ dateLine (date? e) ++ [tags "  "])) := by
    refine avoids_render rfl ?_
    cases date? e <;> rfl
  rw [hsplit]
  exact (findAll_enclosed_avoids hbefore _).trans <|
    (findAll_enclosed (by decide) (by decide) hbody _).trans
      (congrArg _ (findAll_enclosed_eq_nil hafter))

/-- An address has a date if its entry has one that is not empty. -/
lemma elements_lastmod : elements "lastmod" (render (inside siteUrl e)) =
    (date? e).toList.map escapeShown := by
  have hbefore : Avoids "<lastmod>".toList
      (render [tags "\n    <loc>", shown siteUrl, shown e.url, tags "</loc>\n"]) := avoids_render rfl rfl
  rw [inside, List.append_assoc, render_append]
  refine (findAll_enclosed_avoids hbefore _).trans ?_
  cases date? e with
  | none => exact findAll_enclosed_eq_nil (avoids_of_isClear rfl)
  | some d =>
    have hsplit : render (dateLine (some d) ++ [tags "  "]) = "    ".toList ++ ("<lastmod>".toList ++
        (escapeShown d ++ ("</lastmod>".toList ++ "\n  ".toList))) := by
      simp [dateLine, render, tags, Fragment.text]
    have hindent : Avoids "<lastmod>".toList "    ".toList := avoids_of_isClear rfl
    have hbody : Avoids "</lastmod>".toList (escapeShown d) := avoids_escapeShown rfl d
    have hafter : Avoids "<lastmod>".toList "\n  ".toList := avoids_of_isClear rfl
    rw [hsplit]
    exact (findAll_enclosed_avoids hindent _).trans <|
      (findAll_enclosed (by decide) (by decide) hbody _).trans
        (congrArg _ (findAll_enclosed_eq_nil hafter))

end Element

section Document

variable (siteUrl : Text)

/-- The addresses in a row, each between the tags of its own. -/
lemma elements_url (es : List Entry) :
    elements "url" (es.flatMap (fun e => render (location siteUrl e)) ++ "</urlset>".toList) =
      es.map fun e => render (inside siteUrl e) := by
  induction es with
  | nil => exact findAll_enclosed_eq_nil (avoids_of_isClear rfl)
  | cons e es ih =>
    have hindent : Avoids "<url>".toList "  ".toList := avoids_of_isClear rfl
    have hafter : Avoids "<url>".toList ['\n'] := avoids_of_isClear rfl
    rw [List.flatMap_cons, render_location, List.map_cons, ← ih]
    simp only [List.append_assoc]
    exact (findAll_enclosed_avoids hindent _).trans <|
      (findAll_enclosed (by decide) (by decide) (avoids_inside siteUrl e) _).trans
        (congrArg _ (findAll_enclosed_avoids hafter _))

lemma isListing_iff (basePath url : Text) : isListing basePath url = true ↔
    basePath ++ "/label/".toList <+: url ∨ basePath ++ "/category/".toList <+: url := by
  have hlabel : basePath ++ '/' :: labelDirectory ++ ['/'] = basePath ++ "/label/".toList := by
    rw [List.append_assoc]
    rfl
  have hcategory : basePath ++ '/' :: categoryDirectory ++ ['/'] = basePath ++ "/category/".toList := by
    rw [List.append_assoc]
    rfl
  simp only [isListing, List.any_cons, List.any_nil, Bool.or_false, Bool.or_eq_true,
    List.isPrefixOf_iff_prefix, hlabel, hcategory]

/-- Reading a sitemap gives the pages whose address is not below that of the labels or of the
categories, each once and in their order: the location is the address of the site without slashes at its
end and the address of the page, and there is a date just if the entry has one that is not empty. -/
theorem read_xml (basePath : Text) (es : List Entry) : read (xml siteUrl basePath es) =
    (es.filter fun e => ¬ (basePath ++ "/label/".toList <+: e.url ∨
      basePath ++ "/category/".toList <+: e.url)).map fun e =>
        ([Text.dropEndWhile (· = '/') siteUrl ++ e.url], (e.date.filter fun d => d ≠ []).toList) := by
  obtain ⟨site, hsite⟩ : ∃ site, site = Text.dropEndWhile (· = '/') siteUrl := ⟨_, rfl⟩
  have hentries : entries basePath es = es.filter fun e => ¬ (basePath ++ "/label/".toList <+: e.url ∨
      basePath ++ "/category/".toList <+: e.url) := by
    refine List.filter_congr fun e _ => ?_
    rw [Bool.eq_iff_iff, Bool.not_eq_true', ← Bool.not_eq_true, isListing_iff, decide_eq_true_eq]
  have hhead : Avoids "<url>".toList (render [tags "<?xml version=\"1.0\" encoding=\"UTF-8\"?>\n",
      tags "<urlset xmlns=\"http://www.sitemaps.org/schemas/sitemap/0.9\">\n"]) :=
    avoids_render rfl rfl
  have hurls : elements "url" (xml siteUrl basePath es) =
      (entries basePath es).map fun e => render (inside site e) := by
    have hrow : render ((entries basePath es).flatMap (location site)) =
        (entries basePath es).flatMap fun e => render (location site e) := List.flatMap_assoc
    rw [← elements_url, xml, ← hsite, render_append, render_append, List.append_assoc, hrow]
    exact findAll_enclosed_avoids hhead _
  rw [read, hurls, List.map_map, hentries, ← hsite]
  refine List.map_congr_left fun e _ => ?_
  simp only [Function.comp_apply, elements_loc, elements_lastmod, List.map_map]
  simp [unescape_escapeShown, Function.comp_def, date?]

example : read "<url><loc>a&amp;b</loc><lastmod>2026</lastmod></url>".toList =
    [(["a&b".toList], ["2026".toList])] := by decide

end Document

end Sitewright.Sitemap
