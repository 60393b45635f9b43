import Sitewright.Proofs.Escape
import Sitewright.Proofs.LinkAttribute

/-!
The element that a hypermedia link becomes. It is written in one way only, so what is said of its tag
and of its attributes is said of the HTML of the link.
-/
namespace Sitewright.Hypermedia
open Text (mark_not_mem_escapeAttribute mark_not_mem_escapeText)

/-- An attribute as it stands in a tag. -/
def Attribute.source (a : Attribute) : Text :=
  match a.value with
  | none => a.key
  | some value => a.key ++ "=\"".toList ++ value ++ ['"']

/-- An element without others in it. The values of its attributes are those between the quotes. -/
structure Element where
  tag : Text
  attributes : List Attribute
  content : Text
  deriving DecidableEq

namespace Element

/-- What stands between the brackets of the start tag. -/
def inside (e : Element) : Text := e.tag ++ ' ' :: Text.join [' '] (e.attributes.map Attribute.source)

def source (e : Element) : Text :=
  '<' :: e.inside ++ '>' :: e.content ++ "</".toList ++ e.tag ++ ['>']

/-- The names of the attributes are words, and no value and no content leaves its place. -/
structure IsWritten (e : Element) : Prop where
  tag : e.tag = "a".toList ∨ e.tag = "button".toList
  names : ∀ a ∈ e.attributes, IsKey a.key
  values : ∀ a ∈ e.attributes, ∀ value ∈ a.value, ∀ c ∈ value, c ∉ ['<', '>', '"']
  content : ∀ c ∈ e.content, c ∉ ['<', '>']

end Element

section Unique

lemma Attribute.written {a : Attribute} (hkey : IsKey a.key) (hvalue : ∀ value ∈ a.value, '"' ∉ value) :
    Written a a.source := by
  obtain ⟨key, _ | value⟩ := a
  · exact .bare hkey
  · have hwritten := Written.quoted hkey (hvalue value rfl)
    simpa [Attribute.source] using hwritten

/-- The attributes of a tag are read back as those of a block are. -/
lemma attributes_join {as : List Attribute} (hkeys : ∀ a ∈ as, IsKey a.key)
    (hvalues : ∀ a ∈ as, ∀ value ∈ a.value, '"' ∉ value) :
    attributes (Text.join [' '] (as.map Attribute.source)) = as := by
  induction as with
  | nil => rfl
  | cons a as ih =>
    have ha := Attribute.written (hkeys a List.mem_cons_self) (hvalues a List.mem_cons_self)
    cases as with
    | nil => exact attributes_written ha
    | cons b bs =>
      have hrest := ih (fun a h => hkeys a (List.mem_cons_of_mem _ h))
        fun a h => hvalues a (List.mem_cons_of_mem _ h)
      exact (attributes_gap ha (List.cons_ne_nil _ _) (Text.forall_of_all (by decide))).trans (congrArg (a :: ·) hrest)

variable {e e' : Element}

lemma Element.IsWritten.quote_not_mem (h : e.IsWritten) : ∀ a ∈ e.attributes, ∀ value ∈ a.value,
    '"' ∉ value := fun a ha value hvalue hc => h.values a ha value hvalue '"' hc (by decide)

/-- An element whose keys hold no bracket has none among its attributes. -/
lemma Element.IsWritten.bracket_not_mem_join (h : e.IsWritten) (hkeys : ∀ a ∈ e.attributes, '<' ∉ a.key) :
    '<' ∉ Text.join [' '] (e.attributes.map Attribute.source) := by
  intro hmem
  rcases Text.mem_join hmem with hmem | ⟨w, hw, hmem⟩
  · exact absurd hmem (by decide)
  · obtain ⟨a, ha, rfl⟩ := List.mem_map.mp hw
    have hkey := hkeys a ha
    unfold Attribute.source at hmem
    split at hmem
    · exact hkey hmem
    · rename_i value hvalue
      have hclean : '<' ∉ value := fun hc => h.values a ha value hvalue '<' hc (by decide)
      simp [hkey, hclean] at hmem

/-- An element is written in one way: its parts are cut off from the end, and its attributes are read
back. -/
lemma Element.IsWritten.source_inj (h : e.IsWritten) (h' : e'.IsWritten) (heq : e.source = e'.source) :
    e = e' := by
  have htag : ∀ {e : Element}, e.IsWritten → ' ' ∉ e.tag ∧ '<' ∉ '/' :: e.tag ++ ['>'] := by
    intro e h
    rcases h.tag with htag | htag
    all_goals
      rw [htag]
      decide
  have hsource : ∀ e : Element, e.source =
      ('<' :: e.inside ++ '>' :: e.content) ++ '<' :: ('/' :: e.tag ++ ['>']) := by
    intro e
    simp [source]
  rw [hsource e, hsource e'] at heq
  obtain ⟨hfront, -⟩ := Text.append_cons_inj_last heq (htag h).2 (htag h').2
  obtain ⟨hinside, hcontent⟩ := Text.append_cons_inj_last hfront
    (fun hc => h.content '>' hc (by decide)) fun hc => h'.content '>' hc (by decide)
  obtain ⟨hname, hattributes⟩ := Text.append_cons_inj (List.cons.inj hinside).2 (htag h).1 (htag h').1
  have hread := congrArg Hypermedia.attributes hattributes
  rw [attributes_join h.names h.quote_not_mem, attributes_join h'.names h'.quote_not_mem] at hread
  cases e
  cases e'
  simp_all

end Unique

section Link

variable (url : Text)

/-- A key that is written as it is because of its beginning. -/
def IsLed (key : Text) : Prop := ∃ lead ∈ plainKeyLeads, lead <+: key

/-- What an attribute of a link is in its element, none if it means nothing there. -/
def Attribute.shown? (a : Attribute) : Option Attribute :=
  if hypermediaKeys.contains a.key then
    let value := a.value.getD (if verbs.contains a.key then url else "true".toList)
    some ⟨"hx-".toList ++ a.key, some (Text.escapeAttribute value)⟩
  else if plainKeys.contains a.key || plainKeyLeads.any (·.isPrefixOf a.key) then
    some ⟨a.key, a.value.map Text.escapeAttribute⟩
  else none

/-- The attributes that an element starts with. -/
def leads (keys : List Text) : List Attribute :=
  if keys.any controlKeys.contains then
    ⟨"type".toList, some "button".toList⟩ ::
      (if keys.any verbs.contains then [] else [⟨"hx-get".toList, some (Text.escapeAttribute url)⟩])
  else [⟨"href".toList, some (Text.escapeAttribute url)⟩]

/-- The element of a link. -/
def element (text block : Text) : Element where
  tag := (if ((attributes block).map (·.key)).any controlKeys.contains then "button" else "a").toList
  attributes := leads url ((attributes block).map (·.key)) ++ (attributes block).filterMap (·.shown? url)
  content := Text.escapeText text

variable {url} {a b : Attribute} {keys : List Text} {text block : Text}

lemma writeAttribute?_eq (a : Attribute) : writeAttribute? url a = (a.shown? url).map Attribute.source := by
  unfold writeAttribute? Attribute.shown?
  split
  · rfl
  · split
    · cases a.value <;> simp [Attribute.source, quoted]
    · rfl

lemma leadAttributes_eq (keys : List Text) :
    leadAttributes url keys = (leads url keys).map Attribute.source := by
  unfold leadAttributes leads
  split
  · split <;> rfl
  · rfl

lemma render_eq (text url block : Text) : render text url block = (element url text block).source := by
  have hshown : (attributes block).filterMap (writeAttribute? url) =
      ((attributes block).filterMap (·.shown? url)).map Attribute.source := by
    rw [List.map_filterMap]
    exact List.filterMap_congr fun a _ => writeAttribute?_eq a
  rw [render, leadAttributes_eq, hshown]
  simp [Element.source, Element.inside, element]

/-- The ways in which an attribute comes to an element. -/
lemma shown?_eq_some (h : a.shown? url = some b) :
    (a.key ∈ hypermediaKeys ∧ b = ⟨"hx-".toList ++ a.key, some (Text.escapeAttribute
      (a.value.getD (if verbs.contains a.key then url else "true".toList)))⟩) ∨
    (a.key ∈ plainKeys ∨ IsLed a.key) ∧ b = ⟨a.key, a.value.map Text.escapeAttribute⟩ := by
  unfold Attribute.shown? at h
  split at h
  · rename_i hkey
    exact .inl ⟨List.contains_iff_mem.mp hkey, (Option.some.inj h).symm⟩
  · split at h
    · rename_i hkey
      refine .inr ⟨?_, (Option.some.inj h).symm⟩
      simpa [IsLed, List.any_eq_true, List.isPrefixOf_iff_prefix] using hkey
    · cases h

lemma not_isLed_of_mem_hypermediaKeys {key : Text} (h : key ∈ hypermediaKeys) : ¬ IsLed key := by
  have hall : ∀ key ∈ hypermediaKeys, ∀ lead ∈ plainKeyLeads, ¬ lead <+: key := by decide
  exact fun ⟨lead, hlead, hprefix⟩ => hall key h lead hlead hprefix

lemma shown?_of_isLed (h : IsLed a.key) :
    a.shown? url = some ⟨a.key, a.value.map Text.escapeAttribute⟩ := by
  have hnot : hypermediaKeys.contains a.key = false := by
    rw [← Bool.not_eq_true, List.contains_iff_mem]
    exact fun hkey => not_isLed_of_mem_hypermediaKeys hkey h
  have hled : plainKeyLeads.any (·.isPrefixOf a.key) = true := by
    simpa [IsLed, List.any_eq_true, List.isPrefixOf_iff_prefix] using h
  simp only [Attribute.shown?, hnot, hled, Bool.or_true, if_true, Bool.false_eq_true, if_false]

lemma mem_leads (h : b ∈ leads url keys) : b.key ∈ ["type", "hx-get", "href"].map String.toList ∧
    (b.value = some "button".toList ∨ b.value = some (Text.escapeAttribute url)) := by
  unfold leads at h
  split at h
  · rcases List.mem_cons.mp h with rfl | h
    · exact ⟨by decide, .inl rfl⟩
    · split at h
      · cases h
      · obtain rfl := List.mem_singleton.mp h
        exact ⟨by simp, .inr rfl⟩
  · obtain rfl := List.mem_singleton.mp h
    exact ⟨by simp, .inr rfl⟩

/-- Every attribute of an element is one it starts with or comes from an attribute of the link. -/
lemma mem_element (h : b ∈ (element url text block).attributes) :
    b ∈ leads url ((attributes block).map (·.key)) ∨ ∃ a ∈ attributes block, a.shown? url = some b :=
  (List.mem_append.mp h).imp_right List.mem_filterMap.mp

lemma isKey_shown (hkey : IsKey a.key) (h : a.shown? url = some b) : IsKey b.key := by
  rcases shown?_eq_some h with ⟨-, rfl⟩ | ⟨-, rfl⟩
  · have hlead : ∀ c ∈ "hx-".toList, Text.isBlank c = false ∧ c ≠ '=' := Text.forall_of_all (by decide)
    exact ⟨by simp, fun c hc => (List.mem_append.mp hc).elim (hlead c) (hkey.chars c)⟩
  · exact hkey

/-- The value of an attribute in an element is escaped. -/
lemma escaped_shown (h : a.shown? url = some b) {value : Text} (hvalue : value ∈ b.value) :
    ∃ v, value = Text.escapeAttribute v := by
  rcases shown?_eq_some h with ⟨-, rfl⟩ | ⟨-, rfl⟩
  · exact ⟨_, (Option.some.inj hvalue).symm⟩
  · obtain ⟨v, -, rfl⟩ := Option.map_eq_some_iff.mp hvalue
    exact ⟨v, rfl⟩

/-- The element of a link is written as it should, whatever the link holds. -/
lemma isWritten_element (url text block : Text) : (element url text block).IsWritten := by
  have hmarks : ∀ c ∈ ['<', '>', '"'], c ∈ ['<', '>', '"', '\''] := Text.forall_of_all (by decide)
  have hescaped : ∀ v : Text, ∀ c ∈ Text.escapeAttribute v, c ∉ ['<', '>', '"'] :=
    fun v c hc hmark => mark_not_mem_escapeAttribute hc (hmarks c hmark)
  constructor
  case tag =>
    unfold element
    dsimp only
    split
    · exact .inr rfl
    · exact .inl rfl
  case names =>
    intro b hb
    rcases mem_element hb with hb | ⟨a, ha, hb⟩
    · have hkeys : ∀ key ∈ ["type", "hx-get", "href"].map String.toList, key ≠ [] ∧
          (key.all fun c => decide (Text.isBlank c = false ∧ c ≠ '=')) = true := by decide
      obtain ⟨hne, hchars⟩ := hkeys b.key (mem_leads hb).1
      exact ⟨hne, Text.forall_of_all hchars⟩
    · exact isKey_shown (isKey_of_mem_attributes ha) hb
  case values =>
    intro b hb value hvalue
    rcases mem_element hb with hb | ⟨a, -, hb⟩
    · rcases (mem_leads hb).2 with hbutton | hurl
      · obtain rfl := Option.some.inj (hbutton.symm.trans hvalue)
        exact Text.forall_of_all (by decide)
      · obtain rfl := Option.some.inj (hurl.symm.trans hvalue)
        exact hescaped url
    · obtain ⟨v, rfl⟩ := escaped_shown hb hvalue
      exact hescaped v
  case content => exact fun c hc => mark_not_mem_escapeText hc

end Link

end Sitewright.Hypermedia
