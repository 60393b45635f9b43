import Sitewright.Proofs.LinkElement

/-!
The requests that the element of a hypermedia link makes. They are those that its author wrote, in either
spelling, and one more in front of them if the element is a button and none is written in the short
spelling.
-/
namespace Sitewright.Hypermedia

/-- The names of the attributes that make a request. -/
def requestNames : List Text := verbs.map ("hx-".toList ++ ·)

/-- The requests of an element. -/
def Element.requests (e : Element) : List Attribute := e.attributes.filter (requestNames.contains ·.key)

/-- The request that an attribute of a link asks for, in the short spelling of its key or in the long one. -/
def Attribute.request? (url : Text) (a : Attribute) : Option Attribute :=
  if verbs.contains a.key then some ⟨"hx-".toList ++ a.key, some (Text.escapeAttribute (a.value.getD url))⟩
  else if requestNames.contains a.key then some ⟨a.key, a.value.map Text.escapeAttribute⟩
  else none

/-- The requests that the author of a block wrote. -/
def requestsOf (url block : Text) : List Attribute := (attributes block).filterMap (·.request? url)

section Keys

variable {key : Text}

lemma isLed_of_mem_requestNames (h : key ∈ requestNames) : IsLed key := by
  have hall : ∀ key ∈ requestNames, "hx-".toList <+: key := by decide
  exact ⟨"hx-".toList, by decide, hall key h⟩

lemma mem_hypermediaKeys_of_mem_verbs (h : key ∈ verbs) : key ∈ hypermediaKeys :=
  List.mem_append_left _ h

lemma mem_requestNames_append : "hx-".toList ++ key ∈ requestNames ↔ key ∈ verbs := by
  simp only [requestNames, List.mem_map, List.append_cancel_left_eq, exists_eq_right]

lemma any_contains_iff {block : Text} {names : List Text} :
    ((attributes block).map (·.key)).any names.contains = true ↔
      ∃ a ∈ attributes block, a.key ∈ names := by
  simp [List.any_eq_true]

end Keys

section Requests

variable {url : Text} {a : Attribute}

lemma request?_of_mem_verbs (h : a.key ∈ verbs) : a.request? url =
    some ⟨"hx-".toList ++ a.key, some (Text.escapeAttribute (a.value.getD url))⟩ :=
  if_pos (List.contains_iff_mem.mpr h)

lemma request?_of_not_mem_verbs (h : a.key ∉ verbs) : a.request? url =
    if requestNames.contains a.key then some ⟨a.key, a.value.map Text.escapeAttribute⟩ else none :=
  if_neg (mt List.contains_iff_mem.mp h)

lemma shown?_of_mem_hypermediaKeys (h : a.key ∈ hypermediaKeys) : a.shown? url =
    some ⟨"hx-".toList ++ a.key, some (Text.escapeAttribute
      (a.value.getD (if verbs.contains a.key then url else "true".toList)))⟩ :=
  if_pos (List.contains_iff_mem.mpr h)

/-- An attribute makes a request in the element just if its author wrote a request. -/
lemma filter_shown? (a : Attribute) :
    (a.shown? url).filter (requestNames.contains ·.key) = a.request? url := by
  by_cases hverb : a.key ∈ verbs
  · have hname : requestNames.contains ("hx-".toList ++ a.key) = true :=
      List.contains_iff_mem.mpr (mem_requestNames_append.mpr hverb)
    have hcontains : verbs.contains a.key = true := List.contains_iff_mem.mpr hverb
    rw [shown?_of_mem_hypermediaKeys (mem_hypermediaKeys_of_mem_verbs hverb), request?_of_mem_verbs hverb,
      Option.filter_some, if_pos hname, if_pos hcontains]
  · rw [request?_of_not_mem_verbs hverb]
    by_cases hname : a.key ∈ requestNames
    · have hcontains : requestNames.contains a.key = true := List.contains_iff_mem.mpr hname
      rw [shown?_of_isLed (isLed_of_mem_requestNames hname), Option.filter_some]
    · rw [if_neg (mt List.contains_iff_mem.mp hname)]
      rw [Option.filter_eq_none_iff]
      intro b hb hcontains
      rw [List.contains_iff_mem] at hcontains
      rcases shown?_eq_some hb with ⟨-, rfl⟩ | ⟨-, rfl⟩
      · exact hverb (mem_requestNames_append.mp hcontains)
      · exact hname hcontains

lemma filter_leads (keys : List Text) : (leads url keys).filter (requestNames.contains ·.key) =
    if keys.any controlKeys.contains ∧ ¬ keys.any verbs.contains then
      [⟨"hx-get".toList, some (Text.escapeAttribute url)⟩] else [] := by
  unfold leads
  by_cases hcontrol : keys.any controlKeys.contains = true
  · rw [if_pos hcontrol]
    by_cases hverb : keys.any verbs.contains = true
    · rw [if_pos hverb, if_neg fun h => h.2 hverb]
      rfl
    · rw [if_neg hverb, if_pos ⟨hcontrol, hverb⟩]
      rfl
  · rw [if_neg hcontrol, if_neg fun h => hcontrol h.1]
    rfl

end Requests

variable (text url block : Text)

lemma requests_element : (element url text block).requests =
    (if (∃ a ∈ attributes block, a.key ∈ controlKeys) ∧ ∀ a ∈ attributes block, a.key ∉ verbs then
      [⟨"hx-get".toList, some (Text.escapeAttribute url)⟩] else []) ++ requestsOf url block := by
  have hown : ((attributes block).filterMap (·.shown? url)).filter (requestNames.contains ·.key) =
      requestsOf url block := by
    rw [List.filter_filterMap]
    exact List.filterMap_congr fun a _ => filter_shown? a
  rw [Element.requests, element, List.filter_append, hown, filter_leads]
  simp only [any_contains_iff, not_exists, not_and]

lemma tag_element : (element url text block).tag = "button".toList ↔
    ∃ a ∈ attributes block, a.key ∈ controlKeys := by
  have hother : "a".toList ≠ "button".toList := by decide
  rw [← any_contains_iff, element]
  dsimp only
  split
  · rename_i hcontrol
    exact iff_of_true rfl hcontrol
  · rename_i hcontrol
    exact iff_of_false hother hcontrol

lemma requestsOf_ne_nil_iff : requestsOf url block ≠ [] ↔
    ∃ a ∈ attributes block, a.key ∈ verbs ∨ a.key ∈ requestNames := by
  constructor
  · intro hne
    obtain ⟨b, hb⟩ := List.exists_mem_of_ne_nil _ hne
    obtain ⟨a, ha, hb⟩ := List.mem_filterMap.mp hb
    refine ⟨a, ha, ?_⟩
    by_cases hverb : a.key ∈ verbs
    · exact .inl hverb
    · rw [request?_of_not_mem_verbs hverb, Option.ite_none_right_eq_some] at hb
      exact .inr (List.contains_iff_mem.mp hb.1)
  · rintro ⟨a, ha, hkey⟩
    by_cases hverb : a.key ∈ verbs
    · exact List.ne_nil_of_mem (List.mem_filterMap.mpr ⟨a, ha, request?_of_mem_verbs hverb⟩)
    · have hname := List.contains_iff_mem.mpr (hkey.resolve_left hverb)
      exact List.ne_nil_of_mem
        (List.mem_filterMap.mpr ⟨a, ha, (request?_of_not_mem_verbs hverb).trans (if_pos hname)⟩)

/-- One more in front makes a list another one. -/
lemma ite_append_ne_iff {α : Type} {p : Prop} [Decidable p] {x : α} {xs : List α} :
    (if p then [x] else []) ++ xs ≠ xs ↔ p := by
  by_cases h : p
  · simp [h]
  · simp [h]

/-- The link becomes one element. It is a button if a control key is written, its requests are the
author's own behind the usual one of a button without a short verb, and a button always makes a request.
The usual request stands beside one of the author's just if a trigger makes the button and all verbs are
written in the long spelling. -/
theorem render_requests : ∃ e : Element, e.IsWritten ∧ render text url block = e.source ∧
    (e.tag = "button".toList ↔ ∃ a ∈ attributes block, a.key ∈ controlKeys) ∧
    e.requests = (if e.tag = "button".toList ∧ ∀ a ∈ attributes block, a.key ∉ verbs then
      [⟨"hx-get".toList, some (Text.escapeAttribute url)⟩] else []) ++ requestsOf url block ∧
    (e.tag = "button".toList → e.requests ≠ []) ∧
    (requestsOf url block ≠ [] ∧ e.requests ≠ requestsOf url block ↔
      (∃ a ∈ attributes block, a.key = "trigger".toList) ∧ (∀ a ∈ attributes block, a.key ∉ verbs) ∧
        ∃ a ∈ attributes block, a.key ∈ requestNames) := by
  have htag := tag_element text url block
  have hrequests := requests_element text url block
  refine ⟨element url text block, isWritten_element url text block, render_eq text url block, htag, ?_, ?_, ?_⟩
  · simpa only [htag] using hrequests
  · intro hbutton hnil
    rw [hrequests, List.append_eq_nil_iff] at hnil
    obtain ⟨husual, hown⟩ := hnil
    have hnone : ∀ a ∈ attributes block, a.key ∉ verbs := fun a ha hverb =>
      (requestsOf_ne_nil_iff url block).mpr ⟨a, ha, .inl hverb⟩ hown
    rw [if_pos ⟨htag.mp hbutton, hnone⟩] at husual
    cases husual
  · rw [hrequests, ite_append_ne_iff, requestsOf_ne_nil_iff]
    have hcontrol : ∀ {key : Text}, key ∈ controlKeys → key = "trigger".toList ∨ key ∈ verbs := by
      decide
    constructor
    · rintro ⟨⟨a, ha, hkey⟩, ⟨b, hb, hbutton⟩, hnone⟩
      exact ⟨⟨b, hb, (hcontrol hbutton).resolve_right (hnone b hb)⟩, hnone, a, ha,
        hkey.resolve_left (hnone a ha)⟩
    · rintro ⟨⟨b, hb, htrigger⟩, hnone, a, ha, hkey⟩
      exact ⟨⟨a, ha, .inr hkey⟩, ⟨b, hb, htrigger ▸ by decide⟩, hnone⟩

-- the usual request in front of the author's own
example : (element ['/'] [] "trigger=click hx-post=\"/save\"".toList).requests.map (·.key) =
    ["hx-get", "hx-post"].map String.toList := by decide +kernel

end Sitewright.Hypermedia
