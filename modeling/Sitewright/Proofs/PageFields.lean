import Sitewright.Page
import Sitewright.Proofs.Result
import Sitewright.Proofs.Writable

/-!
Pages as their headers describe them. Every field is brought to a form that is kept when it is read
again, so a page written as a header of its own is that page.
-/
namespace Sitewright.Page
open Text (Trimmed)

section Describes

/-- What the fields of a header give for each part of a page. -/
structure Describes (fields : Fields) (p : Page) : Prop where
  id : idOf fields = .ok p.id
  kind : kindOf fields p.id = .ok p.kind
  parent : (fieldText (fields.get? "Parent")).map (orElse · rootId) = .ok p.parent
  title : (titleOf fields).map (orElse · p.id) = .ok p.title
  category : fieldText (fields.get? "Category") = .ok p.category
  labels : fieldTexts (fields.get? "Labels") = .ok p.labels
  order : fieldOrder (fields.get? "Order") = p.order
  author : fieldText (fields.get? "Author") = .ok p.author
  date : fieldDate (fields.get? "Date") = .ok p.date
  description : fieldText (fields.get? "Description") = .ok p.description
  keywords : fieldTexts (fields.get? "Keywords") = .ok p.keywords
  template : (fieldText (fields.get? "Template")).map (orElse · defaultTemplate) = .ok p.template

variable {fields : Fields} {p : Page}

lemma describes_of_ofFields (h : ofFields fields = .ok p) : Describes fields p := by
  unfold ofFields at h
  obtain ⟨id, hid, h⟩ := except_bind_ok h
  obtain ⟨kind, hkind, h⟩ := except_bind_ok h
  obtain ⟨parent, hparent, h⟩ := except_bind_ok h
  obtain ⟨title, htitle, h⟩ := except_bind_ok h
  obtain ⟨category, hcategory, h⟩ := except_bind_ok h
  obtain ⟨labels, hlabels, h⟩ := except_bind_ok h
  obtain ⟨author, hauthor, h⟩ := except_bind_ok h
  obtain ⟨date, hdate, h⟩ := except_bind_ok h
  obtain ⟨description, hdescription, h⟩ := except_bind_ok h
  obtain ⟨keywords, hkeywords, h⟩ := except_bind_ok h
  obtain ⟨template, htemplate, h⟩ := except_bind_ok h
  obtain rfl := Except.ok.inj h
  exact ⟨hid, hkind, congrArg _ hparent, congrArg _ htitle, hcategory, hlabels, rfl, hauthor, hdate,
    hdescription, hkeywords, congrArg _ htemplate⟩

lemma Describes.ofFields_eq (h : Describes fields p) : ofFields fields = .ok p := by
  obtain ⟨parent, hparent, hp⟩ := except_map_ok h.parent
  obtain ⟨title, htitle, ht⟩ := except_map_ok h.title
  obtain ⟨template, htemplate, hte⟩ := except_map_ok h.template
  unfold ofFields
  simp only [h.id, h.kind, hparent, htitle, h.category, h.labels, h.author, h.date, h.description,
    h.keywords, htemplate, h.order, hp, ht, hte, bind, Except.bind, pure, Except.pure]

end Describes

section Texts

variable {v : Option Value} {t : Text} {ts : List Text}

lemma valueText_text (ht : Trimmed t) : valueText (.text t) = .ok t := by
  have hstripped : (Value.text t).stripped? = some (Text.strip t) := if_pos rfl
  rw [valueText, hstripped, Text.strip_of_trimmed ht]

lemma trimmed_of_valueText {v : Value} (h : valueText v = .ok t) : Trimmed t := by
  unfold valueText at h
  split at h
  · rename_i t' ht'
    obtain rfl := Except.ok.inj h
    exact Value.trimmed_of_stripped? ht'
  · cases h

lemma trimmed_of_fieldText (h : fieldText v = .ok t) : Trimmed t := by
  unfold fieldText at h
  split at h
  · cases h
    exact Text.trimmed_of_forall (List.forall_mem_nil _)
  · cases h
    exact Text.trimmed_of_forall (List.forall_mem_nil _)
  · exact trimmed_of_valueText h

/-- Texts as a field keeps them: none of them is empty. -/
def AreKept (ts : List Text) : Prop := ∀ t ∈ ts, t ≠ [] ∧ Trimmed t

lemma areKept_of_items {items : List Value}
    (h : ((items.mapM valueText).map fun ts => ts.filter fun t => !t.isEmpty) = .ok ts) : AreKept ts := by
  obtain ⟨all, hall, rfl⟩ := except_map_ok h
  intro t ht
  obtain ⟨hmem, hne⟩ := List.mem_filter.mp ht
  obtain ⟨v, -, hv⟩ := exists_of_mem_mapM hall hmem
  exact ⟨by simpa using hne, trimmed_of_valueText hv⟩

lemma areKept_of_fieldTexts (h : fieldTexts v = .ok ts) : AreKept ts := by
  unfold fieldTexts at h
  dsimp only at h
  split at h
  · cases h
    exact List.forall_mem_nil _
  · cases h
    exact List.forall_mem_nil _
  all_goals exact areKept_of_items h

/-- Kept texts are kept again, in a list or in a tuple. -/
lemma fieldTexts_of_areKept (h : AreKept ts) {group : List Value → Value}
    (hgroup : group = .list ∨ group = .tuple) :
    fieldTexts (some (group (ts.map .text))) = .ok ts := by
  have hmap : (ts.map Value.text).mapM valueText = .ok ts :=
    mapM_ok_iff.mpr (List.forall₂_map_left_iff.mpr
      (List.forall₂_same.mpr fun t ht => valueText_text (h t ht).2))
  have hfilter : ts.filter (fun t => !t.isEmpty) = ts := by
    refine List.filter_eq_self.mpr fun t ht => ?_
    simpa using (h t ht).1
  rcases hgroup with rfl | rfl
  all_goals
    simp only [fieldTexts, hmap]
    exact congrArg Except.ok hfilter

end Texts

section Identifier

variable {fields : Fields} {id : Text}

lemma idOf_eq_ok : idOf fields = .ok id ↔
    fieldText (fields.get? "Short-URI") = .ok id ∧ id ≠ [] ∧ checkId id = .ok () := by
  constructor
  · intro h
    unfold idOf at h
    obtain ⟨t, ht, h⟩ := except_bind_ok h
    split at h
    · cases h
    · rename_i hne
      obtain ⟨u, hcheck, h⟩ := except_bind_ok h
      obtain rfl := Except.ok.inj h
      exact ⟨ht, by simpa using hne, except_mapError_ok hcheck⟩
  · rintro ⟨hid, hne, hcheck⟩
    have hempty : ¬ id.isEmpty = true := by simpa using hne
    unfold idOf
    simp only [hid, hcheck, bind, Except.bind, if_neg hempty]
    rfl

lemma checkId_eq_ok : checkId id = .ok () ↔ isIdText id = true ∧ id ≠ rootId := by
  unfold checkId
  split
  · rename_i h
    simp only [Bool.not_eq_true'] at h
    simp [h]
  · split <;> simp_all

/-- In an identifier without a line feed behind it all characters are those of identifiers. -/
lemma isIdText_iff (h : id.getLast? ≠ some '\n') :
    isIdText id = true ↔ id ≠ [] ∧ ∀ c ∈ id, isIdChar c = true := by
  have hkept : isIdText id = (!id.isEmpty && id.all isIdChar) := by
    unfold isIdText
    split
    · contradiction
    · rfl
  simp [hkept]

end Identifier

section Normal

/-- A page in the form that headers are brought to. Its kind is one of the three there are, and its
date, if any, a plain day. -/
structure IsNormal (p : Page) : Prop where
  id_ne_nil : p.id ≠ []
  id_chars : ∀ c ∈ p.id, isIdChar c = true
  id_ne_root : p.id ≠ rootId
  kind : p.kind.name ∈ ["page", "post", "section"].map String.toList
  title_ne_nil : p.title ≠ []
  parent_ne_nil : p.parent ≠ []
  template_ne_nil : p.template ≠ []
  texts : ∀ t ∈ [p.title, p.category, p.parent, p.author, p.description, p.template], Trimmed t
  labels : AreKept p.labels
  keywords : AreKept p.keywords

/-- A page as a header of its own, its lists given as `group` makes them of texts. -/
def header (group : List Value → Value) (p : Page) : Fields := [
  (.text "Short-URI".toList, .text p.id),
  (.text "title".toList, .text p.title),
  (.text "Type".toList, .text p.kind.name),
  (.text "Category".toList, .text p.category),
  (.text "Labels".toList, group (p.labels.map .text)),
  (.text "Parent".toList, .text p.parent),
  (.text "Order".toList, .int p.order),
  (.text "Author".toList, .text p.author),
  (.text "Date".toList, (p.date.map .date).getD .null),
  (.text "Description".toList, .text p.description),
  (.text "Keywords".toList, group (p.keywords.map .text)),
  (.text "Template".toList, .text p.template)]

variable {fields : Fields} {p : Page}

lemma isBlank_of_isIdChar {c : Char} (h : isIdChar c = true) : Text.isBlank c = false := by
  have hrange : 45 ≤ c.toNat ∧ c.toNat ≤ 122 := by
    delta isIdChar Char.isAlphanum Char.isAlpha Char.isUpper Char.isLower Char.isDigit at h
    simp only [Bool.or_eq_true, Bool.and_eq_true, decide_eq_true_eq, UInt32.le_iff_toNat_le] at h
    rcases h with ((((⟨hlow, hhigh⟩ | ⟨hlow, hhigh⟩) | ⟨hlow, hhigh⟩) | rfl) | rfl)
    case inr | inl.inr => decide
    all_goals
      change _ ≤ c.toNat at hlow
      change c.toNat ≤ _ at hhigh
      simp at hlow hhigh
      omega
  simp only [Text.isBlank, Bool.or_eq_false_iff, Bool.and_eq_false_iff, decide_eq_false_iff_not,
    beq_eq_false_iff_ne]
  omega

lemma trimmed_of_idChars {id : Text} (h : ∀ c ∈ id, isIdChar c = true) : Trimmed id :=
  Text.trimmed_of_forall fun c hc => isBlank_of_isIdChar (h c hc)

lemma trimmed_orElse {t other : Text} (ht : Trimmed t) (hother : Trimmed other) :
    Trimmed (orElse t other) := by
  unfold orElse
  split
  · exact hother
  · exact ht

lemma orElse_ne_nil {t other : Text} (hother : other ≠ []) : orElse t other ≠ [] := by
  unfold orElse
  split
  · exact hother
  · rename_i hne
    simpa using hne

/-- A text that is not empty is not replaced. -/
lemma map_orElse {r : Except PageFailure Text} {t : Text} (h : r = .ok t) (hne : t ≠ [])
    (other : Text) : r.map (orElse · other) = .ok t := by
  have hkept : orElse t other = t := if_neg (by simpa using hne)
  rw [h]
  exact congrArg Except.ok hkept

lemma getLast?_ne_feed {t : Text} (h : Trimmed t) : t.getLast? ≠ some '\n' := by
  intro hfeed
  have hblank := h.2 '\n' hfeed
  revert hblank
  decide

lemma titleOf_eq_ok {t : Text} (h : fieldText (fields.get? "title") = .ok t) (hne : t ≠ []) :
    titleOf fields = .ok t := by
  have hempty : ¬ t.isEmpty = true := by simpa using hne
  unfold titleOf
  simp only [h, bind, Except.bind, if_neg hempty]
  rfl

lemma kindOf_name {k : PageKind} (h : fields.get? "Type" = some (.text k.name)) (id : Text) :
    kindOf fields id = .ok k := by
  unfold kindOf
  rw [h]
  cases k <;> rfl

lemma trimmed_of_titleOf {t : Text} (h : titleOf fields = .ok t) : Trimmed t := by
  unfold titleOf at h
  obtain ⟨title, htitle, h⟩ := except_bind_ok h
  split at h
  · exact trimmed_of_fieldText h
  · obtain rfl := Except.ok.inj h
    exact trimmed_of_fieldText htitle

lemma Describes.isNormal (h : Describes fields p) : p.IsNormal := by
  obtain ⟨hid, hidne, hcheck⟩ := idOf_eq_ok.mp h.id
  obtain ⟨htext, hroot⟩ := checkId_eq_ok.mp hcheck
  obtain ⟨parent, hparent, hp⟩ := except_map_ok h.parent
  obtain ⟨title, htitle, ht⟩ := except_map_ok h.title
  obtain ⟨template, htemplate, hte⟩ := except_map_ok h.template
  have hidtrimmed := trimmed_of_fieldText hid
  have hchars := ((isIdText_iff (getLast?_ne_feed hidtrimmed)).mp htext).2
  constructor
  case id_ne_nil => exact hidne
  case id_chars => exact hchars
  case id_ne_root => exact hroot
  case kind => cases p.kind <;> decide
  case title_ne_nil => exact ht ▸ orElse_ne_nil hidne
  case parent_ne_nil => exact hp ▸ orElse_ne_nil (by decide)
  case template_ne_nil => exact hte ▸ orElse_ne_nil (by decide)
  case texts =>
    intro t hmem
    simp only [List.mem_cons, List.not_mem_nil, or_false] at hmem
    rcases hmem with rfl | rfl | rfl | rfl | rfl | rfl
    · exact ht ▸ trimmed_orElse (trimmed_of_titleOf htitle) hidtrimmed
    · exact trimmed_of_fieldText h.category
    · exact hp ▸ trimmed_orElse (trimmed_of_fieldText hparent)
        (trimmed_of_idChars (List.all_eq_true.mp rfl))
    · exact trimmed_of_fieldText h.author
    · exact trimmed_of_fieldText h.description
    · exact hte ▸ trimmed_orElse (trimmed_of_fieldText htemplate)
        (trimmed_of_idChars (List.all_eq_true.mp rfl))
  case labels => exact areKept_of_fieldTexts h.labels
  case keywords => exact areKept_of_fieldTexts h.keywords

/-- The header of a page in normal form describes that page. -/
lemma IsNormal.describes (h : p.IsNormal) {group : List Value → Value}
    (hgroup : group = .list ∨ group = .tuple) : Describes (p.header group) p := by
  have htext : ∀ t ∈ [p.title, p.category, p.parent, p.author, p.description, p.template],
      fieldText (some (.text t)) = .ok t := fun t ht => valueText_text (h.texts t ht)
  have hidtrimmed := trimmed_of_idChars h.id_chars
  have hid : isIdText p.id = true :=
    (isIdText_iff (getLast?_ne_feed hidtrimmed)).mpr ⟨h.id_ne_nil, h.id_chars⟩
  constructor
  case id =>
    exact idOf_eq_ok.mpr
      ⟨valueText_text hidtrimmed, h.id_ne_nil, checkId_eq_ok.mpr ⟨hid, h.id_ne_root⟩⟩
  case kind => exact kindOf_name rfl _
  case parent => exact map_orElse (htext p.parent (by simp)) h.parent_ne_nil _
  case title =>
    have htitle : fieldText ((p.header group).get? "title") = .ok p.title := htext p.title (by simp)
    exact map_orElse (titleOf_eq_ok htitle h.title_ne_nil) h.title_ne_nil _
  case category => exact htext p.category (by simp)
  case labels => exact fieldTexts_of_areKept h.labels hgroup
  case order => rfl
  case author => exact htext p.author (by simp)
  case date =>
    have hdate : ∀ d : Option Date, fieldDate (some ((d.map .date).getD .null)) = .ok d := by
      rintro (_ | d) <;> rfl
    exact hdate p.date
  case description => exact htext p.description (by simp)
  case keywords => exact fieldTexts_of_areKept h.keywords hgroup
  case template => exact map_orElse (htext p.template (by simp)) h.template_ne_nil _

/-- Reading a header brings its page to normal form, and the page written as a header of its own is
read as that page. -/
theorem ofFields_isNormal (h : ofFields fields = .ok p) :
    p.IsNormal ∧ ∀ group, group = .list ∨ group = .tuple → ofFields (p.header group) = .ok p := by
  have hnormal := (describes_of_ofFields h).isNormal
  exact ⟨hnormal, fun group hgroup => (hnormal.describes hgroup).ofFields_eq⟩

/-- A header whose values are of many kinds. -/
def mixed : Fields := [
  (.text "Short-URI".toList, .int 7),
  (.text "Title".toList, .bool true),
  (.text "Labels".toList, .list [.text " a ".toList, .int 3, .text " ".toList]),
  (.text "Parent".toList, .text " ".toList),
  (.text "Order".toList, .text " 1_0 ".toList),
  (.text "Date".toList, .text "2026-01-31T23:30:00-05:00".toList)]

def mixedPage : Page where
  id := ['7']
  title := "True".toList
  labels := [['a'], ['3']]
  order := 10
  date := some ⟨2026, 2, 1, by decide⟩

theorem ofFields_isNormal_mixed : ofFields mixed = .ok mixedPage ∧ mixedPage.IsNormal ∧
    ofFields (mixedPage.header .list) = .ok mixedPage := by
  have hpage : ofFields mixed = .ok mixedPage := by decide +kernel
  obtain ⟨hnormal, hagain⟩ := ofFields_isNormal hpage
  exact ⟨hpage, hnormal, hagain .list (.inl rfl)⟩

end Normal

end Sitewright.Page
