import Sitewright.Proofs.LinkElement

/-!
When the HTML of a hypermedia link is one well-formed element. Text, address and values are escaped and
do no harm; the only way to break the tag is a key that is written as it is and holds a quote, a slash or
an angle bracket. A well-formed element is read as it was written.
-/
namespace Sitewright.Hypermedia
open Text (spanWhile spanWhile_stop)

section Reading

/-- White space inside a tag. -/
def isTagSpace (c : Char) : Bool := [' ', '\t', '\n', '\x0c', '\r'].contains c

/-- Where the reading of a start tag stands, with the name and the value read so far. -/
inductive TagState where
  /-- Before the name of an attribute. -/
  | between
  | name (name : Text)
  /-- Behind a name. -/
  | named (name : Text)
  /-- Behind an equals sign. -/
  | equals (name : Text)
  | quoted (quote : Char) (name value : Text)
  | unquoted (name value : Text)

namespace TagState

/-- What one character does: the attribute it completes, and the next state unless it ends the tag. Slashes
part attributes, and a quote ends a value at once. -/
def step : TagState → Char → Option Attribute × Option TagState
  | between, c =>
    if isTagSpace c || c = '/' then (none, some between)
    else if c = '>' then (none, none)
    else (none, some (name [c]))
  | name n, c =>
    if isTagSpace c then (none, some (named n))
    else if c = '/' then (some ⟨n, none⟩, some between)
    else if c = '>' then (some ⟨n, none⟩, none)
    else if c = '=' then (none, some (equals n))
    else (none, some (name (n ++ [c])))
  | named n, c =>
    if isTagSpace c then (none, some (named n))
    else if c = '/' then (some ⟨n, none⟩, some between)
    else if c = '>' then (some ⟨n, none⟩, none)
    else if c = '=' then (none, some (equals n))
    else (some ⟨n, none⟩, some (name [c]))
  | equals n, c =>
    if isTagSpace c then (none, some (equals n))
    else if c = '"' || c = '\'' then (none, some (quoted c n []))
    else if c = '>' then (some ⟨n, some []⟩, none)
    else (none, some (unquoted n [c]))
  | quoted q n v, c =>
    if c = q then (some ⟨n, some v⟩, some between) else (none, some (quoted q n (v ++ [c])))
  | unquoted n v, c =>
    if isTagSpace c then (some ⟨n, some v⟩, some between)
    else if c = '>' then (some ⟨n, some v⟩, none)
    else (none, some (unquoted n (v ++ [c])))

/-- The attributes up to the end of the tag, and what follows the tag. -/
def read : TagState → Text → Option (List Attribute × Text)
  | _, [] => none
  | s, c :: cs =>
    match s.step c with
    | (done, none) => some (done.toList, cs)
    | (done, some next) => (read next cs).map fun (as, rest) => (done.toList ++ as, rest)

end TagState

/-- The element that a whole text is: a start tag, text, and the end tag of the same name. Entities are
left as they are. -/
def Element.read? (t : Text) : Option Element :=
  match t with
  | '<' :: t =>
    let (tag, t) := spanWhile (fun c => !isTagSpace c && c ≠ '/' && c ≠ '>') t
    match TagState.between.read t with
    | some (attributes, t) =>
      let (content, t) := spanWhile (· ≠ '<') t
      if t = "</".toList ++ tag ++ ['>'] then some ⟨tag, attributes, content⟩ else none
    | none => none
  | _ => none

namespace TagState

variable {rest : Text} {a : Attribute}

/-- A character that neither ends a name nor a tag. -/
def IsNameChar (c : Char) : Prop := isTagSpace c = false ∧ c ≠ '/' ∧ c ≠ '>' ∧ c ≠ '='

lemma read_between_name {c : Char} (hc : IsNameChar c) (cs : Text) :
    between.read (c :: cs) = (name [c]).read cs := by
  obtain ⟨hspace, hslash, hmore, -⟩ := hc
  rw [read, step, if_neg (by simp [hspace, hslash]), if_neg hmore]
  simp

lemma read_name (n : Text) {t : Text} (ht : ∀ c ∈ t, IsNameChar c) (rest : Text) :
    (name n).read (t ++ rest) = (name (n ++ t)).read rest := by
  induction t generalizing n with
  | nil => rw [List.nil_append, List.append_nil]
  | cons c cs ih =>
    obtain ⟨hspace, hslash, hmore, hequals⟩ := ht c List.mem_cons_self
    have hstep : (name n).step c = (none, some (name (n ++ [c]))) := by
      rw [step, if_neg (by simp [hspace]), if_neg hslash, if_neg hmore, if_neg hequals]
    rw [List.cons_append, read, hstep]
    simp only [ih _ fun d hd => ht d (List.mem_cons_of_mem _ hd), List.append_assoc, List.singleton_append]
    simp

lemma read_quoted (n v : Text) {q : Char} {t : Text} (ht : q ∉ t) (rest : Text) :
    (quoted q n v).read (t ++ q :: rest) =
      (between.read rest).map fun (as, rest) => (⟨n, some (v ++ t)⟩ :: as, rest) := by
  induction t generalizing v with
  | nil =>
    rw [List.nil_append, read, step, if_pos rfl, List.append_nil]
    rfl
  | cons c cs ih =>
    have hc : c ≠ q := (List.ne_of_not_mem_cons ht).symm
    have hstep : (quoted q n v).step c = (none, some (quoted q n (v ++ [c]))) := by rw [step, if_neg hc]
    rw [List.cons_append, read, hstep]
    simp only [ih _ (List.not_mem_of_not_mem_cons ht), List.append_assoc, List.singleton_append]
    simp [Option.map_map, Function.comp_def]

/-- A name is read to its end. -/
lemma read_between_append {n : Text} (hne : n ≠ []) (hn : ∀ c ∈ n, IsNameChar c) (rest : Text) :
    between.read (n ++ rest) = (name n).read rest := by
  obtain ⟨c, cs, rfl⟩ := List.exists_cons_of_ne_nil hne
  rw [List.cons_append, read_between_name (hn c List.mem_cons_self),
    read_name [c] fun d hd => hn d (List.mem_cons_of_mem _ hd)]
  rfl

/-- An attribute that is read as it is written. -/
structure Clear (a : Attribute) : Prop where
  ne_nil : a.key ≠ []
  key : ∀ c ∈ a.key, IsNameChar c
  value : ∀ v ∈ a.value, '"' ∉ v

/-- An attribute with a quoted value is read up to its closing quote. -/
lemma read_value {n value : Text} (h : Clear ⟨n, some value⟩) (rest : Text) :
    between.read ((⟨n, some value⟩ : Attribute).source ++ rest) =
      (between.read rest).map fun (as, rest) => (⟨n, some value⟩ :: as, rest) := by
  have hsource : (⟨n, some value⟩ : Attribute).source ++ rest = n ++ '=' :: '"' :: (value ++ '"' :: rest) := by
    simp [Attribute.source]
  have hopen : (name n).read ('=' :: '"' :: (value ++ '"' :: rest)) =
      (quoted '"' n []).read (value ++ '"' :: rest) := by
    simp [read, step, isTagSpace]
  rw [hsource, read_between_append h.ne_nil h.key, hopen, read_quoted n [] (h.value value rfl)]
  rfl

/-- An attribute in front of another one. -/
lemma read_space (h : Clear a) {c : Char} (hc : IsNameChar c) (cs : Text) :
    between.read (a.source ++ ' ' :: c :: cs) =
      (between.read (c :: cs)).map fun (as, rest) => (a :: as, rest) := by
  obtain ⟨key, _ | value⟩ := a
  · obtain ⟨hspace, hslash, hmore, hequals⟩ := hc
    have hnamed : (name key).read (' ' :: c :: cs) = (named key).read (c :: cs) := by
      simp [read, step, isTagSpace]
    have hstep : (named key).step c = (some ⟨key, none⟩, some (name [c])) := by
      rw [step, if_neg (by simp [hspace]), if_neg hslash, if_neg hmore, if_neg hequals]
    have hread := read_between_append h.ne_nil h.key (' ' :: c :: cs)
    rw [hnamed, read, hstep] at hread
    rw [read_between_name ⟨hspace, hslash, hmore, hequals⟩]
    exact hread
  · have hblank : between.read (' ' :: c :: cs) = between.read (c :: cs) := by
      simp [read, step, isTagSpace]
    rw [read_value h, hblank]

/-- An attribute at the end of the tag. -/
lemma read_end (h : Clear a) (rest : Text) : between.read (a.source ++ '>' :: rest) = some ([a], rest) := by
  obtain ⟨key, _ | value⟩ := a
  · exact (read_between_append h.ne_nil h.key ('>' :: rest)).trans (by simp [read, step, isTagSpace])
  · rw [read_value h]
    simp [read, step, isTagSpace]

lemma Clear.exists_head (h : Clear a) (as : List Attribute) (rest : Text) :
    ∃ c cs, Text.join [' '] ((a :: as).map Attribute.source) ++ rest = c :: cs ∧ IsNameChar c := by
  obtain ⟨k, ks, hkey⟩ := List.exists_cons_of_ne_nil h.ne_nil
  have hsource : ∃ more, a.source = k :: more := by
    unfold Attribute.source
    split
    · exact ⟨ks, hkey⟩
    · exact ⟨_, by rw [hkey]; rfl⟩
  obtain ⟨more, hsource⟩ := hsource
  refine ⟨k, ?_⟩
  cases as with
  | nil => exact ⟨_, by rw [List.map_cons, List.map_nil, Text.join, hsource]; rfl, h.key k (by simp [hkey])⟩
  | cons b bs => exact ⟨_, by rw [List.map_cons, List.map_cons, Text.join, hsource]; rfl, h.key k (by simp [hkey])⟩

/-- The attributes of a tag are read one after the other. -/
lemma read_join {as : List Attribute} (h : ∀ a ∈ as, Clear a) (rest : Text) :
    between.read (Text.join [' '] (as.map Attribute.source) ++ '>' :: rest) = some (as, rest) := by
  induction as with
  | nil => rfl
  | cons a as ih =>
    have ha := h a List.mem_cons_self
    cases as with
    | nil => exact read_end ha rest
    | cons b bs =>
      have hrest := ih fun a h' => h a (List.mem_cons_of_mem _ h')
      obtain ⟨c, cs, hnext, hc⟩ :=
        (h b (List.mem_cons_of_mem _ List.mem_cons_self)).exists_head bs ('>' :: rest)
      rw [hnext] at hrest
      have hjoin : Text.join [' '] ((a :: b :: bs).map Attribute.source) ++ '>' :: rest =
          a.source ++ ' ' :: c :: cs := by
        rw [← hnext]
        simp [Text.join]
      rw [hjoin, read_space ha hc, hrest]
      rfl

end TagState
end Reading

section WellFormed

/-- The characters that must not stand in the name of an attribute. -/
def marks : List Char := ['"', '\'', '/', '<', '>']

/-- The names that the attributes of a link's element may have. -/
def IsKnown (name : Text) : Prop :=
  name ∈ ["type", "href", "class", "id", "title", "rel"].map String.toList ∨ IsLed name

/-- A well-formed element: its attributes have known names without marks, and no value and no content
leaves its place. -/
structure Element.IsWellFormed (e : Element) : Prop extends e.IsWritten where
  known : ∀ a ∈ e.attributes, IsKnown a.key
  unmarked : ∀ a ∈ e.attributes, ∀ c ∈ a.key, c ∉ marks

lemma isTagSpace_eq_false {c : Char} (h : Text.isBlank c = false) : isTagSpace c = false := by
  have hall : ∀ c ∈ [' ', '\t', '\n', '\x0c', '\r'], Text.isBlank c = true := Text.forall_of_all (by decide)
  rw [isTagSpace, ← Bool.not_eq_true, List.contains_iff_mem]
  intro hc
  rw [hall c hc] at h
  cases h

lemma Element.IsWellFormed.clear {e : Element} (h : e.IsWellFormed) :
    ∀ a ∈ e.attributes, TagState.Clear a := by
  intro a ha
  have hkey := h.names a ha
  refine ⟨hkey.ne_nil, fun c hc => ?_, h.quote_not_mem a ha⟩
  have hmark := h.unmarked a ha c hc
  obtain ⟨hblank, hequals⟩ := hkey.chars c hc
  refine ⟨isTagSpace_eq_false hblank, ?_, ?_, hequals⟩
  · rintro rfl
    exact hmark (by decide)
  · rintro rfl
    exact hmark (by decide)

/-- A well-formed element is read as it was written. -/
lemma Element.IsWellFormed.read?_source {e : Element} (h : e.IsWellFormed) : read? e.source = some e := by
  have htag : ∀ c ∈ e.tag, (!isTagSpace c && c ≠ '/' && c ≠ '>') = true := by
    rcases h.tag with htag | htag
    all_goals
      rw [htag]
      exact Text.forall_of_all (by decide)
  have hsource : e.source = '<' :: (e.tag ++ ' ' :: (Text.join [' '] (e.attributes.map Attribute.source) ++
      '>' :: (e.content ++ '<' :: ('/' :: e.tag ++ ['>'])))) := by
    simp [source, inside]
  have hname : ∀ t : Text, spanWhile (fun c => !isTagSpace c && c ≠ '/' && c ≠ '>') (e.tag ++ ' ' :: t) =
      (e.tag, ' ' :: t) := fun t => spanWhile_stop htag (by decide)
  have hblank : ∀ t : Text, TagState.between.read (' ' :: t) = TagState.between.read t := by
    intro t
    simp [TagState.read, TagState.step, isTagSpace]
  have hcontent : ∀ t : Text, spanWhile (· ≠ '<') (e.content ++ '<' :: t) = (e.content, '<' :: t) :=
    fun t => spanWhile_stop (fun c hc => decide_eq_true fun hless => h.content c hc (by simp [hless])) (by decide)
  rw [hsource, read?]
  simp only [hname, hblank, TagState.read_join h.clear, hcontent]
  exact if_pos rfl

variable {url text block : Text} {a b : Attribute}

/-- The names that need no look at the link hold no marks. -/
lemma unmarked_names : ∀ name ∈ hypermediaKeys.map ("hx-".toList ++ ·) ++ plainKeys ++
    ["type", "hx-get", "href"].map String.toList, ∀ c ∈ name, c ∉ marks := by
  have hall : ∀ name ∈ hypermediaKeys.map ("hx-".toList ++ ·) ++ plainKeys ++
      ["type", "hx-get", "href"].map String.toList, (name.all fun c => decide (c ∉ marks)) = true := by
    decide
  exact fun name hname => Text.forall_of_all (hall name hname)

lemma known_shown (h : a.shown? url = some b) : IsKnown b.key := by
  have hplain : ∀ key ∈ plainKeys, key ∈ ["type", "href", "class", "id", "title", "rel"].map String.toList := by
    decide
  rcases shown?_eq_some h with ⟨-, rfl⟩ | ⟨hkey | hled, rfl⟩
  · exact .inr ⟨"hx-".toList, by decide, List.prefix_append _ _⟩
  · exact .inl (hplain a.key hkey)
  · exact .inr hled

lemma unmarked_shown (hled : IsLed a.key → ∀ c ∈ a.key, c ∉ marks) (h : a.shown? url = some b) :
    ∀ c ∈ b.key, c ∉ marks := by
  rcases shown?_eq_some h with ⟨hkey, rfl⟩ | ⟨hkey | hkey, rfl⟩
  · exact unmarked_names _ (List.mem_append_left _ (List.mem_append_left _ (List.mem_map_of_mem hkey)))
  · exact unmarked_names _ (List.mem_append_left _ (List.mem_append_right _ hkey))
  · exact hled hkey

lemma known_element (url text block : Text) : ∀ b ∈ (element url text block).attributes, IsKnown b.key := by
  have hleads : ∀ name ∈ ["type", "hx-get", "href"].map String.toList,
      name ∈ ["type", "href", "class", "id", "title", "rel"].map String.toList ∨
        ∃ lead ∈ plainKeyLeads, lead <+: name := by decide
  intro b hb
  rcases mem_element hb with hb | ⟨a, -, hb⟩
  · exact hleads b.key (mem_leads hb).1
  · exact known_shown hb

lemma unmarked_element (h : ∀ a ∈ attributes block, IsLed a.key → ∀ c ∈ a.key, c ∉ marks) :
    ∀ b ∈ (element url text block).attributes, ∀ c ∈ b.key, c ∉ marks := by
  intro b hb
  rcases mem_element hb with hb | ⟨a, ha, hb⟩
  · exact unmarked_names b.key (List.mem_append_right _ (mem_leads hb).1)
  · exact unmarked_shown (h a ha) hb

/-- The HTML of a link always is a tag, text and the tag's end, with attributes of known names only. It is
one well-formed element just if no key that is written as it is holds a quote, a slash or an angle bracket;
the text, the address, the values and all other keys do not matter. It is then read as that element and
nothing else. -/
theorem render_isWellFormed_iff (text url block : Text) :
    (∃ e : Element, e.IsWritten ∧ (∀ a ∈ e.attributes, IsKnown a.key) ∧ render text url block = e.source) ∧
      ((∃ e : Element, e.IsWellFormed ∧ render text url block = e.source) ↔
        ∀ a ∈ attributes block, IsLed a.key → ∀ c ∈ a.key, c ∉ marks) ∧
      ∀ e : Element, e.IsWellFormed → render text url block = e.source →
        Element.read? (render text url block) = some e := by
  have hwritten := isWritten_element url text block
  have hknown := known_element url text block
  have hsource := render_eq text url block
  refine ⟨⟨_, hwritten, hknown, hsource⟩,
    ⟨?_, fun h => ⟨_, ⟨hwritten, hknown, unmarked_element h⟩, hsource⟩⟩, ?_⟩
  · rintro ⟨e, he, hother⟩ a ha hled
    obtain rfl := he.source_inj hwritten (hother.symm.trans hsource)
    have hshown : (⟨a.key, a.value.map Text.escapeAttribute⟩ : Attribute) ∈ (element url text block).attributes :=
      List.mem_append_right _ (List.mem_filterMap.mpr ⟨a, ha, shown?_of_isLed hled⟩)
    have hunmarked := he.unmarked _ hshown
    exact hunmarked
  · rintro e he hother
    rw [hother]
    exact he.read?_source

/-- A link whose text, address and values hold all kinds of marks. -/
def markedBlock : Text := "delete confirm=\"<sure> 'x'/\" onclick/=\"a\" data-id".toList

theorem render_isWellFormed_iff_marked :
    (∃ e : Element, e.IsWellFormed ∧ render "</button>".toList "/\">".toList markedBlock = e.source ∧
      Element.read? (render "</button>".toList "/\">".toList markedBlock) = some e) ∧
    ¬ ∃ e : Element, e.IsWellFormed ∧ render ['x'] ['/'] "data-x><script>".toList = e.source := by
  have hnone : ∀ a ∈ attributes markedBlock, (∃ lead ∈ plainKeyLeads, lead <+: a.key) →
      (a.key.all fun c => decide (c ∉ marks)) = true := by decide +kernel
  have hclear : ∀ a ∈ attributes markedBlock, IsLed a.key → ∀ c ∈ a.key, c ∉ marks :=
    fun a ha hled => Text.forall_of_all (hnone a ha hled)
  have hkey : (⟨"data-x><script>".toList, none⟩ : Attribute) ∈ attributes "data-x><script>".toList := by
    decide +kernel
  have hbroken : ¬ ∀ a ∈ attributes "data-x><script>".toList, IsLed a.key → ∀ c ∈ a.key, c ∉ marks :=
    fun h => h _ hkey ⟨"data-".toList, by decide, by decide⟩ '>' (by decide) (by decide)
  obtain ⟨-, hiff, hread⟩ := render_isWellFormed_iff "</button>".toList "/\">".toList markedBlock
  obtain ⟨e, he, hsource⟩ := hiff.mpr hclear
  exact ⟨⟨e, he, hsource, hread e he hsource⟩,
    fun h => hbroken ((render_isWellFormed_iff ['x'] ['/'] "data-x><script>".toList).2.1.mp h)⟩

end WellFormed
end Sitewright.Hypermedia
