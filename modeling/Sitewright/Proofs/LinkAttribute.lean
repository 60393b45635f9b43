import Sitewright.Proofs.Hypermedia

/-!
The attribute block of a hypermedia link. Attributes that are written one behind the other, with white
space between them, are read back as they were.
-/
namespace Sitewright.Hypermedia
open Text (spanWhile spanWhile_eq spanWhile_of_head spanWhile_stop)

/-- A key as it stands in a block. -/
structure IsKey (key : Text) : Prop where
  ne_nil : key ≠ []
  chars : ∀ c ∈ key, Text.isBlank c = false ∧ c ≠ '='

/-- The ways in which an attribute is written. -/
inductive Written : Attribute → Text → Prop
  | bare {key : Text} (hkey : IsKey key) : Written ⟨key, none⟩ key
  | quoted {key value : Text} (hkey : IsKey key) (hvalue : '"' ∉ value) :
      Written ⟨key, some value⟩ (key ++ '=' :: '"' :: (value ++ ['"']))
  | plain {key value : Text} (hkey : IsKey key) (hne : value ≠ [])
      (hblank : ∀ c ∈ value, Text.isBlank c = false) (hquote : value.head? ≠ some '"') :
      Written ⟨key, some value⟩ (key ++ '=' :: value)

/-- Attributes in a row, with white space between each two of them. -/
inductive Printed : List Attribute → Text → Prop
  | nil : Printed [] []
  | single {a : Attribute} {t : Text} (h : Written a t) : Printed [a] t
  | cons {a b : Attribute} {as : List Attribute} {t gap s : Text} (h : Written a t) (hgap : gap ≠ [])
      (hblank : ∀ c ∈ gap, Text.isBlank c = true) (rest : Printed (b :: as) s) :
      Printed (a :: b :: as) (t ++ gap ++ s)

section Reading

variable {a : Attribute} {t rest : Text}

lemma findAttribute_local : findAttribute.Local := fun _ _ _ => rfl

lemma IsKey.span {key : Text} (hkey : IsKey key)
    (hrest : ∀ c ∈ rest.head?, Text.isBlank c = true ∨ c = '=') :
    spanWhile (fun c => !Text.isBlank c && c ≠ '=') (key ++ rest) = (key, rest) := by
  refine spanWhile_of_head (fun c hc => ?_) fun c hc => ?_
  · simp [hkey.chars c hc]
  · rcases hrest c hc with hblank | rfl
    · simp [hblank]
    · simp

/-- Behind a key nothing is read that is no value of it. -/
lemma findAttribute_bare {key : Text} (hkey : IsKey key)
    (hrest : ∀ c ∈ rest.head?, Text.isBlank c = true) (before : Text) :
    findAttribute before (key ++ rest) = some ⟨⟨key, none⟩, key.length⟩ := by
  obtain ⟨k, ks, rfl⟩ := List.exists_cons_of_ne_nil hkey.ne_nil
  rw [findAttribute, hkey.span fun c hc => .inl (hrest c hc)]
  cases rest with
  | nil => rfl
  | cons d ds =>
    have hd : d ≠ '=' := by
      rintro rfl
      exact absurd (hrest '=' rfl) (by decide)
    split <;> simp_all

lemma findAttribute_value {key value : Text} {size : ℕ} (hkey : IsKey key)
    (h : valueAfterEquals? rest = some (value, size)) (before : Text) :
    findAttribute before (key ++ '=' :: rest) = some ⟨⟨key, some value⟩, key.length + 1 + size⟩ := by
  obtain ⟨k, ks, rfl⟩ := List.exists_cons_of_ne_nil hkey.ne_nil
  have hspan : spanWhile (fun c => !Text.isBlank c && c ≠ '=') (k :: ks ++ '=' :: rest) =
      (k :: ks, '=' :: rest) := hkey.span (by simp)
  rw [findAttribute, hspan]
  simp only [h]

lemma valueAfterEquals?_quoted {value : Text} (hvalue : '"' ∉ value) :
    valueAfterEquals? ('"' :: (value ++ '"' :: rest)) = some (value, value.length + 2) := by
  have hspan : spanWhile (· ≠ '"') (value ++ '"' :: rest) = (value, '"' :: rest) :=
    spanWhile_stop (fun c hc => decide_eq_true (ne_of_mem_of_not_mem hc hvalue)) (by simp)
  simp only [valueAfterEquals?, hspan]

lemma valueAfterEquals?_plain {value : Text} (hne : value ≠ [])
    (hblank : ∀ c ∈ value, Text.isBlank c = false) (hquote : value.head? ≠ some '"')
    (hrest : ∀ c ∈ rest.head?, Text.isBlank c = true) :
    valueAfterEquals? (value ++ rest) = some (value, value.length) := by
  obtain ⟨v, vs, rfl⟩ := List.exists_cons_of_ne_nil hne
  have hbare : ((v :: vs) ++ rest).takeWhile (fun c => !Text.isBlank c) = v :: vs := by
    have hspan := spanWhile_of_head (p := fun c => !Text.isBlank c) (a := v :: vs) (b := rest)
      (fun c hc => by simp [hblank c hc]) fun c hc => by simp [hrest c hc]
    exact (Prod.mk.inj hspan).1
  have hv : v ≠ '"' := by simpa using hquote
  unfold valueAfterEquals?
  rw [hbare]
  simp only [List.cons_append]
  split
  · rename_i heq
    exact absurd (List.cons.inj heq).1 hv
  · rfl

/-- A written attribute is read up to its end if white space or nothing follows. -/
lemma Written.find (h : Written a t) (hrest : ∀ c ∈ rest.head?, Text.isBlank c = true) (before : Text) :
    findAttribute before (t ++ rest) = some ⟨a, t.length⟩ := by
  cases h with
  | bare hkey => exact findAttribute_bare hkey hrest before
  | @quoted key value hkey hvalue =>
    have hafter : valueAfterEquals? ('"' :: (value ++ '"' :: rest)) = some (value, value.length + 2) :=
      valueAfterEquals?_quoted hvalue
    have hread := findAttribute_value hkey hafter before
    simpa [Nat.add_assoc, Nat.add_comm 1] using hread
  | @plain key value hkey hne hblank hquote =>
    have hread := findAttribute_value hkey (valueAfterEquals?_plain hne hblank hquote hrest) before
    simpa [Nat.add_assoc, Nat.add_comm 1] using hread

lemma Written.ne_nil (h : Written a t) : t ≠ [] := by
  cases h with
  | bare hkey => exact hkey.ne_nil
  | quoted _ _ => simp
  | plain _ _ _ _ => simp

/-- At white space no attribute begins. -/
lemma findAttribute_blank {gap : Text} (hgap : gap ≠ []) (hblank : ∀ c ∈ gap, Text.isBlank c = true)
    (before : Text) : findAttribute before (gap ++ rest) = none := by
  obtain ⟨c, cs, rfl⟩ := List.exists_cons_of_ne_nil hgap
  have hspan : spanWhile (fun c => !Text.isBlank c && c ≠ '=') (c :: cs ++ rest) =
      ([], c :: cs ++ rest) := by
    simp [spanWhile, hblank c List.mem_cons_self]
  simp only [findAttribute, hspan]

/-- The last attribute of a block. -/
lemma attributes_written (h : Written a t) : attributes t = [a] := by
  have hfind : findAttribute [] (t ++ []) = some ⟨a, t.length⟩ :=
    h.find (fun _ hc => absurd hc (Option.not_mem_none _)) []
  have hall := Text.findAll_hit findAttribute_local hfind rfl h.ne_nil
  rwa [List.append_nil] at hall

/-- An attribute with others behind it. -/
lemma attributes_gap {gap s : Text} (h : Written a t) (hgap : gap ≠ [])
    (hblank : ∀ c ∈ gap, Text.isBlank c = true) :
    attributes (t ++ gap ++ s) = a :: attributes s := by
  have hhead : ∀ c ∈ (gap ++ s).head?, Text.isBlank c = true := by
    obtain ⟨c, cs, rfl⟩ := List.exists_cons_of_ne_nil hgap
    intro d hd
    exact hblank d (Option.some.inj hd ▸ List.mem_cons_self)
  have hhit := Text.findAll_hit findAttribute_local (h.find hhead []) rfl h.ne_nil
  have hplain : Text.findAll findAttribute (gap ++ s) = Text.findAll findAttribute s := by
    refine Text.findAll_plain findAttribute_local gap s fun u v huv hv => ?_
    exact findAttribute_blank hv (fun c hc => hblank c (huv ▸ List.mem_append_right u hc)) []
  rw [attributes, List.append_assoc, hhit, hplain]
  rfl

/-- The keys of a block are such as can be written there. -/
lemma isKey_of_mem_attributes {block : Text} (h : a ∈ attributes block) : IsKey a.key := by
  obtain ⟨before, s, hit, -, hfind, rfl⟩ := Text.mem_findAll h
  have hkey : ∀ {key more : Text}, spanWhile (fun c => !Text.isBlank c && c ≠ '=') s = (key, more) →
      key ≠ [] → IsKey key := by
    intro key more hspan hne
    refine ⟨hne, fun c hc => ?_⟩
    simpa using (spanWhile_eq hspan).2 c hc
  unfold findAttribute at hfind
  split at hfind
  · cases hfind
  · rename_i key more hne hspan
    split at hfind
    all_goals
      obtain rfl := Option.some.inj hfind
      exact hkey hspan hne
  · rename_i key more hne _ hspan
    obtain rfl := Option.some.inj hfind
    exact hkey hspan hne

end Reading

/-- A printed list of attributes is read back, whatever the ways in which they are written and the white
space between them. -/
theorem attributes_of_printed {as : List Attribute} {t : Text} (h : Printed as t) : attributes t = as := by
  induction h with
  | nil => rfl
  | single h => exact attributes_written h
  | cons h hgap hblank _ ih => rw [attributes_gap h hgap hblank, ih]

/-- Attributes of every kind: one without a value, an empty value, one with blanks and one with a quote
and an equals sign in it. -/
def mixedAttributes : List Attribute :=
  [⟨"post".toList, none⟩, ⟨"a\"b".toList, some []⟩, ⟨"vals".toList, some " x =y ".toList⟩,
    ⟨"target".toList, some "'#o=ut".toList⟩]

lemma printed_mixed : Printed mixedAttributes "post \t a\"b=\"\"\n\nvals=\" x =y \" target='#o=ut".toList := by
  have hkey : ∀ key ∈ mixedAttributes.map (·.key), IsKey key := by
    have hcheck : ∀ key ∈ mixedAttributes.map (·.key), key ≠ [] ∧
        (key.all fun c => decide (Text.isBlank c = false ∧ c ≠ '=')) = true := by decide
    exact fun key h => ⟨(hcheck key h).1, Text.forall_of_all (hcheck key h).2⟩
  have hlast : Printed (mixedAttributes.drop 3) "target='#o=ut".toList :=
    .single (.plain (hkey "target".toList (by decide)) (by decide) (Text.forall_of_all (by decide)) (by decide))
  have hvals : Printed (mixedAttributes.drop 2) ("vals=\" x =y \"".toList ++ [' '] ++ "target='#o=ut".toList) :=
    .cons (.quoted (hkey "vals".toList (by decide)) (by decide)) (by decide) (Text.forall_of_all (by decide)) hlast
  have hempty : Printed (mixedAttributes.drop 1) ("a\"b=\"\"".toList ++ "\n\n".toList ++
      "vals=\" x =y \" target='#o=ut".toList) :=
    .cons (.quoted (hkey "a\"b".toList (by decide)) (by decide)) (by decide) (Text.forall_of_all (by decide)) hvals
  have hall : Printed mixedAttributes ("post".toList ++ " \t ".toList ++
      "a\"b=\"\"\n\nvals=\" x =y \" target='#o=ut".toList) :=
    .cons (.bare (hkey "post".toList (by decide))) (by decide) (Text.forall_of_all (by decide)) hempty
  exact hall

theorem attributes_of_printed_mixed :
    Printed mixedAttributes "post \t a\"b=\"\"\n\nvals=\" x =y \" target='#o=ut".toList ∧
      attributes "post \t a\"b=\"\"\n\nvals=\" x =y \" target='#o=ut".toList = mixedAttributes :=
  ⟨printed_mixed, attributes_of_printed printed_mixed⟩

end Sitewright.Hypermedia
