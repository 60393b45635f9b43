import Sitewright.Path
import Sitewright.Proofs.Place

/-!
Which documents share an output file. An index page is published in its own directory, every other
document in a directory of its name, so a document and the index page of the directory of that name
meet; nothing else does.
-/
namespace Sitewright.Path

section Output

/-- The stem of an index page. -/
def IsIndex (base : Text) : Prop := base = indexName ∨ '/' :: indexName <:+ base

lemma output_of_isIndex {p : Text} (h : IsIndex (stem p)) : output p = stem p ++ ".html".toList := by
  have hif : (stem p = indexName || ('/' :: indexName).isSuffixOf (stem p)) = true := by
    simpa [IsIndex] using h
  rw [output, if_pos hif]

lemma output_of_not_isIndex {p : Text} (h : ¬ IsIndex (stem p)) :
    output p = stem p ++ '/' :: indexName ++ ".html".toList := by
  have hif : ¬ (stem p = indexName || ('/' :: indexName).isSuffixOf (stem p)) = true := by
    simpa [IsIndex] using h
  rw [output, if_neg hif, List.append_assoc]
  rfl

/-- One document is the index page of the directory that is named after another one, which is none
itself. -/
def IsIndexOf (p q : Text) : Prop := stem p = stem q ++ '/' :: indexName ∧ ¬ IsIndex (stem q)

/-- Two documents are one page: their stems are the same up to the name of an index page. -/
def SharesPage (p q : Text) : Prop := stem p = stem q ∨ IsIndexOf p q ∨ IsIndexOf q p

lemma isIndex_append (base : Text) : IsIndex (base ++ '/' :: indexName) :=
  .inr (List.suffix_append base _)

/-- Two documents have one output file exactly where they are one page. -/
lemma output_eq_output {p q : Text} : output p = output q ↔ SharesPage p q := by
  have hof : ∀ {p q : Text}, IsIndexOf p q → IsIndex (stem p) :=
    fun h => h.1 ▸ isIndex_append _
  have hne : ∀ {p q : Text}, IsIndex (stem p) → ¬ IsIndex (stem q) →
      (SharesPage p q ↔ stem p = stem q ++ '/' :: indexName) := by
    intro p q hp hq
    constructor
    · rintro (h | h | h)
      · exact absurd (h ▸ hp) hq
      · exact h.1
      · exact absurd (hof h) hq
    · exact fun h => .inr (.inl ⟨h, hq⟩)
  by_cases hp : IsIndex (stem p) <;> by_cases hq : IsIndex (stem q)
  · rw [output_of_isIndex hp, output_of_isIndex hq, List.append_cancel_right_eq]
    refine ⟨.inl, ?_⟩
    rintro (h | h | h)
    · exact h
    · exact absurd hq h.2
    · exact absurd hp h.2
  · rw [output_of_isIndex hp, output_of_not_isIndex hq, List.append_cancel_right_eq, hne hp hq]
  · rw [output_of_not_isIndex hp, output_of_isIndex hq, List.append_cancel_right_eq, eq_comm,
      ← hne hq hp, SharesPage, SharesPage, or_comm (a := IsIndexOf q p), eq_comm]
  · rw [output_of_not_isIndex hp, output_of_not_isIndex hq, List.append_cancel_right_eq,
      List.append_cancel_right_eq]
    refine ⟨.inl, ?_⟩
    rintro (h | h | h)
    · exact h
    · exact absurd (hof h) hp
    · exact absurd (hof h) hq

end Output

section Slashes

/-- A path with forward slashes. -/
def slashed (path : Text) : Text := path.map fun c => if c = '\\' then '/' else c

lemma backslash_not_mem_slashed (path : Text) : '\\' ∉ slashed path := by
  intro h
  obtain ⟨c, -, hc⟩ := List.mem_map.mp h
  split at hc
  · cases hc
  · rename_i hne
    exact hne hc

lemma slashed_of_not_mem {path : Text} (h : '\\' ∉ path) : slashed path = path := by
  have hkept : ∀ c ∈ path, (if c = '\\' then '/' else c) = c := by
    intro c hc
    rw [if_neg]
    rintro rfl
    exact h hc
  rw [slashed, List.map_congr_left hkept, List.map_id']

lemma stem_slashed (path : Text) : stem (slashed path) = stem path := by
  rw [stem, ← slashed, slashed_of_not_mem (backslash_not_mem_slashed path)]
  rfl

end Slashes

section Names

variable {directory name : Text}

/-- A path is cut behind its last slash. -/
lemma splitName_append (hname : '/' ∉ name)
    (hdirectory : directory.reverse.takeWhile (· ≠ '/') = []) :
    splitName (directory ++ name) = (directory, name) := by
  have hall : ∀ c ∈ name.reverse, decide (c ≠ '/') = true := by
    intro c hc
    have hne : c ≠ '/' := fun he => hname (he ▸ List.mem_reverse.mp hc)
    simpa using hne
  rw [splitName, List.reverse_append, List.takeWhile_append_of_pos hall, hdirectory,
    List.append_nil, List.reverse_reverse]
  simp

/-- The stem of a name is part of it, and holds more than dots if the extension is cut off. -/
lemma nameStem_cases (name : Text) :
    nameStem name = name ∨ (nameStem name <+: name ∧ ∃ c ∈ nameStem name, c ≠ '.') := by
  unfold nameStem
  split
  · exact .inl rfl
  · rename_i dot before hdrop
    split
    · exact .inl rfl
    · rename_i hdots
      right
      constructor
      · have hsuffix : before <:+ name.reverse :=
          (List.suffix_cons dot before).trans (hdrop ▸ List.dropWhile_suffix _)
        simpa using List.reverse_prefix.mpr hsuffix
      · simpa using hdots

lemma slash_not_mem_nameStem (h : '/' ∉ name) : '/' ∉ nameStem name := by
  rcases nameStem_cases name with he | ⟨hstart, -⟩
  · rwa [he]
  · exact fun hs => h (hstart.subset hs)

lemma nameStem_ne_nil (h : name ≠ []) : nameStem name ≠ [] := by
  rcases nameStem_cases name with he | ⟨-, c, hc, -⟩
  · rwa [he]
  · exact List.ne_nil_of_mem hc

lemma isName_nameStem (h : Place.IsName name) : Place.IsName (nameStem name) := by
  rcases nameStem_cases name with he | ⟨hstart, c, hc, hdot⟩
  · rwa [he]
  · have hne : ∀ n, nameStem name ≠ List.replicate n '.' := by
      intro n he
      exact hdot (List.eq_of_mem_replicate (he ▸ hc))
    exact ⟨⟨hne 0, hne 1, fun hs => h.counts.2.2 (hstart.subset hs)⟩, hne 2⟩

variable {directories : List Text}

lemma stem_join (hname : '/' ∉ name) (hslash : '\\' ∉ Text.join ['/'] (directories ++ [name])) :
    stem (Text.join ['/'] (directories ++ [name])) =
      Text.join ['/'] (directories ++ [nameStem name]) := by
  rw [stem, ← slashed, slashed_of_not_mem hslash]
  by_cases hnil : directories = []
  · subst hnil
    have hname' : splitName ([] ++ name) = ([], name) := splitName_append hname rfl
    exact congrArg (fun s => s.1 ++ nameStem s.2) hname'
  · rw [Text.join_concat _ hnil, Text.join_concat _ hnil, splitName_append hname (by simp)]

lemma isIndex_join (hname : '/' ∉ name) :
    IsIndex (Text.join ['/'] (directories ++ [name])) ↔ name = indexName := by
  have hindex : '/' ∉ indexName := by decide
  constructor
  · intro h
    obtain ⟨front, hfront, hjoin⟩ : ∃ front : Text, front.reverse.takeWhile (· ≠ '/') = [] ∧
        Text.join ['/'] (directories ++ [name]) = front ++ indexName := by
      rcases h with h | ⟨front, h⟩
      · exact ⟨[], rfl, h⟩
      · exact ⟨front ++ ['/'], by simp, by simp [← h]⟩
    obtain ⟨front', hfront', hjoin'⟩ : ∃ front : Text, front.reverse.takeWhile (· ≠ '/') = [] ∧
        Text.join ['/'] (directories ++ [name]) = front ++ name := by
      by_cases hnil : directories = []
      · exact ⟨[], rfl, by simp [hnil, Text.join]⟩
      · exact ⟨Text.join ['/'] directories ++ ['/'], by simp, by rw [Text.join_concat _ hnil]⟩
    have hcut := (splitName_append hname hfront').symm.trans
      ((congrArg splitName (hjoin'.symm.trans hjoin)).trans (splitName_append hindex hfront))
    exact congrArg Prod.snd hcut
  · rintro rfl
    by_cases hnil : directories = []
    · exact .inl (by simp [hnil, Text.join])
    · exact .inr (by rw [Text.join_concat _ hnil, List.append_assoc]; exact List.suffix_append _ _)

/-- The output file of a document by its segments. -/
def outputSegments (directories : List Text) (name : Text) : List Text :=
  if nameStem name = indexName then directories ++ ["index.html".toList]
  else directories ++ [nameStem name] ++ ["index.html".toList]

lemma output_join (hname : '/' ∉ name)
    (hslash : '\\' ∉ Text.join ['/'] (directories ++ [name])) :
    output (Text.join ['/'] (directories ++ [name])) =
      Text.join ['/'] (outputSegments directories name) := by
  have hstem := stem_join hname hslash
  have hindex : IsIndex (Text.join ['/'] (directories ++ [nameStem name])) ↔ nameStem name = indexName :=
    isIndex_join (slash_not_mem_nameStem hname)
  rw [← hstem] at hindex
  unfold outputSegments
  split
  · rename_i h
    rw [output_of_isIndex (hindex.mpr h), hstem, h]
    by_cases hnil : directories = []
    · subst hnil
      rfl
    · rw [Text.join_concat _ hnil, Text.join_concat _ hnil, List.append_assoc]
      rfl
  · rename_i h
    rw [output_of_not_isIndex fun hi => h (hindex.mp hi), hstem,
      Text.join_concat _ (List.concat_ne_nil _ _), List.append_assoc, List.append_assoc]
    rfl

lemma isName_outputSegments (hdirectories : ∀ s ∈ directories, Place.IsName s)
    (hname : Place.IsName name) : ∀ s ∈ outputSegments directories name, Place.IsName s := by
  have hfile : Place.IsName "index.html".toList := ⟨⟨by decide, by decide, by decide⟩, by decide⟩
  intro s hs
  unfold outputSegments at hs
  split at hs
  · rcases List.mem_append.mp hs with hs | hs
    · exact hdirectories s hs
    · exact List.mem_singleton.mp hs ▸ hfile
  · rcases List.mem_append.mp hs with hs | hs
    · rcases List.mem_append.mp hs with hs | hs
      · exact hdirectories s hs
      · exact List.mem_singleton.mp hs ▸ isName_nameStem hname
    · exact List.mem_singleton.mp hs ▸ hfile

/-- The output file of a document without backslashes in its name is made of proper names. -/
lemma exists_outputSegments {n : List Text} (hn : ∀ s ∈ n, Place.IsName s) (hne : n ≠ [])
    (hslash : '\\' ∉ Text.join ['/'] n) :
    ∃ segments, output (Text.join ['/'] n) = Text.join ['/'] segments ∧ segments ≠ [] ∧
      ∀ s ∈ segments, Place.IsName s := by
  obtain ⟨directories, name, rfl⟩ := (List.eq_nil_or_concat' n).resolve_left hne
  have hname := hn name (List.mem_append_right _ (List.mem_singleton_self name))
  refine ⟨_, output_join hname.counts.2.2 hslash, ?_, isName_outputSegments ?_ hname⟩
  · unfold outputSegments
    split <;> exact List.concat_ne_nil _ _
  · exact fun s hs => hn s (List.mem_append_left _ hs)

lemma descends_output {n : List Text} (hn : ∀ s ∈ n, Place.IsName s) (hne : n ≠ [])
    (hslash : '\\' ∉ Text.join ['/'] n) : Place.Descends (output (Text.join ['/'] n)) := by
  obtain ⟨segments, hout, hsne, hsegments⟩ := exists_outputSegments hn hne hslash
  exact hout ▸ Place.descends_join hsne hsegments

/-- Documents without backslashes in their names are written to one file only where they have one
output file by their paths. -/
lemma output_eq_of_locate {working outputDir : Text} (hworking : Place.isAbsolute working = true)
    {n m : List Text} (hn : ∀ s ∈ n, Place.IsName s) (hm : ∀ s ∈ m, Place.IsName s)
    (hnne : n ≠ []) (hmne : m ≠ [])
    (hnslash : '\\' ∉ Text.join ['/'] n) (hmslash : '\\' ∉ Text.join ['/'] m)
    (h : Place.locate working (Place.join outputDir (output (Text.join ['/'] n))) =
      Place.locate working (Place.join outputDir (output (Text.join ['/'] m)))) :
    output (Text.join ['/'] n) = output (Text.join ['/'] m) := by
  have hsegments := (Place.locate_join_eq_iff hworking (descends_output hn hnne hnslash)
    (descends_output hm hmne hmslash)).mp h
  obtain ⟨ns, hno, -, hns⟩ := exists_outputSegments hn hnne hnslash
  obtain ⟨ms, hmo, -, hms⟩ := exists_outputSegments hm hmne hmslash
  rw [hno, hmo] at hsegments ⊢
  rw [Place.segments_join fun s hs => (hns s hs).counts,
    Place.segments_join fun s hs => (hms s hs).counts] at hsegments
  rw [hsegments]

section Pieces

lemma isAbsolute_pieces {s : Text} {rest : List Text} (hs : '/' ∉ s) :
    Place.isAbsolute (Text.join ['/'] (s :: rest)) = true ↔ s = [] ∧ rest ≠ [] := by
  cases s with
  | nil =>
    cases rest with
    | nil => decide
    | cons next rest => simp [Text.join, Place.isAbsolute]
  | cons c cs =>
    have hc : c ≠ '/' := fun he => hs (he ▸ List.mem_cons_self)
    cases rest <;> simp [Text.join, Place.isAbsolute, hc]

/-- Any path by its pieces, with its stem and its output file. -/
lemma exists_pieces (path : Text) : ∃ (directories : List Text) (name : Text),
    (∀ s ∈ directories ++ [name], '/' ∉ s) ∧ slashed path = Text.join ['/'] (directories ++ [name]) ∧
      stem path = Text.join ['/'] (directories ++ [nameStem name]) ∧
      output path = Text.join ['/'] (outputSegments directories name) := by
  obtain ⟨directories, name, hpieces⟩ :=
    (List.eq_nil_or_concat' (Text.splitOn '/' (slashed path))).resolve_left (Text.splitOn_ne_nil _ _)
  have hslashed : slashed path = Text.join ['/'] (directories ++ [name]) := by
    rw [← hpieces, Text.join_splitOn]
  have hfree : ∀ s ∈ directories ++ [name], '/' ∉ s := fun s hs =>
    Text.not_mem_of_mem_splitOn (hpieces ▸ hs)
  have hname : '/' ∉ name := hfree name (List.mem_append_right _ (List.mem_singleton_self name))
  have hslash := backslash_not_mem_slashed path
  rw [hslashed] at hslash
  refine ⟨directories, name, hfree, hslashed, ?_, ?_⟩
  · rw [← stem_slashed, hslashed, stem_join hname hslash]
  · rw [output, ← stem_slashed, hslashed]
    exact output_join hname hslash

end Pieces

end Names

end Sitewright.Path
