import Sitewright.Proofs.Address

/-!
Which navigation links cover a page. The test is one on texts: the base path is taken off the link,
and what is left has to begin the address of the page. On addresses of documents it comes to the
segments: the root covers itself only, and any other address covers those that go on from it.
-/
namespace Sitewright

namespace Text

variable {sep : Char} {a b : Text}

/-- The pieces of one text begin those of another one where the text ends at a separator of it. -/
lemma splitOn_prefix_iff : splitOn sep a <+: splitOn sep b ↔ b = a ∨ a ++ [sep] <+: b := by
  constructor
  · rintro ⟨rest, hrest⟩
    by_cases hnil : rest = []
    · left
      rw [← join_splitOn sep b, ← hrest, hnil, List.append_nil, join_splitOn]
    · right
      have hfree : ∀ part ∈ rest, sep ∉ part := fun part hpart =>
        not_mem_of_mem_splitOn (hrest ▸ List.mem_append_right _ hpart)
      have hsplit : splitOn sep (a ++ sep :: join [sep] rest) = splitOn sep b := by
        rw [splitOn_append, splitOn_join hnil hfree, hrest]
      have hb : a ++ sep :: join [sep] rest = b := by
        rw [← join_splitOn sep b, ← hsplit, join_splitOn]
      exact ⟨join [sep] rest, by rw [← hb, List.append_assoc]; rfl⟩
  · rintro (rfl | ⟨rest, rfl⟩)
    · exact List.prefix_rfl
    · rw [List.append_assoc, List.singleton_append, splitOn_append]
      exact List.prefix_append _ _

/-- Behind a separator, a text whose pieces are all there does not end with one. -/
lemma dropEndWhile_of_splitOn (h : [] ∉ splitOn sep a) :
    dropEndWhile (· = sep) (sep :: a) = sep :: a := by
  rcases List.eq_nil_or_concat' a with rfl | ⟨front, c, rfl⟩
  · exact absurd List.mem_cons_self h
  · have hc : c ≠ sep := by
      rintro rfl
      exact h (by rw [splitOn_append]; exact List.mem_append_right _ List.mem_cons_self)
    simp [dropEndWhile, hc]

end Text

namespace Path

/-- A path of segments that are all there, with forward slashes only. -/
structure IsSegmented (path : Text) : Prop where
  named : [] ∉ Text.splitOn '/' path
  forward : '\\' ∉ path

variable {path : Text}

lemma isAbsolute_of_splitOn {page : Text} (h : [] ∉ Text.splitOn '/' page) :
    Place.isAbsolute page = false := by
  rw [Place.isAbsolute, decide_eq_false_iff_not]
  intro hhead
  obtain ⟨rest, rfl⟩ := List.head?_eq_some_iff.mp hhead
  exact h (by rw [Text.splitOn, if_pos rfl]; exact List.mem_cons_self)

/-- The stem of a path of segments has the same segments, the last one without its extension. -/
lemma splitOn_stem (h : IsSegmented path) : ∃ directories name,
    stem path = Text.join ['/'] (directories ++ [name]) ∧
      ∀ s ∈ directories ++ [name], s ≠ [] ∧ '/' ∉ s := by
  obtain ⟨directories, name, hpieces⟩ :=
    (List.eq_nil_or_concat' (Text.splitOn '/' path)).resolve_left (Text.splitOn_ne_nil _ _)
  have hpath : path = Text.join ['/'] (directories ++ [name]) := by
    rw [← hpieces, Text.join_splitOn]
  have hgood : ∀ s ∈ directories ++ [name], s ≠ [] ∧ '/' ∉ s := fun s hs =>
    ⟨fun he => h.named (hpieces ▸ he ▸ hs), Text.not_mem_of_mem_splitOn (hpieces ▸ hs)⟩
  obtain ⟨hne, hslash⟩ := hgood name (List.mem_append_right _ (List.mem_singleton_self name))
  refine ⟨directories, nameStem name, ?_, fun s hs => ?_⟩
  · have hforward := h.forward
    rw [hpath] at hforward ⊢
    exact stem_join hslash hforward
  · rcases List.mem_append.mp hs with hs | hs
    · exact hgood s (List.mem_append_left _ hs)
    · obtain rfl := List.mem_singleton.mp hs
      exact ⟨nameStem_ne_nil hne, slash_not_mem_nameStem hslash⟩

lemma nil_not_mem_splitOn_join {segments : List Text} (hne : segments ≠ [])
    (h : ∀ s ∈ segments, s ≠ [] ∧ '/' ∉ s) : [] ∉ Text.splitOn '/' (Text.join ['/'] segments) := by
  rw [Text.splitOn_join hne fun s hs => (h s hs).2]
  exact fun hnil => (h [] hnil).1 rfl

/-- The address of a path of segments is the root, or a slash and segments that are all there. -/
lemma url_segments (h : IsSegmented path) :
    url path [] = ['/'] ∨ ∃ page, url path [] = '/' :: page ∧ [] ∉ Text.splitOn '/' page := by
  by_cases hroot : stem path = indexName
  · exact .inl (url_of_eq_indexName hroot)
  right
  obtain ⟨directories, name, hstem, hgood⟩ := splitOn_stem h
  have hname := hgood name (List.mem_append_right _ (List.mem_singleton_self name))
  have hindex : IsIndex (stem path) ↔ name = indexName := hstem ▸ isIndex_join hname.2
  by_cases hcut : name = indexName
  · -- the index page of a directory is published under the name of the directory
    have hdirectories : directories ≠ [] := by
      rintro rfl
      exact hroot (by rw [hstem, hcut]; rfl)
    have hpage := nil_not_mem_splitOn_join hdirectories fun s hs => hgood s (List.mem_append_left _ hs)
    refine ⟨_, url_of_ne_indexName hroot (.inl ?_) (isAbsolute_of_splitOn hpage), hpage⟩
    rw [hstem, Text.join_concat _ hdirectories, hcut, List.append_assoc]
    rfl
  · have hpage := nil_not_mem_splitOn_join (List.concat_ne_nil _ _) hgood
    rw [← hstem] at hpage
    exact ⟨_, url_of_ne_indexName hroot (.inr ⟨rfl, fun hi => hcut (hindex.mp hi)⟩)
      (isAbsolute_of_splitOn hpage), hpage⟩

lemma url_ne_nil (h : IsSegmented path) : url path [] ≠ [] := by
  rcases url_segments h with he | ⟨page, he, -⟩ <;> rw [he] <;> exact List.cons_ne_nil _ _

/-- The address of a document without the base path is its address on a site without one. -/
lemma withoutBase_url (h : IsSegmented path) (basePath : Text) :
    withoutBase (url path basePath) basePath = url path [] := by
  have hrest : basePath.isPrefixOf? (basePath ++ url path []) = some (url path []) :=
    List.isPrefixOf?_eq_some_iff_append_eq.mpr rfl
  rw [url_eq, withoutBase]
  split
  · rename_i hempty
    rw [List.isEmpty_iff.mp hempty]
    rfl
  · rw [hrest]
    split
    · rename_i hnil
      exact absurd (Option.some.inj hnil) (url_ne_nil h)
    · rename_i heq
      exact (Option.some.inj heq).symm
    · rename_i hnone
      cases hnone

/-- The address of a document covers a page where both are the root, or where it is not the root and
its segments begin those of the page, whatever the base path is. -/
theorem isActive_url (p : Text) {q : Text} (hq : IsSegmented q) (basePath : Text) :
    isActive (url q basePath) p basePath = true ↔
      url p [] = ['/'] ∧ url q [] = ['/'] ∨
        url q [] ≠ ['/'] ∧ Text.splitOn '/' (url q []) <+: Text.splitOn '/' (url p []) := by
  rw [isActive, withoutBase_url hq]
  dsimp only
  by_cases hroot : url q [] = ['/']
  · simp [hroot]
  · obtain ⟨page, hpage, hnamed⟩ := (url_segments hq).resolve_left hroot
    have hkept : Text.dropEndWhile (· = '/') (url q []) = url q [] := by
      rw [hpage]
      exact Text.dropEndWhile_of_splitOn hnamed
    rw [if_neg hroot, hkept, Text.splitOn_prefix_iff]
    simp [hroot, List.isPrefixOf_iff_prefix]

/-- The page of a directory whose name is the base path, linked from a page below it. -/
theorem isActive_url_nestedIndex :
    IsSegmented "docs/index.md".toList ∧ isActive (url "docs/index.md".toList "/docs".toList)
      "docs/docs/index.md".toList "/docs".toList = true :=
  have hlinked : IsSegmented "docs/index.md".toList := ⟨by decide, by decide⟩
  ⟨hlinked, (isActive_url _ hlinked _).mpr (.inr (by decide))⟩

/-- A name that only begins another one is another page. -/
example : isActive (url "about.md".toList "/docs".toList) "about-us.md".toList "/docs".toList = false := by
  decide

end Path

end Sitewright
