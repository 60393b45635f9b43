import Mathlib.Data.List.TakeWhile
import Sitewright.Proofs.Listing

/-!
What a build writes lies inside the output directory. The one way out is a document with backslashes
in its name: they are slashes in its output file, so a name that was a single segment can hold steps
up, or start at the root.
-/
namespace Sitewright

namespace Place

section Resolving

/-- The segments from the root to a place, steps up included. -/
def fromRoot (working p : Text) : List Text :=
  if isAbsolute p then segments p else segments working ++ segments p

/-- Where a place leads, as the segments from the root; nothing is above the root. -/
def resolved (working p : Text) : List Text := (stepUp [] (fromRoot working p)).dropWhile (· = up)

/-- The place lies strictly inside a directory, wherever its steps up may lead in between. -/
def Inside (working directory p : Text) : Prop :=
  resolved working directory <+: resolved working p ∧ resolved working directory ≠ resolved working p

instance (working directory p : Text) : Decidable (Inside working directory p) :=
  inferInstanceAs (Decidable (_ ∧ _))

variable {ss : List Text}

lemma stepUp_name {s : Text} (hs : s ≠ up) (left ss : List Text) :
    stepUp left (s :: ss) = stepUp (s :: left) ss := by
  rw [stepUp.eq_def]
  exact if_neg hs

lemma stepUp_up {l : Text} (hl : l ≠ up) (ls ss : List Text) :
    stepUp (l :: ls) (up :: ss) = stepUp ls ss := by
  rw [stepUp.eq_def]
  exact (if_pos rfl).trans (if_neg hl)

/-- A step up takes back the segment in front of it. -/
lemma stepUp_cancel {s : Text} (hs : s ≠ up) (left ss ts : List Text) :
    stepUp left (ss ++ s :: up :: ts) = stepUp left (ss ++ ts) := by
  fun_induction stepUp left ss with
  | case1 left => exact (stepUp_name hs left _).trans (stepUp_up hs left ts)
  | case2 ss ih => exact ih
  | case3 ss ls ih => exact ih
  | case4 ss l ls hl ih => exact (stepUp_up hl ls _).trans (ih.trans (stepUp_up hl ls _).symm)
  | case5 left s' ss h ih => exact (stepUp_name h left _).trans (ih.trans (stepUp_name h left _).symm)

/-- Steps up may be taken beforehand, as far as there is something to leave. -/
lemma stepUp_stepUp (left mid ts : List Text) :
    stepUp left (stepUp mid ts) = stepUp left (mid.reverse ++ ts) := by
  fun_induction stepUp mid ts with
  | case1 mid => rw [List.append_nil]
  | case2 ts ih => simpa using ih
  | case3 ts ls ih => simpa using ih
  | case4 ts l ls hl ih =>
    rw [ih, List.reverse_cons, List.append_assoc]
    exact (stepUp_cancel hl left ls.reverse ts).symm
  | case5 mid s ts h ih => simpa using ih

/-- Where no step up is left, the place leads below any other one. -/
lemma stepUp_of_not_mem_stepUp (left : List Text) (h : up ∉ stepUp [] ss) :
    stepUp left ss = left.reverse ++ stepUp [] ss := by
  have hfirst := stepUp_stepUp left [] ss
  have hrest := stepUp_append left [] _ h
  rw [List.nil_append] at hrest
  exact hfirst.symm.trans hrest

/-- Steps up that are left stand in front. -/
lemma exists_stepUp (ss : List Text) :
    ∃ k names, stepUp [] ss = List.replicate k up ++ names ∧ up ∉ names := by
  have hinv : ∀ left : List Text, (∃ k names, left = names ++ List.replicate k up ∧ up ∉ names) →
      ∃ k names, stepUp left ss = List.replicate k up ++ names ∧ up ∉ names := by
    intro left
    fun_induction stepUp left ss with
    | case1 left =>
      rintro ⟨k, names, rfl, hnames⟩
      exact ⟨k, names.reverse, by simp, by simpa using hnames⟩
    | case2 ss ih => exact fun _ => ih ⟨1, [], rfl, List.not_mem_nil⟩
    | case3 ss ls ih =>
      rintro ⟨k, names, hleft, hnames⟩
      refine ih ⟨k + 1, [], ?_, List.not_mem_nil⟩
      cases names with
      | nil => rw [hleft]; rfl
      | cons n names =>
        obtain ⟨rfl, -⟩ := List.cons.inj hleft
        exact absurd List.mem_cons_self hnames
    | case4 ss l ls hl ih =>
      rintro ⟨k, names, hleft, hnames⟩
      cases names with
      | nil =>
        cases k with
        | zero => cases hleft
        | succ k => exact absurd (List.cons.inj hleft).1 hl
      | cons n names =>
        exact ih ⟨k, names, (List.cons.inj hleft).2, List.not_mem_of_not_mem_cons hnames⟩
    | case5 left s ss h ih =>
      rintro ⟨k, names, rfl, hnames⟩
      exact ih ⟨k, s :: names, rfl, List.not_mem_cons_of_ne_of_not_mem (Ne.symm h) hnames⟩
  exact hinv [] ⟨0, [], rfl, List.not_mem_nil⟩

lemma stepUp_concat (left ss ts : List Text) :
    stepUp left (ss ++ ts) = stepUp (stepUp left ss).reverse ts := by
  fun_induction stepUp left ss with
  | case1 left => simp
  | case2 ss ih => exact ih
  | case3 ss ls ih => exact ih
  | case4 ss l ls hl ih => exact (stepUp_up hl ls _).trans ih
  | case5 left s ss h ih => exact (stepUp_name h left _).trans ih

lemma dropWhile_append_names (ss : List Text) {names : List Text} (h : up ∉ names) :
    (ss ++ names).dropWhile (· = up) = ss.dropWhile (· = up) ++ names := by
  rw [List.dropWhile_append]
  split
  · rename_i hempty
    rw [List.isEmpty_iff.mp hempty]
    cases names with
    | nil => rfl
    | cons n names =>
      have hn : n ≠ up := (List.ne_of_not_mem_cons h).symm
      exact List.dropWhile_cons_of_neg (by simpa using hn)
  · rfl

lemma resolved_eq (working p : Text) :
    resolved working p = (stepUp [] (fromRoot working p)).dropWhile (· = up) := rfl

lemma fromRoot_join (working d : Text) {p : Text} (hp : isAbsolute p = false) :
    fromRoot working (join d p) = fromRoot working d ++ segments p := by
  rw [fromRoot, fromRoot, isAbsolute_placeJoin hp, segments_placeJoin hp]
  split
  · rfl
  · rw [List.append_assoc]

/-- A place that never leaves the directory it is seen from, and leads somewhere below it. -/
structure Stays (p : Text) : Prop where
  relative : isAbsolute p = false
  no_up : up ∉ stepUp [] (segments p)
  ne_nil : stepUp [] (segments p) ≠ []

lemma Descends.stays {p : Text} (h : Descends p) (hne : segments p ≠ []) : Stays p where
  relative := h.relative
  no_up := by
    rw [stepUp_of_not_mem h.no_up]
    exact h.no_up
  ne_nil := by
    rw [stepUp_of_not_mem h.no_up]
    exact hne

lemma Stays.resolved {p : Text} (h : Stays p) (working d : Text) :
    resolved working (join d p) = resolved working d ++ stepUp [] (segments p) := by
  rw [resolved_eq, fromRoot_join working d h.relative, stepUp_concat,
    stepUp_of_not_mem_stepUp _ h.no_up, List.reverse_reverse, dropWhile_append_names _ h.no_up]
  rfl

/-- Seen from a relative directory, such a place leads below it. -/
lemma Stays.locate_join {working d p : Text} (h : Stays p) (hworking : isAbsolute working = true)
    (hd : isAbsolute d = false) :
    locate working (join d p) = stepUp [] (segments d) ++ stepUp [] (segments p) := by
  have hrelative : isAbsolute (join d p) = false := (isAbsolute_placeJoin h.relative).trans hd
  rcases locate_cases working (join d p) with ⟨left, -, -, habsolute⟩ | hlocate
  · exact absurd ((habsolute hworking).symm.trans hrelative) Bool.true_eq_false.mp
  · rw [hlocate, hrelative, if_neg Bool.false_ne_true, List.nil_append,
      segments_placeJoin h.relative, stepUp_concat, stepUp_of_not_mem_stepUp _ h.no_up,
      List.reverse_reverse]

/-- Such a place lies inside every directory that it is seen from. -/
lemma Stays.inside {p : Text} (h : Stays p) (working d : Text) : Inside working d (join d p) := by
  rw [Inside, h.resolved]
  exact ⟨List.prefix_append _ _, fun he => h.ne_nil (List.self_eq_append_right.mp he)⟩

lemma exists_isName_ne (s : Option Text) : ∃ n, IsName n ∧ s ≠ some n := by
  by_cases h : s = some ['a']
  · exact ⟨['b'], by decide, by rw [h]; decide⟩
  · exact ⟨['a'], by decide, h⟩

/-- From a directory at the root, all steps up that are left lead to the root. -/
lemma resolved_of_up_mem {p n : Text} (working : Text) (hn : IsName n) (hp : isAbsolute p = false)
    {k : ℕ} {names : List Text} (hsteps : stepUp [] (segments p) = List.replicate (k + 1) up ++ names)
    (hnames : up ∉ names) : resolved working (join ('/' :: n) p) = names := by
  have hroot : fromRoot working ('/' :: n) = [n] :=
    (segments_slash n).trans (segments_join fun s hs => List.mem_singleton.mp hs ▸ hn.counts)
  have hups : (stepUp [] (List.replicate k up)).dropWhile (· = up) = [] := by
    refine List.dropWhile_eq_nil_iff.mpr fun s hs => ?_
    have hmem := (mem_stepUp hs).resolve_left List.not_mem_nil
    exact decide_eq_true (List.eq_of_mem_replicate hmem)
  have hfirst : stepUp [n] (segments p) = stepUp [n] (stepUp [] (segments p)) :=
    (stepUp_stepUp [n] [] _).symm
  rw [resolved_eq, fromRoot_join working _ hp, hroot, List.singleton_append,
    stepUp_name hn.ne_up, hfirst, hsteps, List.replicate_succ, List.cons_append,
    stepUp_up hn.ne_up, stepUp_append _ _ _ hnames, dropWhile_append_names _ hnames, hups,
    List.nil_append]

/-- A place that does not stay below the directories it is seen from lies outside one of them. -/
lemma exists_not_inside {p : Text} (working : Text) (h : ¬ Stays p)
    (hne : stepUp [] (segments p) ≠ []) : ∃ d, ¬ Inside working d (join d p) := by
  by_cases hp : isAbsolute p = true
  · refine ⟨p, fun hinside => hinside.2 ?_⟩
    rw [join, if_pos hp, resolved_eq, resolved_eq, fromRoot, fromRoot, isAbsolute_clean, segments_clean]
  · rw [Bool.not_eq_true] at hp
    have hup : up ∈ stepUp [] (segments p) := by
      by_contra hno
      exact h ⟨hp, hno, hne⟩
    obtain ⟨k, names, hsteps, hnames⟩ := exists_stepUp (segments p)
    obtain ⟨k, rfl⟩ : ∃ j, k = j + 1 := by
      cases k with
      | zero => exact absurd (by rwa [hsteps] at hup) hnames
      | succ j => exact ⟨j, rfl⟩
    obtain ⟨n, hn, hhead⟩ := exists_isName_ne names.head?
    refine ⟨'/' :: n, fun hinside => hhead ?_⟩
    have hroot : resolved working ('/' :: n) = [n] := by
      have hsegments : fromRoot working ('/' :: n) = [n] :=
        (segments_slash n).trans (segments_join fun s hs => List.mem_singleton.mp hs ▸ hn.counts)
      rw [resolved_eq, hsegments, stepUp_name hn.ne_up]
      exact List.dropWhile_cons_of_neg (by simpa using hn.ne_up)
    obtain ⟨rest, hrest⟩ := hinside.1
    rw [hroot, resolved_of_up_mem working hn hp hsteps hnames] at hrest
    rw [← hrest]
    rfl

end Resolving

section Located

variable {working : Text}

lemma fromRoot_ofLocated (working : Text) (absolute : Bool) {ss : List Text}
    (h : ∀ s ∈ ss, Counts s) :
    fromRoot working (ofLocated ((if absolute then [['/']] else []) ++ ss)) =
      (if absolute then [] else segments working) ++ ss := by
  cases absolute with
  | true =>
    have hsegments := (segments_slash _).trans (segments_join h)
    rw [if_pos rfl, if_pos rfl]
    exact hsegments
  | false =>
    have hroot : ofLocated ss = ofSegments ss := by
      unfold ofLocated
      split
      · exact absurd (List.mem_singleton_self '/') (h _ List.mem_cons_self).2.2
      · rfl
    have hrelative : isAbsolute (ofSegments ss) = false := by
      unfold ofSegments
      split
      · rfl
      · exact isAbsolute_join h
    have hsegments : segments (ofSegments ss) = ss := by
      unfold ofSegments
      split
      · rename_i hempty
        rw [List.isEmpty_iff.mp hempty]
        rfl
      · exact segments_join h
    simp only [Bool.false_eq_true, if_false, List.nil_append]
    rw [hroot, fromRoot, hrelative, if_neg Bool.false_ne_true, hsegments]

/-- A name leads where the place leads that it stands for. -/
lemma exists_located (hworking : isAbsolute working = true) (p : Text) :
    ∃ (absolute : Bool) (ss : List Text),
      locate working p = (if absolute then [['/']] else []) ++ ss ∧ (∀ s ∈ ss, Counts s) ∧
      stepUp [] ((if absolute then [] else segments working) ++ ss) = stepUp [] (fromRoot working p) := by
  have hcounts : ∀ {ss : List Text}, (∀ s ∈ ss, s ∈ segments p) → ∀ s ∈ stepUp [] ss, Counts s :=
    fun hss s hs => counts_of_mem_segments (hss s ((mem_stepUp hs).resolve_left List.not_mem_nil))
  have hsteps : ∀ ss ts, stepUp [] (ss ++ stepUp [] ts) = stepUp [] (ss ++ ts) := by
    intro ss ts
    rw [stepUp_concat, stepUp_stepUp, List.reverse_nil, List.nil_append, ← stepUp_concat]
  rcases locate_cases working p with ⟨left, hp, hlocate, habsolute⟩ | hlocate
  · refine ⟨false, stepUp [] left, hlocate, hcounts ?_, ?_⟩
    · exact fun s hs => hp ▸ List.mem_append_right _ hs
    · rw [fromRoot, habsolute hworking, if_pos rfl, hp]
      exact hsteps _ _
  · refine ⟨isAbsolute p, stepUp [] (segments p), hlocate, hcounts fun s hs => hs, ?_⟩
    rw [hsteps, fromRoot]
    split <;> rfl

/-- What is named below a directory lies below it. -/
lemma resolved_ofLocated (hworking : isAbsolute working = true) (p : Text) {name : List Text}
    (hname : ∀ s ∈ name, IsName s) :
    resolved working (ofLocated (locate working p ++ name)) = resolved working p ++ name := by
  obtain ⟨absolute, ss, hlocate, hcounts, hsteps⟩ := exists_located hworking p
  have hup : up ∉ name := fun h => (hname _ h).ne_up rfl
  have hall : ∀ s ∈ ss ++ name, Counts s := fun s hs =>
    (List.mem_append.mp hs).elim (hcounts s) fun hs => (hname s hs).counts
  rw [resolved_eq, hlocate, List.append_assoc, fromRoot_ofLocated working absolute hall,
    ← List.append_assoc, stepUp_append _ _ _ hup, hsteps, dropWhile_append_names _ hup]
  rfl

lemma inside_ofLocated (hworking : isAbsolute working = true) {d p : Text} :
    Inside working d (ofLocated (locate working p)) ↔ Inside working d p := by
  have h := resolved_ofLocated hworking p (fun s hs => absurd hs List.not_mem_nil)
  rw [List.append_nil, List.append_nil] at h
  rw [Inside, Inside, h]

end Located

end Place

namespace Path

/-- A path that leads out of the directory it is seen from once its backslashes are slashes. -/
def Strays (path : Text) : Prop :=
  Place.isAbsolute (slashed path) = true ∨ Place.up ∈ Place.stepUp [] (Place.segments (slashed path))

instance (path : Text) : Decidable (Strays path) := inferInstanceAs (Decidable (_ ∨ _))

variable {directories : List Text} {name : Text}

/-- The pieces of a path that count. -/
def counted (pieces : List Text) : List Text := pieces.filter fun s => !s.isEmpty && s ≠ ['.']

lemma segments_pieces {pieces : List Text} (hne : pieces ≠ []) (h : ∀ s ∈ pieces, '/' ∉ s) :
    Place.segments (Text.join ['/'] pieces) = counted pieces := by
  rw [Place.segments, Text.splitOn_join hne h]
  rfl

lemma counted_append (ss ts : List Text) : counted (ss ++ ts) = counted ss ++ counted ts :=
  List.filter_append _ _

lemma up_mem_counted {ss : List Text} : Place.up ∈ counted ss ↔ Place.up ∈ ss := by
  have hup : (!Place.up.isEmpty && Place.up ≠ ['.']) = true := by decide
  rw [counted, List.mem_filter, and_iff_left hup]

lemma up_mem_stepUp_append {ts : List Text} (h : Place.up ∉ ts) (ss : List Text) :
    Place.up ∈ Place.stepUp [] (ss ++ ts) ↔ Place.up ∈ Place.stepUp [] ss := by
  rw [Place.stepUp_append _ _ _ h, List.mem_append, or_iff_left h]

lemma nameStem_ne_up (h : name ≠ Place.up) : nameStem name ≠ Place.up := by
  rcases nameStem_cases name with he | ⟨-, c, hc, hdot⟩
  · rwa [he]
  · intro he
    have hdots : c ∈ List.replicate 2 '.' := by rwa [he] at hc
    exact hdot (List.eq_of_mem_replicate hdots)

/-- The file that every page is written to in its directory. -/
def pageFile : Text := "index.html".toList

lemma outputSegments_cases (directories : List Text) (name : Text) :
    ∃ inner, outputSegments directories name = directories ++ inner ++ [pageFile] ∧
      (inner = [nameStem name] ∨ inner = [] ∧ nameStem name = indexName) := by
  unfold outputSegments pageFile
  by_cases h : nameStem name = indexName
  · refine ⟨[], ?_, ?_⟩
    · rw [if_pos h, List.append_nil]
    · exact Or.inr ⟨rfl, h⟩
  · refine ⟨[nameStem name], ?_, ?_⟩
    · rw [if_neg h]
    · exact Or.inl rfl

section Pieces

variable (hfree : ∀ s ∈ directories ++ [name], '/' ∉ s)
include hfree

lemma slash_not_mem_outputSegments : ∀ s ∈ outputSegments directories name, '/' ∉ s := by
  have hname : '/' ∉ name := hfree name (List.mem_append_right _ (List.mem_singleton_self name))
  obtain ⟨inner, hsegments, hinner⟩ := outputSegments_cases directories name
  rw [hsegments]
  intro s hs
  rcases List.mem_append.mp hs with hs | hs
  · rcases List.mem_append.mp hs with hs | hs
    · exact hfree s (List.mem_append_left _ hs)
    · rcases hinner with rfl | ⟨rfl, -⟩
      · exact List.mem_singleton.mp hs ▸ slash_not_mem_nameStem hname
      · cases hs
  · rw [List.mem_singleton.mp hs]
    decide

/-- An output file starts at the root where the path does. -/
lemma isAbsolute_outputSegments (hne : directories ≠ [] ∨ name ≠ []) :
    Place.isAbsolute (Text.join ['/'] (outputSegments directories name)) = true ↔
      Place.isAbsolute (Text.join ['/'] (directories ++ [name])) = true := by
  have hout := slash_not_mem_outputSegments hfree
  obtain ⟨inner, hsegments, hinner⟩ := outputSegments_cases directories name
  rw [hsegments] at hout ⊢
  cases directories with
  | cons d ds =>
    rw [List.cons_append, List.cons_append, List.cons_append,
      isAbsolute_pieces (hfree d List.mem_cons_self), isAbsolute_pieces (hfree d List.mem_cons_self)]
    simp
  | nil =>
    have hname := nameStem_ne_nil (hne.resolve_left fun h => h rfl)
    simp only [List.nil_append] at hout ⊢
    rw [isAbsolute_pieces (hfree name (List.mem_singleton_self name))]
    rcases hinner with rfl | ⟨rfl, -⟩
    · rw [List.singleton_append,
        isAbsolute_pieces (hout _ (List.mem_append_left _ (List.mem_singleton_self _)))]
      simp [hname]
    · exact ⟨fun h => absurd h (by decide), fun h => absurd rfl h.2⟩

/-- The steps up that are left in an output file are those of the path: no extension is cut off to
leave one, and none is cut short. -/
lemma up_mem_outputSegments :
    Place.up ∈ Place.stepUp [] (Place.segments (Text.join ['/'] (outputSegments directories name))) ↔
      Place.up ∈ Place.stepUp [] (Place.segments (Text.join ['/'] (directories ++ [name]))) := by
  have hfile : Place.up ∉ counted [pageFile] := by decide
  have hout := slash_not_mem_outputSegments hfree
  obtain ⟨inner, hsegments, hinner⟩ := outputSegments_cases directories name
  rw [hsegments] at hout ⊢
  rw [segments_pieces (List.concat_ne_nil _ _) hout, segments_pieces (List.concat_ne_nil _ _) hfree,
    counted_append, up_mem_stepUp_append hfile, counted_append, counted_append]
  by_cases hname : name = Place.up
  · subst hname
    rcases hinner with rfl | ⟨-, hindex⟩
    · rfl
    · exact absurd hindex (by decide)
  · have hlast : Place.up ∉ counted [name] := by
      rw [up_mem_counted, List.mem_singleton]
      exact Ne.symm hname
    have hstem : Place.up ∉ counted inner := by
      rw [up_mem_counted]
      rcases hinner with rfl | ⟨rfl, -⟩
      · rw [List.mem_singleton]
        exact Ne.symm (nameStem_ne_up hname)
      · exact List.not_mem_nil
    rw [up_mem_stepUp_append hstem, up_mem_stepUp_append hlast]

lemma stepUp_outputSegments_ne_nil :
    Place.stepUp [] (Place.segments (Text.join ['/'] (outputSegments directories name))) ≠ [] := by
  have hout := slash_not_mem_outputSegments hfree
  obtain ⟨inner, hsegments, -⟩ := outputSegments_cases directories name
  rw [hsegments] at hout ⊢
  have hfile : counted [pageFile] = [pageFile] := by decide
  rw [segments_pieces (List.concat_ne_nil _ _) hout, counted_append, hfile,
    Place.stepUp_append _ _ _ (by decide)]
  exact List.concat_ne_nil _ _

end Pieces

lemma stepUp_output_ne_nil (path : Text) : Place.stepUp [] (Place.segments (output path)) ≠ [] := by
  obtain ⟨directories, name, hfree, -, -, houtput⟩ := exists_pieces path
  exact houtput ▸ stepUp_outputSegments_ne_nil hfree

/-- The output file of a document stays below the output directory exactly where the path does not
stray. -/
lemma stays_output {path : Text} (hne : path ≠ []) : Place.Stays (output path) ↔ ¬ Strays path := by
  obtain ⟨directories, name, hfree, hslashed, -, houtput⟩ := exists_pieces path
  have hne' : directories ≠ [] ∨ name ≠ [] := by
    by_contra hnil
    obtain ⟨rfl, rfl⟩ : directories = [] ∧ name = [] := by simpa using hnil
    exact hne (List.map_eq_nil_iff.mp hslashed)
  have habsolute := isAbsolute_outputSegments hfree hne'
  have hup := up_mem_outputSegments hfree
  rw [← hslashed, ← houtput] at habsolute hup
  rw [Strays, ← habsolute, ← hup, not_or, Bool.not_eq_true]
  exact ⟨fun h => ⟨h.relative, h.no_up⟩, fun h => ⟨h.1, h.2, stepUp_output_ne_nil path⟩⟩

/-- Where the names are proper, only backslashes make a path stray. -/
lemma backslash_mem_of_strays {n : List Text} (hn : ∀ s ∈ n, Place.IsName s)
    (h : Strays (Text.join ['/'] n)) : '\\' ∈ Text.join ['/'] n := by
  by_contra hslash
  have hcounts := fun s hs => (hn s hs).counts
  rw [Strays, slashed_of_not_mem hslash, Place.isAbsolute_join hcounts, Place.segments_join hcounts] at h
  have hup : Place.up ∉ n := fun hup => (hn _ hup).ne_up rfl
  rw [Place.stepUp_of_not_mem hup] at h
  exact h.elim Bool.false_ne_true hup

end Path

namespace Site

variable {working : Text} {site : Site} {tree tree' : FileTree}

/-- The static files have proper names, behind everything that is generated. -/
def StaticNamed (working : Text) (site : Site) (tree : FileTree) : Prop :=
  ∀ documents skipped index source, site.loadAll working tree = .ok (documents, skipped) →
    site.indexOf documents = .ok index → site.config.staticDir = some source →
    ∀ f ∈ (writeAll working site (site.artifacts index documents) tree).1.under
      (Place.locate working source), ∀ s ∈ f.1, Place.IsName s

/-- The output file of a document whose path strays. -/
def IsStray (working : Text) (site : Site) (tree : FileTree) (path : Text) : Prop :=
  ∃ documents skipped, site.loadAll working tree = .ok (documents, skipped) ∧
    ∃ d ∈ documents, Path.Strays d.path ∧ path = Path.output d.path

section Generated

lemma stays_stylesheetPath : Place.Stays stylesheetPath := ⟨by decide, by decide, by decide⟩

lemma stays_catalogPath : Place.Stays catalogPath := ⟨by decide, by decide, by decide⟩

lemma stays_listing {index : Index} {l : Listing} (h : l ∈ listings index) : Place.Stays l.path := by
  obtain ⟨c, hc, name, hpath⟩ := exists_listingPath h
  have hc := isName_of_mem_directories hc
  rw [hpath]
  refine (descends_listingPath hc name).stays ?_
  rw [segments_listingPath hc]
  exact List.cons_ne_nil _ _

lemma stays_join {ss : List Text} (hne : ss ≠ []) (h : ∀ s ∈ ss, Place.IsName s) :
    Place.Stays (Text.join ['/'] ss) := by
  refine (Place.descends_join hne h).stays ?_
  rwa [Place.segments_join fun s hs => (h s hs).counts]

lemma path_ne_nil {documents : List Document} {skipped : List (Text × Text)}
    (hload : site.loadAll working tree = .ok (documents, skipped))
    (hnamed : tree.WellNamed (Place.locate working site.config.contentDir))
    {d : Document} (hd : d ∈ documents) : d.path ≠ [] := by
  obtain ⟨n, hne, hn, hpath⟩ := exists_name hload hnamed d hd
  rw [hpath]
  exact (Place.descends_join hne hn).ne_nil

/-- Everything generated stays below the output directory, but for the pages that stray. -/
lemma stays_of_mem_artifacts {documents : List Document} {skipped : List (Text × Text)}
    {index : Index} {a : Artifact}
    (hload : site.loadAll working tree = .ok (documents, skipped))
    (hnamed : tree.WellNamed (Place.locate working site.config.contentDir))
    (ha : Except.ok a ∈ site.artifacts index documents) :
    Place.Stays a.path ∨ IsStray working site tree a.path := by
  simp only [artifacts, List.mem_append, List.mem_map, List.mem_cons, List.not_mem_nil, or_false]
    at ha
  rcases ha with ((⟨d, hd, hda⟩ | hsheet | hcatalog) | ⟨l, hl, hla⟩) | ⟨b, hb, hba⟩
  · rw [(documentArtifact_eq_ok hda).1]
    by_cases hstrays : Path.Strays d.path
    · exact .inr ⟨documents, skipped, hload, d, hd, hstrays, rfl⟩
    · exact .inl ((Path.stays_output (path_ne_nil hload hnamed hd)).mpr hstrays)
  · have hpath : a.path = stylesheetPath := by
      unfold stylesheet at hsheet
      split at hsheet
      · cases hsheet
        rfl
      · cases hsheet
    exact .inl (hpath ▸ stays_stylesheetPath)
  · cases hcatalog
    exact .inl stays_catalogPath
  · rw [(listingArtifact_eq_ok hla).1]
    exact .inl (stays_listing hl)
  · cases hba
    obtain ⟨s, hs, hpath⟩ := exists_searchName hb
    rw [hpath]
    exact .inl (stays_join (List.cons_ne_nil _ _) fun t ht => List.mem_singleton.mp ht ▸ hs)

end Generated

section Changes

/-- A run of writes changes the files that something is to be written to, whether it ends or stops. -/
lemma exists_of_writeAll_changes {results : List (Except RenderError Artifact)} {n : FileName}
    (h : (writeAll working site results tree).1.read? n ≠ tree.read? n) :
    ∃ a, Except.ok a ∈ results ∧ n = fileOf working site a.path := by
  induction results generalizing tree with
  | nil => exact absurd rfl h
  | cons result results ih =>
    cases result with
    | error e => exact absurd rfl h
    | ok a =>
      rw [writeAll] at h
      dsimp only at h
      split at h
      · exact absurd rfl h
      · rename_i next hwrite
        by_cases hn : n = fileOf working site a.path
        · exact ⟨a, List.mem_cons_self, hn⟩
        · have hnext : next.read? n = tree.read? n := by
            rw [FileTree.read?_write hwrite]
            exact if_neg hn
          obtain ⟨b, hb, hbn⟩ := ih (hnext ▸ h)
          exact ⟨b, List.mem_cons_of_mem _ hb, hbn⟩

/-- A build changes files for what is generated and for static files. -/
lemma exists_of_build_changes {n : FileName}
    (h : (site.build working tree).1.read? n ≠ tree.read? n) :
    ∃ documents skipped index, site.loadAll working tree = .ok (documents, skipped) ∧
      site.indexOf documents = .ok index ∧
      ((∃ a, Except.ok a ∈ site.artifacts index documents ∧ n = fileOf working site a.path) ∨
        n ∈ staticFiles working site
          (writeAll working site (site.artifacts index documents) tree).1) := by
  unfold build at h
  split at h
  · exact absurd rfl h
  · rename_i documents skipped hload
    split at h
    · exact absurd rfl h
    · rename_i index hindex
      refine ⟨documents, skipped, index, hload, hindex, ?_⟩
      cases hwrite : writeAll working site (site.artifacts index documents) tree with
      | mk generated result =>
        by_cases hgenerated : generated.read? n = tree.read? n
        · -- only the static files come behind
          right
          by_contra hstatic
          have hkept := read?_copyStatic hstatic
          rw [hwrite] at h
          cases result with
          | error e => exact h hgenerated
          | ok written =>
            dsimp only at h
            split at h <;> rename_i hcopy <;> rw [hcopy] at hkept <;>
              exact h (hkept.trans hgenerated)
        · left
          have hchanged : (writeAll working site (site.artifacts index documents) tree).1.read? n ≠
              tree.read? n := by rwa [hwrite]
          exact exists_of_writeAll_changes hchanged

end Changes

section Static

/-- What is named below the output directory is inside it. -/
lemma inside_static (hworking : Place.isAbsolute working = true) (d : Text) {name : FileName}
    (hne : name ≠ []) (hname : ∀ s ∈ name, Place.IsName s) :
    Place.Inside working d (Place.ofLocated (Place.locate working d ++ name)) := by
  rw [Place.Inside, Place.resolved_ofLocated hworking d hname]
  exact ⟨List.prefix_append _ _, fun he => hne (List.self_eq_append_right.mp he)⟩

lemma mem_staticFiles {n : FileName} {t : FileTree} (h : n ∈ staticFiles working site t) :
    ∃ source, site.config.staticDir = some source ∧ ∃ f ∈ t.under (Place.locate working source),
      n = Place.locate working site.config.outputDir ++ f.1 := by
  unfold staticFiles at h
  split at h
  · cases h
  · rename_i source hsource
    obtain ⟨f, hf, rfl⟩ := List.mem_map.mp h
    exact ⟨source, hsource, f, FileTree.mem_sortedUnder.mp hf, rfl⟩

lemma copied_eq {t t' : FileTree} {copied : List Text} {source : Text}
    (h : site.copyStatic working t = (t', .ok copied)) (hsource : site.config.staticDir = some source) :
    copied =
      (t.sortedUnder (Place.locate working source)).map fun f => site.outputPlace (pathOf f.1) := by
  rw [copyStatic, hsource] at h
  dsimp only [copyDirectory] at h
  split at h
  · cases h
    rfl
  · cases h

lemma exists_of_mem_copied {t t' : FileTree} {copied : List Text} {place : Text}
    (h : site.copyStatic working t = (t', .ok copied)) (hplace : place ∈ copied) :
    ∃ source, site.config.staticDir = some source ∧ ∃ f ∈ t.under (Place.locate working source),
      place = site.outputPlace (pathOf f.1) := by
  cases hsource : site.config.staticDir with
  | none =>
    rw [copyStatic, hsource] at h
    cases h
    cases hplace
  | some source =>
    rw [copied_eq h hsource] at hplace
    obtain ⟨f, hf, rfl⟩ := List.mem_map.mp hplace
    exact ⟨source, rfl, f, FileTree.mem_sortedUnder.mp hf, rfl⟩

lemma name_ne_nil {directory : FileName} {t : FileTree} {f : FileName × FileContent}
    (h : f ∈ t.under directory) : f.1 ≠ [] := (FileTree.mem_under.mp h).1

end Static

/-- Every file that a build changes, and every place that it reports, lies strictly inside the output
directory, whether the build succeeds or stops; but for the pages of documents whose paths stray. A
path strays only with a backslash in it, and exactly where its page leaves some directory. -/
theorem build_confined (hworking : Place.isAbsolute working = true)
    (hnamed : tree.WellNamed (Place.locate working site.config.contentDir))
    (hstatic : StaticNamed working site tree) :
    (∀ n, (site.build working tree).1.read? n ≠ tree.read? n →
      Place.Inside working site.config.outputDir (Place.ofLocated n) ∨
        ∃ path, IsStray working site tree path ∧ n = fileOf working site path) ∧
    (∀ tree' report, site.build working tree = (tree', .ok report) → ∀ place ∈ report.written,
      Place.Inside working site.config.outputDir place ∨
        ∃ path, IsStray working site tree path ∧ place = site.outputPlace path) ∧
    ∀ documents skipped, site.loadAll working tree = .ok (documents, skipped) → ∀ d ∈ documents,
      (Path.Strays d.path → '\\' ∈ d.path) ∧
        (Path.Strays d.path ↔
          ∃ directory, ¬ Place.Inside working directory (Place.join directory (Path.output d.path))) := by
  refine ⟨?_, ?_, ?_⟩
  · intro n hn
    obtain ⟨documents, skipped, index, hload, hindex, ⟨a, ha, rfl⟩ | hcopied⟩ :=
      exists_of_build_changes hn
    · rcases stays_of_mem_artifacts hload hnamed ha with hstays | hstray
      · exact .inl ((Place.inside_ofLocated hworking).mpr (hstays.inside working _))
      · exact .inr ⟨a.path, hstray, rfl⟩
    · obtain ⟨source, hsource, f, hf, rfl⟩ := mem_staticFiles hcopied
      exact .inl (inside_static hworking _ (name_ne_nil hf)
        (hstatic documents skipped index source hload hindex hsource f hf))
  · intro tree' report hbuild place hplace
    obtain ⟨documents, index, generated, written, copied, hload, hindex, hwrite, hcopy, hreport⟩ :=
      build_eq_ok hbuild
    obtain ⟨artifacts, hartifacts, rfl, -⟩ := writeAll_eq_ok hwrite
    rw [hreport] at hplace
    rcases List.mem_append.mp hplace with hplace | hplace
    · obtain ⟨a, ha, rfl⟩ := List.mem_map.mp hplace
      rcases stays_of_mem_artifacts hload hnamed (hartifacts ▸ List.mem_map_of_mem ha) with
        hstays | hstray
      · exact .inl (hstays.inside working _)
      · exact .inr ⟨a.path, hstray, rfl⟩
    · obtain ⟨source, hsource, f, hf, rfl⟩ := exists_of_mem_copied hcopy hplace
      have hnames := hstatic documents report.skipped index source hload hindex hsource f
      rw [hwrite] at hnames
      exact .inl ((stays_join (name_ne_nil hf) (hnames hf)).inside working _)
  · intro documents skipped hload d hd
    have hstays := Path.stays_output (path_ne_nil hload hnamed hd)
    refine ⟨?_, ?_, ?_⟩
    · obtain ⟨n, -, hn, hpath⟩ := exists_name hload hnamed d hd
      rw [hpath]
      exact Path.backslash_mem_of_strays hn
    · intro hstrays
      exact Place.exists_not_inside working (fun h => hstays.mp h hstrays)
        (Path.stepUp_output_ne_nil d.path)
    · rintro ⟨directory, houtside⟩
      by_contra hno
      exact houtside ((hstays.mpr hno).inside working directory)

/-- A document whose name leads out of the output directory. -/
def strayTree : FileTree := ⟨[(["content".toList, "..\\x.md".toList], .text "out".toList)]⟩

def strayDocument : Document := ⟨"..\\x.md".toList, [], "out".toList, none⟩

lemma loadAll_strayTree : sample.loadAll "/site".toList strayTree = .ok ([strayDocument], []) := by
  rw [loadAll, documentFiles, FileTree.sortedUnder_of_pairwise (by decide)]
  rfl

/-- The file that its page is written to. -/
def strayFile : FileName := ["x".toList, "index.html".toList]

lemma build_strayTree : ∃ tree' report, sample.build "/site".toList strayTree = (tree', .ok report) ∧
    (tree'.read? strayFile).isSome := by
  have hok : ((sample.build "/site".toList strayTree).2.toOption.isSome &&
      ((sample.build "/site".toList strayTree).1.read? strayFile).isSome) = true := by
    rw [build, loadAll_strayTree]
    decide +kernel
  cases hbuild : sample.build "/site".toList strayTree with
  | mk tree' result =>
    rw [hbuild] at hok
    cases result with
    | error e => cases hok
    | ok report => exact ⟨tree', report, rfl, hok⟩

/-- The page of that document is written beside the output directory. -/
theorem build_confined_strayTree :
    ∃ tree' report, sample.build "/site".toList strayTree = (tree', .ok report) ∧
      (tree'.read? strayFile).isSome ∧
      ¬ Place.Inside "/site".toList sample.config.outputDir (Place.ofLocated strayFile) ∧
      ∃ path, IsStray "/site".toList sample strayTree path ∧
        strayFile = fileOf "/site".toList sample path := by
  obtain ⟨tree', report, hbuild, hread⟩ := build_strayTree
  have houtside : ¬ Place.Inside "/site".toList sample.config.outputDir
      (Place.ofLocated strayFile) := by decide +kernel
  have hchanged : (sample.build "/site".toList strayTree).1.read? strayFile ≠
      strayTree.read? strayFile := by
    have hnone : strayTree.read? strayFile = none := by decide +kernel
    rw [hbuild, hnone]
    exact Option.isSome_iff_ne_none.mp hread
  have hstatic : StaticNamed "/site".toList sample strayTree :=
    fun _ _ _ _ _ _ hsource => nomatch hsource
  have hconfined := (build_confined (by decide) ⟨by decide, by decide⟩ hstatic).1 _ hchanged
  exact ⟨tree', report, hbuild, hread, houtside, hconfined.resolve_left houtside⟩

end Site

end Sitewright
