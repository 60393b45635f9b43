import Mathlib.Algebra.GroupWithZero.Nat
import Mathlib.Data.List.Nodup
import Sitewright.Catalog
import Sitewright.Proofs.Association

/-!
The groups of a catalog. Names are noted when they first come up, in groups as in the list of labels.
A group has an entry for each time that the entry gives the group's name, so an entry that repeats a
label stands in the group of that label more than once.
-/
namespace Sitewright.Catalog

/-- Names with one more, which comes last unless it is there already. -/
def noted (seen : List Text) (name : Text) : List Text :=
  if seen.contains name then seen else seen ++ [name]

lemma keys_addTo (name : Text) (e : Entry) (gs : List Group) :
    (addTo name e gs).map Prod.fst = noted (gs.map Prod.fst) name := by
  induction gs with
  | nil => rfl
  | cons g gs ih =>
    obtain ⟨n, es⟩ := g
    by_cases h : n = name
    · simp [addTo, noted, h]
    · have hne : name ≠ n := fun he => h he.symm
      simp only [addTo, h, if_false, List.map_cons, ih, noted, List.contains_cons,
        beq_eq_false_iff_ne.mpr hne, Bool.false_or]
      split <;> rfl

/-- The names of groups, in the order in which they come up. -/
lemma keys_groupBy (names : Entry → List Text) (entries : List Entry) :
    (groupBy names entries).map Prod.fst =
      entries.foldl (fun seen e => (names e).foldl noted seen) [] := by
  refine (List.foldl_hom (List.map Prod.fst) fun gs e => ?_).symm
  exact List.foldl_hom (List.map Prod.fst) fun gs name => (keys_addTo name e gs).symm

lemma nodup_noted {seen : List Text} (h : seen.Nodup) (name : Text) : (noted seen name).Nodup := by
  unfold noted
  split
  · exact h
  · rename_i hnew
    rw [← List.concat_eq_append]
    exact h.concat (by simpa using hnew)

/-- No two groups have one name. -/
lemma nodup_keys_groupBy (names : Entry → List Text) (entries : List Entry) :
    ((groupBy names entries).map Prod.fst).Nodup := by
  rw [keys_groupBy]
  refine List.foldlRecOn (motive := List.Nodup) entries _ List.nodup_nil fun seen h e _ => ?_
  exact List.foldlRecOn (motive := List.Nodup) (names e) _ h fun seen h name _ => nodup_noted h name

/-- The labels of pages are the names of the groups by label. -/
lemma labels_eq_keys (basePath : Text) (placed : List Placed) :
    labels (placed.map Placed.page) = (byLabel (ofPages basePath placed)).map Prod.fst := by
  rw [byLabel, keys_groupBy, labels, ofPages, List.foldl_map, List.foldl_map]
  rfl

/-- The members of a group, of which no entry is a group of its own. -/
def members (name : Text) (gs : List Group) : List Entry := (gs.lookup name).getD []

/-- Entries, each one as often as it gives a name. -/
def occurrences (names : Entry → List Text) (name : Text) (entries : List Entry) : List Entry :=
  entries.flatMap fun e => List.replicate ((names e).count name) e

/-- The entries that give a name. -/
def carriers (names : Entry → List Text) (name : Text) (entries : List Entry) : List Entry :=
  entries.filter fun e => name ∈ names e

lemma lookup_addTo (name other : Text) (e : Entry) (gs : List Group) :
    (addTo name e gs).lookup other =
      if other = name then some (members name gs ++ [e]) else gs.lookup other := by
  induction gs with
  | nil => rw [addTo, lookup_cons_ite]; rfl
  | cons g gs ih =>
    obtain ⟨n, es⟩ := g
    by_cases hn : n = name
    · subst hn
      simp only [addTo, if_true, lookup_cons_ite, members, Option.getD_some]
      split <;> rfl
    · have hne : name ≠ n := fun he => hn he.symm
      simp only [addTo, hn, if_false, lookup_cons_ite, ih, members, hne]
      by_cases ho : other = n
      · simp [ho, hn]
      · simp [ho]

lemma members_addTo (name other : Text) (e : Entry) (gs : List Group) :
    members other (addTo name e gs) =
      members other gs ++ List.replicate ([name].count other) e := by
  rw [members, lookup_addTo]
  by_cases h : other = name
  · simp [h]
  · simp [h, members, Ne.symm h]

/-- An entry joins a group once for each time it gives the name. -/
lemma members_addAll (e : Entry) (given : List Text) (name : Text) (gs : List Group) :
    members name (given.foldl (fun gs name => addTo name e gs) gs) =
      members name gs ++ List.replicate (given.count name) e := by
  induction given generalizing gs with
  | nil => simp
  | cons first rest ih =>
    rw [List.foldl_cons, ih, members_addTo, List.append_assoc, List.replicate_append_replicate,
      ← List.count_append, List.singleton_append]

lemma members_groupBy (names : Entry → List Text) (name : Text) (entries : List Entry) :
    members name (groupBy names entries) = occurrences names name entries := by
  -- what the entries before have put there stays in front
  have h : ∀ gs, members name (entries.foldl
      (fun gs e => (names e).foldl (fun gs name => addTo name e gs) gs) gs) =
        members name gs ++ occurrences names name entries := by
    induction entries with
    | nil => intro gs; simp [occurrences]
    | cons e es ih =>
      intro gs
      rw [List.foldl_cons, ih, members_addAll, List.append_assoc]
      rfl
  exact h []

lemma length_occurrences (names : Entry → List Text) (name : Text) (entries : List Entry) :
    (occurrences names name entries).length =
      (entries.map fun e => (names e).count name).sum := by
  simp [occurrences, List.length_flatMap]

/-- A group is listed for the number of its members, and then with all of them. -/
lemma lookup_listed_groupBy (names : Entry → List Text) (name : Text) (entries : List Entry) :
    (listed leastListed (groupBy names entries)).lookup name =
      if 2 ≤ (occurrences names name entries).length then some (occurrences names name entries)
      else none := by
  rw [listed, lookup_filter (nodup_keys_groupBy names entries), ← members_groupBy, members]
  rcases (groupBy names entries).lookup name with _ | es
  · rfl
  · rw [Option.filter_some, Option.getD_some]
    exact if_congr (decide_eq_true_iff.trans Int.ofNat_le) rfl rfl

section

variable (names : Entry → List Text) (name : Text)

lemma occurrences_cons (e : Entry) (entries : List Entry) :
    occurrences names name (e :: entries) =
      List.replicate ((names e).count name) e ++ occurrences names name entries := rfl

lemma carriers_cons_of_mem {e : Entry} (h : name ∈ names e) (entries : List Entry) :
    carriers names name (e :: entries) = e :: carriers names name entries :=
  List.filter_cons_of_pos (decide_eq_true h)

lemma carriers_cons_of_not_mem {e : Entry} (h : name ∉ names e) (entries : List Entry) :
    carriers names name (e :: entries) = carriers names name entries :=
  List.filter_cons_of_neg (by simpa using h)

/-- The occurrences of a name are its carriers, each one repeated. -/
lemma occurrences_eq_flatMap_carriers (entries : List Entry) :
    occurrences names name entries =
      (carriers names name entries).flatMap fun e => List.replicate ((names e).count name) e := by
  induction entries with
  | nil => rfl
  | cons e es ih =>
    by_cases h : name ∈ names e
    · rw [carriers_cons_of_mem names name h, List.flatMap_cons, ← ih, occurrences_cons]
    · rw [carriers_cons_of_not_mem names name h, ← ih, occurrences_cons,
        List.count_eq_zero.mpr h, List.replicate_zero, List.nil_append]

lemma length_carriers_le (entries : List Entry) :
    (carriers names name entries).length ≤ (occurrences names name entries).length := by
  induction entries with
  | nil => exact Nat.le_refl 0
  | cons e es ih =>
    rw [occurrences_cons, List.length_append, List.length_replicate]
    by_cases h : name ∈ names e
    · have hone := List.one_le_count_iff.mpr h
      rw [carriers_cons_of_mem names name h, List.length_cons]
      omega
    · rw [carriers_cons_of_not_mem names name h]
      omega

/-- The members of a group are its carriers where no entry gives the name twice, and only there:
an entry more makes the list longer. -/
lemma occurrences_eq_carriers_iff (entries : List Entry) :
    occurrences names name entries = carriers names name entries ↔
      ∀ e ∈ entries, (names e).count name ≤ 1 := by
  induction entries with
  | nil => simp [occurrences, carriers]
  | cons e es ih =>
    rw [List.forall_mem_cons, ← ih, occurrences_cons]
    by_cases h : name ∈ names e
    · rw [carriers_cons_of_mem names name h]
      have hone := List.one_le_count_iff.mpr h
      constructor
      · intro heq
        have hlen := congrArg List.length heq
        have hle := length_carriers_le names name es
        simp only [List.length_append, List.length_replicate, List.length_cons] at hlen
        have hcount : (names e).count name = 1 := by omega
        rw [hcount] at heq
        exact ⟨Nat.le_of_eq hcount, (List.cons.inj heq).2⟩
      · rintro ⟨hle, heq⟩
        rw [Nat.le_antisymm hle hone, heq]
        rfl
    · rw [carriers_cons_of_not_mem names name h, List.count_eq_zero.mpr h]
      simp

/-- With one carrier alone, the members are that one as often as it gives the name. -/
lemma occurrences_of_carriers_eq_singleton {e : Entry} {entries : List Entry}
    (h : carriers names name entries = [e]) :
    occurrences names name entries = List.replicate ((names e).count name) e := by
  rw [occurrences_eq_flatMap_carriers, h, List.flatMap_singleton]

end

/-- Which labels are listed, and with which entries. A label is listed for the number of times that
entries carry it, and its group has an entry for each time. Where no entry repeats the label, its
group is the entries that carry it, once each in their order, and two of them make it listed. Where
an entry repeats it, the group repeats the entry, and the label is listed for one page alone if only
that page carries it. -/
theorem lookup_listed_byLabel (entries : List Entry) (label : Text) :
    ((listed leastListed (byLabel entries)).map Prod.fst).Nodup ∧
    (listed leastListed (byLabel entries)).lookup label =
      (if 2 ≤ (entries.map fun e => e.labels.count label).sum
        then some (occurrences Entry.labels label entries) else none) ∧
    (occurrences Entry.labels label entries = carriers Entry.labels label entries ↔
      ∀ e ∈ entries, e.labels.count label ≤ 1) ∧
    (label ∈ (listed leastListed (byLabel entries)).map Prod.fst ∧
        (carriers Entry.labels label entries).length < 2 ↔
      ∃ e, carriers Entry.labels label entries = [e] ∧ 2 ≤ e.labels.count label) := by
  have hlookup := lookup_listed_groupBy Entry.labels label entries
  have hlisted : label ∈ (listed leastListed (byLabel entries)).map Prod.fst ↔
      2 ≤ (occurrences Entry.labels label entries).length := by
    rw [← not_iff_not, ← lookup_eq_none, byLabel, hlookup]
    split <;> simp_all
  refine ⟨(nodup_keys_groupBy Entry.labels entries).sublist (List.filter_sublist.map _), ?_,
    occurrences_eq_carriers_iff Entry.labels label entries, ?_⟩
  · rw [byLabel, hlookup, length_occurrences]
  · rw [hlisted]
    constructor
    · rintro ⟨hmany, hfew⟩
      -- no carrier at all would be no occurrence
      rcases hcarriers : carriers Entry.labels label entries with _ | ⟨e, _ | ⟨e', es⟩⟩
      · rw [occurrences_eq_flatMap_carriers, hcarriers] at hmany
        simp at hmany
      · rw [occurrences_of_carriers_eq_singleton Entry.labels label hcarriers,
          List.length_replicate] at hmany
        exact ⟨e, rfl, hmany⟩
      · simp only [hcarriers, List.length_cons] at hfew
        omega
    · rintro ⟨e, hcarriers, htwice⟩
      rw [occurrences_of_carriers_eq_singleton Entry.labels label hcarriers, hcarriers,
        List.length_replicate]
      exact ⟨htwice, Nat.one_lt_two⟩

/-- The label that one page carries twice is listed. -/
example :
    (listed leastListed (byLabel [⟨['/'], [], [], [['x'], ['y'], ['x']], [], none⟩])).map Prod.fst =
      [['x']] := by
  decide

end Sitewright.Catalog
