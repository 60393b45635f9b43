import Sitewright.Proofs.Result
import Sitewright.Yaml.Load

/-!
Which nodes have no value. A fault that is not that of a malformed text has its cause somewhere in the
node, and a node with such a cause is never loaded.
-/
namespace Sitewright.Yaml

section Results

variable {α β γ : Type} {P : Error → Prop}

/-- The result is no other fault than those given. -/
def Load.Blames (P : Error → Prop) (a : Load α) : Prop := ∀ f, a = .error f → P f.error

namespace Load

lemma Blames.ok (x : α) : Blames P (.ok x : Load α) := fun _ h => by cases h

lemma Blames.fault {e : Error} (h : P e) : Blames P (Yaml.fault e : Load α) := by
  intro f hf
  obtain rfl := Except.error.inj hf
  exact h

lemma Blames.ofExcept {r : Except Error α} (h : ∀ e, r = .error e → P e) : Blames P (ofExcept r) := by
  intro f hf
  cases r with
  | ok x => cases hf
  | error e =>
    obtain rfl := Except.error.inj hf
    exact h e rfl

lemma Blames.mono {Q : Error → Prop} {a : Load α} (h : Blames P a) (hPQ : ∀ e, P e → Q e) : Blames Q a :=
  fun f hf => hPQ f.error (h f hf)

lemma Blames.map {a : Load α} (h : Blames P a) (g : α → β) : Blames P (a.map g) := by
  intro f hf
  cases a with
  | ok x => cases hf
  | error f' =>
    obtain rfl := Except.error.inj hf
    exact h f' rfl

lemma Blames.bind {a : Load α} {g : α → Load β} (h : Blames P a)
    (hg : ∀ x, a = .ok x → Blames P (g x)) : Blames P (a >>= g) := by
  cases a with
  | ok x => exact hg x rfl
  | error f =>
    intro f' hf
    obtain rfl := Except.error.inj hf
    exact h f rfl

lemma Blames.below {a : Load α} (h : Blames P a) (inKey : Bool) : Blames P (below inKey a) := by
  intro f hf
  cases a with
  | ok x => cases inKey <;> cases hf
  | error f' =>
    have hP := h f' rfl
    cases inKey <;> (obtain rfl := Except.error.inj hf; exact hP)

lemma Blames.both {a : Load α} {b : Load β} (ha : Blames P a) (hb : Blames P b) (g : α → β → γ) :
    Blames P (both g a b) := by
  intro f hf
  cases a with
  | ok x =>
    cases b with
    | ok y => cases hf
    | error f' =>
      obtain rfl := Except.error.inj hf
      exact hb f' rfl
  | error f₁ =>
    cases b with
    | ok y =>
      obtain rfl := Except.error.inj hf
      exact ha f₁ rfl
    | error f₂ =>
      obtain rfl := Except.error.inj hf
      split
      · exact hb f₂ rfl
      · exact ha f₁ rfl

lemma Blames.all {as : List (Load α)} (h : ∀ a ∈ as, Blames P a) : Blames P (all as) := by
  induction as with
  | nil => exact .ok []
  | cons a as ih =>
    exact .both (h a List.mem_cons_self) (ih fun b hb => h b (List.mem_cons_of_mem a hb)) _

lemma below_ok {inKey : Bool} {a : Load α} {x : α} : below inKey a = .ok x ↔ a = .ok x := by
  cases a <;> cases inKey <;> simp [below, Except.mapError]

lemma both_ok {g : α → β → γ} {a : Load α} {b : Load β} {z : γ} (h : both g a b = .ok z) :
    ∃ x y, a = .ok x ∧ b = .ok y ∧ g x y = z := by
  cases a with
  | error f => cases b <;> cases h
  | ok x =>
    cases b with
    | error f => cases h
    | ok y => exact ⟨x, y, rfl, rfl, Except.ok.inj h⟩

lemma all_ok {as : List (Load α)} {xs : List α} (h : all as = .ok xs) : ∀ a ∈ as, ∃ x, a = .ok x := by
  induction as generalizing xs with
  | nil => simp
  | cons a as ih =>
    obtain ⟨x, ys, rfl, has, -⟩ := both_ok h
    exact List.forall_mem_cons.mpr ⟨⟨x, rfl⟩, ih has⟩

lemma ofExcept_ok {r : Except Error α} {x : α} : ofExcept r = .ok x ↔ r = .ok x := by
  cases r <;> simp [ofExcept, Except.mapError]

end Load

/-- The result satisfies a condition unless the text is malformed. -/
def OrMalformed (r : Except Error α) (Q : α → Prop) : Prop :=
  match r with
  | .ok x => Q x
  | .error e => e = .malformed

lemma OrMalformed.bind {r : Except Error α} {g : α → Except Error β} {Q : α → Prop} {R : β → Prop}
    (hr : OrMalformed r Q) (hg : ∀ x, Q x → OrMalformed (g x) R) : OrMalformed (r >>= g) R := by
  cases r with
  | ok x => exact hg x hr
  | error e => exact hr

lemma OrMalformed.map {r : Except Error α} {g : α → β} {Q : α → Prop} {R : β → Prop}
    (hr : OrMalformed r Q) (hg : ∀ x, Q x → R (g x)) : OrMalformed (r.map g) R := by
  cases r with
  | ok x => exact hg x hr
  | error e => exact hr

lemma OrMalformed.of_ok {r : Except Error α} {Q : α → Prop} (hr : OrMalformed r Q) {x : α}
    (h : r = .ok x) : Q x := by
  subst h
  exact hr

lemma OrMalformed.blames {r : Except Error α} {Q : α → Prop} (hr : OrMalformed r Q)
    (hP : P .malformed) : (Load.ofExcept r).Blames P := by
  refine .ofExcept fun e he => ?_
  subst he
  exact hr ▸ hP

end Results

namespace Node

/-- The entries of a mapping, with those of the mappings that it merges in. -/
inductive Reached : List (Node × Node) → Node × Node → Prop
  | own {entries k v} (h : (k, v) ∈ entries) (hk : k.tag ≠ .merge) : Reached entries (k, v)
  | merge {entries k tag inner kv} (h : (k, .mapping tag inner) ∈ entries) (hk : k.tag = .merge)
      (hkv : Reached inner kv) : Reached entries kv
  | mergeAll {entries k tag items tag' inner kv} (h : (k, .sequence tag items) ∈ entries)
      (hk : k.tag = .merge) (hinner : .mapping tag' inner ∈ items) (hkv : Reached inner kv) :
      Reached entries kv

/-- The only entry of a mapping that has one. -/
def only? : Node → Option (Node × Node)
  | .mapping _ [kv] => some kv
  | _ => none

/-- The pairs that the items of a sequence stand for. -/
def pairsOf (items : List Node) : List (Node × Node) := items.filterMap only?

/-- Why a node has no value though it is well-formed: a scalar that names nothing, or a key that
cannot be one. -/
inductive Stray (older : Bool) : Bool → Node → Error → Prop
  | scalar {inKey tag t e} (h : scalarValue older tag t = .error e) (hne : e ≠ .malformed) :
      Stray older inKey (.scalar tag t) e
  | textOf {inKey tag entries t e} (htag : tag.admitsMap = true) (htext : textOfEntries? entries = some t)
      (h : scalarValue older tag t = .error e) (hne : e ≠ .malformed) :
      Stray older inKey (.mapping tag entries) e
  | item {inKey items n e} (hn : n ∈ items) (h : Stray older inKey n e) :
      Stray older inKey (.sequence .seq items) e
  | pairKey {inKey tag items k v e} (htag : tag = .omap ∨ tag = .pairs) (hkv : (k, v) ∈ pairsOf items)
      (h : Stray older inKey k e) : Stray older inKey (.sequence tag items) e
  | pairValue {inKey tag items k v e} (htag : tag = .omap ∨ tag = .pairs) (hkv : (k, v) ∈ pairsOf items)
      (h : Stray older inKey v e) : Stray older inKey (.sequence tag items) e
  | collectionKey {inKey items k v} (hkv : (k, v) ∈ pairsOf items) (hk : k.isCollection = true) :
      Stray older inKey (.sequence .omap items) .listInKey
  | repeatedKey {inKey items kv kv' a b} (hpair : [kv, kv'].Sublist (pairsOf items))
      (ha : load older inKey kv.1 = .ok a) (hb : load older inKey kv'.1 = .ok b)
      (h : b.same a = true) : Stray older inKey (.sequence .omap items) .repeatedKey
  | key {inKey tag entries k v e} (htag : tag = .map ∨ tag = .set) (hkv : Reached entries (k, v))
      (hk : k.tag ≠ .value) (h : Stray older true k e) : Stray older inKey (.mapping tag entries) e
  | value {inKey tag entries k v e} (htag : tag = .map ∨ tag = .set) (hkv : Reached entries (k, v))
      (h : Stray older inKey v e) : Stray older inKey (.mapping tag entries) e
  | listKey {inKey tag entries k v key} (htag : tag = .map ∨ tag = .set)
      (hkv : Reached entries (k, v)) (hk : k.tag ≠ .value) (h : load older true k >>= asKey = .ok key)
      (hkey : key.isKey = false) : Stray older inKey (.mapping tag entries) .listInKey

section Entries

variable (older inKey : Bool)

/-- An entry with its key and its value as they are loaded. -/
def entryOf : Node × Node → LoadedEntry
  | (k, v) => if k.tag = .value then ⟨.ok (.text ['=']), load older inKey v⟩
      else ⟨load older true k >>= asKey, load older inKey v⟩

/-- The entries that a mapping, or those in a sequence, have to offer for merging. -/
def Offers (n : Node) (kv : Node × Node) : Prop :=
  (∃ tag inner, n = .mapping tag inner ∧ Reached inner kv) ∨
    ∃ tag items tag' inner, n = .sequence tag items ∧ .mapping tag' inner ∈ items ∧ Reached inner kv

lemma reached_cons {k v : Node} {entries : List (Node × Node)} {kv : Node × Node} :
    Reached ((k, v) :: entries) kv ↔
      (k.tag ≠ .merge ∧ kv = (k, v)) ∨ (k.tag = .merge ∧ Offers v kv) ∨ Reached entries kv := by
  constructor
  · intro h
    cases h with
    | own h hk =>
      rcases List.mem_cons.mp h with heq | h
      · cases heq
        exact .inl ⟨hk, rfl⟩
      · exact .inr (.inr (.own h hk))
    | merge h hk hkv =>
      rcases List.mem_cons.mp h with heq | h
      · cases heq
        exact .inr (.inl ⟨hk, .inl ⟨_, _, rfl, hkv⟩⟩)
      · exact .inr (.inr (.merge h hk hkv))
    | mergeAll h hk hinner hkv =>
      rcases List.mem_cons.mp h with heq | h
      · cases heq
        exact .inr (.inl ⟨hk, .inr ⟨_, _, _, _, rfl, hinner, hkv⟩⟩)
      · exact .inr (.inr (.mergeAll h hk hinner hkv))
  · rintro (⟨hk, rfl⟩ | ⟨hk, ⟨tag, inner, rfl, hkv⟩ | ⟨tag, items, tag', inner, rfl, hinner, hkv⟩⟩ | h)
    · exact .own List.mem_cons_self hk
    · exact .merge List.mem_cons_self hk hkv
    · exact .mergeAll List.mem_cons_self hk hinner hkv
    · cases h with
      | own h hk => exact .own (List.mem_cons_of_mem _ h) hk
      | merge h hk hkv => exact .merge (List.mem_cons_of_mem _ h) hk hkv
      | mergeAll h hk hinner hkv => exact .mergeAll (List.mem_cons_of_mem _ h) hk hinner hkv

/-- The first entry gives its own share of the entries that are loaded. -/
lemma exists_reached_cons {k v : Node} {es : List (Node × Node)} {e : LoadedEntry} :
    (∃ kv, Reached ((k, v) :: es) kv ∧ e = entryOf older inKey kv) ↔
      ((k.tag ≠ .merge ∧ e = entryOf older inKey (k, v)) ∨
        k.tag = .merge ∧ ∃ kv, Offers v kv ∧ e = entryOf older inKey kv) ∨
      ∃ kv, Reached es kv ∧ e = entryOf older inKey kv := by
  simp only [reached_cons, or_and_right, exists_or, and_assoc, exists_and_left, ↓existsAndEq,
    true_and, or_assoc]

lemma mem_all_append (es : Entries) (own : List LoadedEntry) (e : LoadedEntry) :
    e ∈ ({ es with own := own ++ es.own } : Entries).all ↔ e ∈ es.all ∨ e ∈ own := by
  simp only [Entries.all, List.mem_append]
  tauto

mutual

lemma loadEntries_spec (merged : List LoadedEntry) : ∀ entries : List (Node × Node),
    OrMalformed (loadEntries older inKey merged entries) fun es => ∀ e, e ∈ es.all ↔
      e ∈ merged ∨ ∃ kv, Reached entries kv ∧ e = entryOf older inKey kv
  | [] => by
    have hnone : ∀ kv, ¬ Reached [] kv := fun kv h => by cases h <;> contradiction
    rw [loadEntries]
    intro e
    simp [Entries.all, hnone]
  | (k, v) :: es => by
    rw [loadEntries]
    refine (mergeEntry_spec (k, v)).bind fun r hr => ?_
    obtain ⟨more, own⟩ := r
    dsimp only at hr ⊢
    split
    · exact rfl
    · refine (loadEntries_spec (merged ++ more) es).bind fun rest hrest e => ?_
      have hentry := hr e
      rw [List.mem_append] at hentry
      rw [mem_all_append, hrest e, List.mem_append, exists_reached_cons, ← hentry]
      simp only [or_assoc, or_comm, or_left_comm]
termination_by x => sizeOf x

lemma mergeEntry_spec : ∀ kv : Node × Node, OrMalformed (mergeEntry older inKey kv) fun r => ∀ e,
    e ∈ r.1 ++ r.2.toList ↔ (kv.1.tag ≠ .merge ∧ e = entryOf older inKey kv) ∨
      (kv.1.tag = .merge ∧ ∃ kv', Offers kv.2 kv' ∧ e = entryOf older inKey kv')
  | (k, v) => by
    rw [mergeEntry]
    split
    · rename_i hk
      refine (mergeNode_spec v).map fun es hes e => ?_
      simpa [hk] using hes e
    · rename_i hk
      intro e
      simp [hk, entryOf]
    · rename_i hmerge hvalue
      replace hmerge : k.tag ≠ .merge := hmerge
      replace hvalue : k.tag ≠ .value := hvalue
      intro e
      simp [hmerge, hvalue, entryOf]
termination_by x => sizeOf x

lemma mergeNode_spec : ∀ n : Node, OrMalformed (mergeNode older inKey n) fun es => ∀ e,
    e ∈ es ↔ ∃ kv, Offers n kv ∧ e = entryOf older inKey kv
  | .scalar _ _ => by
    rw [mergeNode]
    exact rfl
  | .mapping _ entries => by
    rw [mergeNode]
    refine (loadEntries_spec [] entries).map fun es hes e => ?_
    simpa [Offers] using hes e
  | .sequence _ items => by
    rw [mergeNode]
    refine (mergeNodes_spec items).map fun ess hess e => ?_
    have hflat : e ∈ ess.reverse.flatten ↔ e ∈ ess.flatten := by simp
    rw [hflat, hess e]
    constructor
    · rintro ⟨tag, inner, kv, hinner, hkv, rfl⟩
      exact ⟨kv, .inr ⟨_, _, _, _, rfl, hinner, hkv⟩, rfl⟩
    · rintro ⟨kv, ⟨_, _, h, -⟩ | ⟨_, _, tag, inner, h, hinner, hkv⟩, rfl⟩
      · cases h
      · cases h
        exact ⟨tag, inner, kv, hinner, hkv, rfl⟩
termination_by x => sizeOf x

lemma mergeNodes_spec : ∀ items : List Node, OrMalformed (mergeNodes older inKey items) fun ess =>
    ∀ e, e ∈ ess.flatten ↔ ∃ tag inner kv, .mapping tag inner ∈ items ∧ Reached inner kv ∧
      e = entryOf older inKey kv
  | [] => by
    rw [mergeNodes]
    intro e
    simp
  | n :: ns => by
    rw [mergeNodes]
    refine (mergeMapping_spec n).bind fun es hes => (mergeNodes_spec ns).bind fun ess hess e => ?_
    rw [List.flatten_cons, List.mem_append, hes e, hess e]
    simp only [List.mem_cons, or_and_right, exists_or, eq_comm (a := n)]
termination_by x => sizeOf x

lemma mergeMapping_spec : ∀ n : Node, OrMalformed (mergeMapping older inKey n) fun es => ∀ e,
    e ∈ es ↔ ∃ tag inner kv, n = .mapping tag inner ∧ Reached inner kv ∧ e = entryOf older inKey kv
  | .scalar _ _ => by
    rw [mergeMapping]
    · exact rfl
    · exact fun _ _ => Node.noConfusion
  | .mapping _ entries => by
    rw [mergeMapping]
    refine (loadEntries_spec [] entries).map fun es hes e => ?_
    simpa using hes e
  | .sequence _ _ => by
    rw [mergeMapping]
    · exact rfl
    · exact fun _ _ => Node.noConfusion
termination_by x => sizeOf x

end

/-- A pair with its key and its value as they are loaded. -/
def pairOf (kv : Node × Node) : Node × Load Value × Load Value :=
  (kv.1, load older inKey kv.1, load older inKey kv.2)

lemma loadPair_spec (n : Node) : OrMalformed (loadPair older inKey n) fun p =>
    ∃ kv, only? n = some kv ∧ p = pairOf older inKey kv := by
  rcases n with _ | _ | ⟨tag, _ | ⟨⟨k, v⟩, _ | _⟩⟩
  · exact rfl
  · exact rfl
  · exact rfl
  · exact ⟨(k, v), rfl, rfl⟩
  · exact rfl

lemma loadPairs_spec (items : List Node) : OrMalformed (loadPairs older inKey items) fun ps =>
    ps = (pairsOf items).map (pairOf older inKey) := by
  induction items with
  | nil => exact rfl
  | cons n ns ih =>
    rw [loadPairs]
    refine (loadPair_spec older inKey n).bind fun p hp => ih.bind fun ps hps => ?_
    obtain ⟨kv, hkv, rfl⟩ := hp
    subst hps
    simp [OrMalformed, pairsOf, hkv, pure, Except.pure]

lemma loadAll_eq (items : List Node) : loadAll older inKey items = items.map (load older inKey) := by
  induction items with
  | nil => rfl
  | cons n ns ih => rw [loadAll, ih, List.map_cons]

end Entries

end Node

section Gathering

variable {P : Error → Prop}

lemma checkKey_blames (before : Option (List Value)) {key : Value} (hP : P .malformed)
    (hkey : key.isKey = false → P .listInKey) : (checkKey before key).Blames P := by
  unfold checkKey
  split
  · rename_i h
    exact .fault (hkey (by simpa using h))
  · split
    · exact .fault hP
    · exact .ok ()

lemma checkKey_ok {before : Option (List Value)} {key : Value} (h : checkKey before key = .ok ()) :
    key.isKey = true := by
  unfold checkKey at h
  split at h
  · cases h
  · simp_all

lemma gather_blames (before : Option (List Value)) {es : List LoadedEntry} (hP : P .malformed)
    (hes : ∀ e ∈ es, e.key.Blames P ∧ e.value.Blames P ∧
      ∀ key, e.key = .ok key → key.isKey = false → P .listInKey) : (gather before es).Blames P := by
  induction es generalizing before with
  | nil => exact .ok []
  | cons e es ih =>
    obtain ⟨hkey, hvalue, hlist⟩ := hes e List.mem_cons_self
    rw [gather]
    split
    · rename_i f hf
      intro f' hf'
      obtain rfl := Except.error.inj hf'
      exact hkey f hf
    · rename_i key hk
      have hchecked : (Load.both (fun v () => (key, v)) e.value (checkKey before key)).Blames P :=
        hvalue.both (checkKey_blames before hP (hlist key hk)) _
      dsimp only
      split
      · rename_i error herror
        intro f' hf'
        obtain rfl := Except.error.inj hf'
        exact hchecked _ herror
      · exact hchecked.both (ih _ fun e he => hes e (List.mem_cons_of_mem _ he)) _

lemma gather_ok {before : Option (List Value)} {es : List LoadedEntry} {m : List (Value × Value)}
    (h : gather before es = .ok m) :
    ∀ e ∈ es, ∃ key value, e.key = .ok key ∧ e.value = .ok value ∧ key.isKey = true := by
  induction es generalizing before m with
  | nil => simp
  | cons e es ih =>
    rw [gather] at h
    split at h
    · cases h
    · rename_i key hk
      dsimp only at h
      split at h
      · cases h
      · obtain ⟨kv, rest, hchecked, hrest, -⟩ := Load.both_ok h
        obtain ⟨value, u, hvalue, hcheck, -⟩ := Load.both_ok hchecked
        exact List.forall_mem_cons.mpr ⟨⟨key, value, hk, hvalue, checkKey_ok hcheck⟩, ih hrest⟩

lemma Entries.toMap_blames {es : Entries} (hP : P .malformed)
    (hes : ∀ e ∈ es.all, e.key.Blames P ∧ e.value.Blames P ∧
      ∀ key, e.key = .ok key → key.isKey = false → P .listInKey) : es.toMap.Blames P := by
  rw [toMap]
  split
  · exact gather_blames _ hP fun e he => hes e (List.mem_append_right _ he)
  · refine (gather_blames _ hP fun e he => hes e ?_).map _
    exact (List.mem_append.mp he).elim (fun he => List.mem_append_left _ he) id

lemma Entries.toMap_ok {es : Entries} {m : List (Value × Value)} (h : es.toMap = .ok m) :
    ∀ e ∈ es.all, ∃ key value, e.key = .ok key ∧ e.value = .ok value ∧ key.isKey = true := by
  rw [toMap] at h
  split at h
  · rename_i hmerged
    rw [List.isEmpty_iff] at hmerged
    rw [Entries.all, hmerged]
    exact gather_ok h
  · obtain ⟨m', hm', -⟩ := except_map_ok h
    exact fun e he => gather_ok hm' e (List.mem_append_right _ he)

end Gathering

namespace Node

section Pairs

variable {older inKey : Bool} {before : List Value} {kvs : List (Node × Node)}

/-- One key of an ordered map is the same as another one before it. -/
def Repeats (older inKey : Bool) (kvs : List (Node × Node)) : Prop :=
  ∃ kv kv' a b, [kv, kv'].Sublist kvs ∧ load older inKey kv.1 = .ok a ∧
    load older inKey kv'.1 = .ok b ∧ b.same a = true

lemma Repeats.cons {kv : Node × Node} (h : Repeats older inKey kvs) : Repeats older inKey (kv :: kvs) := by
  obtain ⟨kv₁, kv₂, a, b, hpair, h⟩ := h
  exact ⟨kv₁, kv₂, a, b, hpair.cons kv, h⟩

/-- `before` holds the keys of the pairs in front. -/
lemma orderedMap_blames {P : Error → Prop}
    (hkvs : ∀ kv ∈ kvs, (load older inKey kv.1).Blames P ∧ (load older inKey kv.2).Blames P ∧
      (kv.1.isCollection = true → P .listInKey))
    (hbefore : ∀ a ∈ before, ∀ kv ∈ kvs, ∀ b, load older inKey kv.1 = .ok b → b.same a = true →
      P .repeatedKey)
    (hrepeats : Repeats older inKey kvs → P .repeatedKey) :
    (orderedMap before (kvs.map (pairOf older inKey))).Blames P := by
  induction kvs generalizing before with
  | nil => exact .ok []
  | cons kv kvs ih =>
    obtain ⟨hkey, hvalue, hcollection⟩ := hkvs kv List.mem_cons_self
    rw [List.map_cons, pairOf, orderedMap.eq_def]
    dsimp only
    split
    · rename_i hc
      split
      · rename_i e he
        intro f hf
        obtain rfl := Except.error.inj hf
        exact hkey _ he
      · exact .fault (hcollection hc)
    · split
      · rename_i f hf
        intro f' hf'
        obtain rfl := Except.error.inj hf'
        exact hkey f hf
      · rename_i k hk
        split
        · rename_i hsame
          obtain ⟨a, ha, hsame⟩ := List.any_eq_true.mp hsame
          exact .fault (hbefore a ha kv List.mem_cons_self k hk hsame)
        · refine hvalue.both (ih (fun kv' hkv' => hkvs kv' (List.mem_cons_of_mem _ hkv'))
            (fun a ha kv' hkv' b hb hsame => ?_) fun h => hrepeats h.cons) _
          rcases List.mem_append.mp ha with ha | ha
          · exact hbefore a ha kv' (List.mem_cons_of_mem _ hkv') b hb hsame
          · obtain rfl := List.mem_singleton.mp ha
            exact hrepeats ⟨kv, kv', a, b, (List.singleton_sublist.mpr hkv').cons_cons kv, hk, hb, hsame⟩

lemma orderedMap_ok {m : List (Value × Value)}
    (h : orderedMap before (kvs.map (pairOf older inKey)) = .ok m) :
    (∀ kv ∈ kvs, kv.1.isCollection = false ∧ (∃ v, load older inKey kv.2 = .ok v) ∧
      ∃ b, load older inKey kv.1 = .ok b ∧ ∀ a ∈ before, b.same a = false) ∧
    ¬ Repeats older inKey kvs := by
  induction kvs generalizing before m with
  | nil =>
    refine ⟨by simp, ?_⟩
    rintro ⟨kv, kv', a, b, hpair, -⟩
    cases hpair
  | cons kv kvs ih =>
    rw [List.map_cons, pairOf, orderedMap.eq_def] at h
    dsimp only at h
    split at h
    · split at h <;> cases h
    · rename_i hc
      split at h
      · cases h
      · rename_i k hk
        split at h
        · cases h
        · rename_i hany
          obtain ⟨value, rest, hvalue, hrest, -⟩ := Load.both_ok h
          obtain ⟨hkvs, hrepeats⟩ := ih hrest
          have hfirst : ∀ a ∈ before, k.same a = false := by simpa using hany
          refine ⟨List.forall_mem_cons.mpr ⟨⟨by simpa using hc, ⟨value, hvalue⟩, k, hk, hfirst⟩,
            fun kv' hkv' => ?_⟩, ?_⟩
          · obtain ⟨hc', hv', b, hb, hsame⟩ := hkvs kv' hkv'
            exact ⟨hc', hv', b, hb, fun a ha => hsame a (List.mem_append_left _ ha)⟩
          · rintro ⟨kv₁, kv₂, a, b, hpair, ha, hb, hsame⟩
            cases hpair with
            | cons _ hpair => exact hrepeats ⟨kv₁, kv₂, a, b, hpair, ha, hb, hsame⟩
            | cons_cons _ hpair =>
              obtain rfl : k = a := Except.ok.inj (hk.symm.trans ha)
              obtain ⟨-, -, b', hb', hnot⟩ := hkvs kv₂ (List.singleton_sublist.mp hpair)
              obtain rfl : b' = b := Except.ok.inj (hb'.symm.trans hb)
              have := hnot k (by simp)
              rw [hsame] at this
              cases this

end Pairs

lemma mem_pairsOf {items : List Node} {kv : Node × Node} (h : kv ∈ pairsOf items) :
    ∃ tag, .mapping tag [kv] ∈ items := by
  obtain ⟨n, hn, honly⟩ := List.mem_filterMap.mp h
  rcases n with _ | _ | ⟨tag, _ | ⟨kv', _ | _⟩⟩
  · cases honly
  · cases honly
  · cases honly
  · obtain rfl := Option.some.inj honly
    exact ⟨tag, hn⟩
  · cases honly

lemma sizeOf_of_mem_pairsOf {items : List Node} {kv : Node × Node} (h : kv ∈ pairsOf items) :
    sizeOf kv.1 < sizeOf items ∧ sizeOf kv.2 < sizeOf items := by
  obtain ⟨tag, hn⟩ := mem_pairsOf h
  have hlt := List.sizeOf_lt_of_mem hn
  obtain ⟨k, v⟩ := kv
  simp only [mapping.sizeOf_spec, List.cons.sizeOf_spec, Prod.mk.sizeOf_spec, List.nil.sizeOf_spec] at hlt
  dsimp only
  omega

lemma Reached.sizeOf_lt {entries : List (Node × Node)} {kv : Node × Node} (h : Reached entries kv) :
    sizeOf kv.1 < sizeOf entries ∧ sizeOf kv.2 < sizeOf entries := by
  induction h with
  | own h hk =>
    have hlt := List.sizeOf_lt_of_mem h
    simp only [Prod.mk.sizeOf_spec] at hlt ⊢
    omega
  | merge h hk hkv ih =>
    have hlt := List.sizeOf_lt_of_mem h
    simp only [Prod.mk.sizeOf_spec, mapping.sizeOf_spec] at hlt
    omega
  | mergeAll h hk hinner hkv ih =>
    have hlt := List.sizeOf_lt_of_mem h
    have hlt' := List.sizeOf_lt_of_mem hinner
    simp only [Prod.mk.sizeOf_spec, mapping.sizeOf_spec, sequence.sizeOf_spec] at hlt hlt'
    omega

/-- The faults that a node may have: that it is malformed, or one with a cause in it. -/
def Blamed (older inKey : Bool) (n : Node) (e : Error) : Prop := e = .malformed ∨ Stray older inKey n e

lemma scalarValue_blames {older inKey : Bool} {n : Node} {tag : Tag} {t : Text}
    (h : ∀ e, scalarValue older tag t = .error e → e ≠ .malformed → Stray older inKey n e) :
    (Load.ofExcept (scalarValue older tag t)).Blames (Blamed older inKey n) :=
  .ofExcept fun e he => (em (e = .malformed)).imp_right (h e he)

lemma asKey_blames (v : Value) : (asKey v).Blames (· = .malformed) := by
  unfold asKey
  split
  · exact .ok _
  · exact .fault rfl
  · exact .fault rfl
  · exact .ok _

section Load

variable {older inKey : Bool} {tag : Tag} {items : List Node} {entries : List (Node × Node)}

lemma toMap_blames (htag : tag = .map ∨ tag = .set)
    (ih : ∀ kv, Reached entries kv → ∀ b, (load older b kv.1).Blames (Blamed older b kv.1) ∧
      (load older b kv.2).Blames (Blamed older b kv.2))
    {es : Entries} (hes : loadEntries older inKey [] entries = .ok es) :
    es.toMap.Blames (Blamed older inKey (.mapping tag entries)) := by
  refine Entries.toMap_blames (.inl rfl) fun e he => ?_
  obtain ⟨⟨k, v⟩, hkv, rfl⟩ := (((loadEntries_spec older inKey [] entries).of_ok hes e).mp he).resolve_left
    List.not_mem_nil
  have hvalue : (load older inKey v).Blames (Blamed older inKey (.mapping tag entries)) :=
    (ih _ hkv inKey).2.mono fun e he => he.imp_right (.value htag hkv)
  rw [entryOf]
  split
  · refine ⟨.ok _, hvalue, fun key hkey hno => ?_⟩
    obtain rfl := Except.ok.inj hkey
    cases hno
  · rename_i hk
    refine ⟨?_, hvalue, fun key hkey hno => .inr (.listKey htag hkv hk hkey hno)⟩
    exact .bind ((ih _ hkv true).1.mono fun e he => he.imp_right (.key htag hkv hk)) fun v _ =>
      (asKey_blames v).mono fun e he => .inl he

lemma load_blames (older inKey : Bool) (n : Node) : (load older inKey n).Blames (Blamed older inKey n) := by
  have hmalformed : ∀ b, (Load.below b (fault .malformed : Load Value)).Blames (Blamed older inKey n) :=
    fun b => .below (.fault (.inl rfl)) b
  match n with
  | .scalar tag t =>
    rw [load.eq_def]
    dsimp only
    split <;> first | exact hmalformed inKey | exact scalarValue_blames fun e => .scalar
  | .sequence tag items =>
    rw [load.eq_def]
    dsimp only
    split
    · refine .below (.map (.all fun a ha => ?_) _) inKey
      rw [loadAll_eq] at ha
      obtain ⟨n, hn, rfl⟩ := List.mem_map.mp ha
      have hlt := List.sizeOf_lt_of_mem hn
      exact (load_blames older inKey n).mono fun e he => he.imp_right (.item hn)
    · refine .below (.bind ((loadPairs_spec older inKey items).blames (.inl rfl)) fun pairs hpairs =>
        .bind ?_ fun m _ => .ok _) inKey
      obtain rfl := (loadPairs_spec older inKey items).of_ok (Load.ofExcept_ok.mp hpairs)
      refine orderedMap_blames (fun kv hkv => ?_) (fun a ha => absurd ha List.not_mem_nil) ?_
      · have hlt := sizeOf_of_mem_pairsOf hkv
        refine ⟨?_, ?_, fun hc => .inr (.collectionKey hkv hc)⟩
        · exact (load_blames older inKey kv.1).mono fun e he => he.imp_right (.pairKey (.inl rfl) hkv)
        · exact (load_blames older inKey kv.2).mono fun e he => he.imp_right (.pairValue (.inl rfl) hkv)
      · rintro ⟨kv, kv', a, b, hpair, ha, hb, h⟩
        exact .inr (.repeatedKey hpair ha hb h)
    · refine .below (.bind ((loadPairs_spec older inKey items).blames (.inl rfl)) fun pairs hpairs =>
        .bind (.all fun a ha => ?_) fun m _ => .ok _) inKey
      obtain rfl := (loadPairs_spec older inKey items).of_ok (Load.ofExcept_ok.mp hpairs)
      rw [List.map_map] at ha
      obtain ⟨kv, hkv, rfl⟩ := List.mem_map.mp ha
      have hlt := sizeOf_of_mem_pairsOf hkv
      refine .both ?_ ?_ _
      · exact (load_blames older inKey kv.1).mono fun e he => he.imp_right (.pairKey (.inr rfl) hkv)
      · exact (load_blames older inKey kv.2).mono fun e he => he.imp_right (.pairValue (.inr rfl) hkv)
    · exact hmalformed inKey
    · exact hmalformed inKey
    · exact .fault (.inl rfl)
  | .mapping tag entries =>
    have ih : ∀ kv, Reached entries kv → ∀ b, (load older b kv.1).Blames (Blamed older b kv.1) ∧
        (load older b kv.2).Blames (Blamed older b kv.2) := fun kv hkv b =>
      have hlt := hkv.sizeOf_lt
      ⟨load_blames older b kv.1, load_blames older b kv.2⟩
    rw [load.eq_def]
    dsimp only
    split
    · exact .below (.bind ((loadEntries_spec older inKey [] entries).blames (.inl rfl)) fun es hes =>
        .bind (toMap_blames (.inl rfl) ih (Load.ofExcept_ok.mp hes)) fun m _ => .ok _) inKey
    · exact .below (.bind ((loadEntries_spec older inKey [] entries).blames (.inl rfl)) fun es hes =>
        .bind (toMap_blames (.inr rfl) ih (Load.ofExcept_ok.mp hes)) fun m _ => .ok _) inKey
    · exact hmalformed inKey
    · exact hmalformed inKey
    · exact hmalformed inKey
    · split
      · rename_i htag htext
        exact scalarValue_blames fun e => .textOf htag htext
      · exact .fault (.inl rfl)
termination_by sizeOf n

lemma load_scalar_ok {t : Text} {v : Value} (h : load older inKey (.scalar tag t) = .ok v) :
    scalarValue older tag t = .ok v := by
  rw [load.eq_def] at h
  dsimp only at h
  split at h <;> first | exact Load.ofExcept_ok.mp h | cases Load.below_ok.mp h

lemma load_textOf_ok {t : Text} {v : Value} (htag : tag.admitsMap = true)
    (htext : textOfEntries? entries = some t) (h : load older inKey (.mapping tag entries) = .ok v) :
    scalarValue older tag t = .ok v := by
  rw [load.eq_def] at h
  dsimp only at h
  split at h
  · cases htag
  · cases htag
  · cases htag
  · cases htag
  · cases htag
  · rw [htag, htext] at h
    exact Load.ofExcept_ok.mp h

lemma load_seq_ok {v : Value} (h : load older inKey (.sequence .seq items) = .ok v) :
    ∀ n ∈ items, ∃ x, load older inKey n = .ok x := by
  rw [load.eq_def] at h
  obtain ⟨xs, hxs, -⟩ := except_map_ok (Load.below_ok.mp h)
  rw [loadAll_eq] at hxs
  exact fun n hn => Load.all_ok hxs _ (List.mem_map_of_mem hn)

lemma load_pairs_ok {v : Value} (htag : tag = .omap ∨ tag = .pairs)
    (h : load older inKey (.sequence tag items) = .ok v) :
    ∀ kv ∈ pairsOf items, (∃ x, load older inKey kv.1 = .ok x) ∧ ∃ x, load older inKey kv.2 = .ok x := by
  intro kv hkv
  rw [load.eq_def] at h
  rcases htag with rfl | rfl
  all_goals
    obtain ⟨ps, hps, h⟩ := except_bind_ok (Load.below_ok.mp h)
    obtain rfl := (loadPairs_spec older inKey items).of_ok (Load.ofExcept_ok.mp hps)
    obtain ⟨xs, hxs, -⟩ := except_bind_ok h
  · obtain ⟨-, hvalue, b, hb, -⟩ := (orderedMap_ok hxs).1 kv hkv
    exact ⟨⟨b, hb⟩, hvalue⟩
  · rw [List.map_map] at hxs
    obtain ⟨x, hx⟩ := Load.all_ok hxs _ (List.mem_map_of_mem hkv)
    obtain ⟨a, b, ha, hb, -⟩ := Load.both_ok hx
    exact ⟨⟨a, ha⟩, b, hb⟩

lemma load_omap_ok {v : Value} (h : load older inKey (.sequence .omap items) = .ok v) :
    (∀ kv ∈ pairsOf items, kv.1.isCollection = false) ∧ ¬ Repeats older inKey (pairsOf items) := by
  rw [load.eq_def] at h
  obtain ⟨ps, hps, h⟩ := except_bind_ok (Load.below_ok.mp h)
  obtain rfl := (loadPairs_spec older inKey items).of_ok (Load.ofExcept_ok.mp hps)
  obtain ⟨xs, hxs, -⟩ := except_bind_ok h
  exact ⟨fun kv hkv => ((orderedMap_ok hxs).1 kv hkv).1, (orderedMap_ok hxs).2⟩

lemma load_mapping_ok {v : Value} (htag : tag = .map ∨ tag = .set)
    (h : load older inKey (.mapping tag entries) = .ok v) :
    ∀ kv, Reached entries kv → ∃ key x, (entryOf older inKey kv).key = .ok key ∧
      load older inKey kv.2 = .ok x ∧ key.isKey = true := by
  intro kv hkv
  rw [load.eq_def] at h
  rcases htag with rfl | rfl
  all_goals
    obtain ⟨es, hes, h⟩ := except_bind_ok (Load.below_ok.mp h)
    obtain ⟨m, hm, -⟩ := except_bind_ok h
    have hmem : entryOf older inKey kv ∈ es.all :=
      ((loadEntries_spec older inKey [] entries).of_ok (Load.ofExcept_ok.mp hes) _).mpr
        (.inr ⟨kv, hkv, rfl⟩)
    obtain ⟨key, x, hkey, hx, hisKey⟩ := Entries.toMap_ok hm _ hmem
    refine ⟨key, x, hkey, ?_, hisKey⟩
    rw [← hx, entryOf]
    split <;> rfl

lemma entryOf_key {k v : Node} (hk : k.tag ≠ .value) :
    (entryOf older inKey (k, v)).key = (load older true k >>= asKey) := by
  rw [entryOf, if_neg hk]

/-- A node with a cause in it has no value. -/
lemma Stray.not_ok {n : Node} {e : Error} (h : Stray older inKey n e) (v : Value) :
    load older inKey n ≠ .ok v := by
  intro hv
  induction h generalizing v with
  | scalar h => cases h.symm.trans (load_scalar_ok hv)
  | textOf htag htext h => cases h.symm.trans (load_textOf_ok htag htext hv)
  | item hn h ih =>
    obtain ⟨x, hx⟩ := load_seq_ok hv _ hn
    exact ih x hx
  | pairKey htag hkv h ih =>
    obtain ⟨x, hx⟩ := (load_pairs_ok htag hv _ hkv).1
    exact ih x hx
  | pairValue htag hkv h ih =>
    obtain ⟨x, hx⟩ := (load_pairs_ok htag hv _ hkv).2
    exact ih x hx
  | collectionKey hkv hk =>
    rw [(load_omap_ok hv).1 _ hkv] at hk
    cases hk
  | repeatedKey hpair ha hb h => exact (load_omap_ok hv).2 ⟨_, _, _, _, hpair, ha, hb, h⟩
  | key htag hkv hk h ih =>
    obtain ⟨key, -, hkey, -⟩ := load_mapping_ok htag hv _ hkv
    rw [entryOf_key hk] at hkey
    obtain ⟨x, hx, -⟩ := except_bind_ok hkey
    exact ih x hx
  | value htag hkv h ih =>
    obtain ⟨-, x, -, hx, -⟩ := load_mapping_ok htag hv _ hkv
    exact ih x hx
  | listKey htag hkv hk h hkey =>
    obtain ⟨key, -, hkey', -, hisKey⟩ := load_mapping_ok htag hv _ hkv
    rw [entryOf_key hk, h] at hkey'
    obtain rfl := Except.ok.inj hkey'
    rw [hkey] at hisKey
    cases hisKey

end Load

end Node

end Sitewright.Yaml
