import Mathlib.Data.List.TakeWhile
import Sitewright.Proofs.Result
import Sitewright.Text.Scan

/-!
What a scan does to a text. A finder that reads what it says loses nothing of the text, and each of
its constructs stands where the finder finds it.
-/
namespace Sitewright.Text

variable {α : Type}

section Parts

/-- What a test says about each character of a text. -/
lemma forall_of_all {p : Char → Prop} [DecidablePred p] {t : Text}
    (h : t.all (fun c => decide (p c)) = true) : ∀ c ∈ t, p c :=
  fun c hc => of_decide_eq_true (List.all_eq_true.mp h c hc)

lemma dropEndWhile_subset (p : Char → Bool) (t : Text) : dropEndWhile p t ⊆ t := fun _ hc =>
  List.mem_reverse.mp ((List.dropWhile_suffix p).subset (List.mem_reverse.mp hc))

lemma trim_subset (p : Char → Bool) (t : Text) : trim p t ⊆ t := fun _ hc =>
  (List.dropWhile_suffix p).subset (dropEndWhile_subset p _ hc)

lemma mem_dropWhile_iff {p : Char → Bool} {c : Char} (hc : p c = false) (t : Text) : c ∈ t.dropWhile p ↔ c ∈ t := by
  have hsplit : c ∈ t ↔ c ∈ t.takeWhile p ∨ c ∈ t.dropWhile p := by
    rw [← List.mem_append, List.takeWhile_append_dropWhile]
  have htake : c ∉ t.takeWhile p := by
    intro hmem
    rw [List.mem_takeWhile_imp hmem] at hc
    cases hc
  simp [hsplit, htake]

lemma mem_trim_iff {p : Char → Bool} {c : Char} (hc : p c = false) (t : Text) : c ∈ trim p t ↔ c ∈ t := by
  rw [trim, dropEndWhile, List.mem_reverse, mem_dropWhile_iff hc, List.mem_reverse,
    mem_dropWhile_iff hc]

lemma trim_eq_nil {p : Char → Bool} {t : Text} (h : ∀ c ∈ t, p c = true) : trim p t = [] := by
  rw [trim, List.dropWhile_eq_nil_iff.mpr h]
  rfl

lemma spanWhile_append (p : Char → Bool) (t : Text) : (spanWhile p t).1 ++ (spanWhile p t).2 = t :=
  List.takeWhile_append_dropWhile

lemma mem_spanWhile {p : Char → Bool} {t : Text} {c : Char} (h : c ∈ (spanWhile p t).1) :
    p c = true := List.mem_takeWhile_imp h

lemma spanWhile_eq {p : Char → Bool} {t a b : Text} (h : spanWhile p t = (a, b)) :
    t = a ++ b ∧ ∀ c ∈ a, p c = true := by
  obtain ⟨rfl, rfl⟩ := Prod.mk.inj h
  exact ⟨(spanWhile_append p t).symm, fun c hc => mem_spanWhile hc⟩

/-- A beginning without a character ends before that character. -/
lemma length_le_of_not_mem {m rest u v : Text} {c : Char} (h : u ++ c :: v = m ++ rest) (hm : c ∉ m) :
    m.length ≤ u.length := by
  rcases List.append_eq_append_iff.mp h with ⟨z, rfl, hz⟩ | ⟨z, rfl, -⟩
  · cases z with
    | nil => simp
    | cons d z =>
      obtain ⟨rfl, -⟩ := List.cons.inj hz
      simp at hm
  · simp

/-- Two beginnings without a character end before the first one. -/
lemma append_cons_inj {m m' v v' : Text} {c : Char} (h : m ++ c :: v = m' ++ c :: v') (hm : c ∉ m)
    (hm' : c ∉ m') : m = m' ∧ v = v' := by
  have hlength := (length_le_of_not_mem h.symm hm).antisymm (length_le_of_not_mem h hm')
  obtain ⟨rfl, hrest⟩ := List.append_inj h hlength
  exact ⟨rfl, (List.cons.inj hrest).2⟩

/-- Two ends without a character begin behind the last one. -/
lemma append_cons_inj_last {m m' v v' : Text} {c : Char} (h : m ++ c :: v = m' ++ c :: v') (hv : c ∉ v)
    (hv' : c ∉ v') : m = m' ∧ v = v' := by
  have hreverse : v.reverse ++ c :: m.reverse = v'.reverse ++ c :: m'.reverse := by
    simpa using congrArg List.reverse h
  obtain ⟨hend, hfront⟩ := append_cons_inj hreverse (mt List.mem_reverse.mp hv) (mt List.mem_reverse.mp hv')
  exact ⟨List.reverse_inj.mp hfront, List.reverse_inj.mp hend⟩

/-- The longest beginning ends before the first character that does not belong to it. -/
lemma spanWhile_stop {p : Char → Bool} {a rest : Text} {d : Char} (ha : ∀ c ∈ a, p c = true)
    (hd : p d = false) : spanWhile p (a ++ d :: rest) = (a, d :: rest) := by
  simp [spanWhile, List.takeWhile_append_of_pos ha, List.dropWhile_append_of_pos ha, hd]

/-- The longest beginning ends where the text does or a character does not belong to it. -/
lemma spanWhile_of_head {p : Char → Bool} {a b : Text} (ha : ∀ c ∈ a, p c = true)
    (hb : ∀ c ∈ b.head?, p c = false) : spanWhile p (a ++ b) = (a, b) := by
  cases b with
  | nil =>
    rw [List.append_nil, spanWhile, List.takeWhile_eq_self_iff.mpr ha, List.dropWhile_eq_nil_iff.mpr ha]
  | cons d b => exact spanWhile_stop ha (hb d rfl)

/-- A run of characters does not go on behind one that does not belong to it. -/
lemma spanWhile_cut {p : Char → Bool} {d : Char} (hd : p d = false) (t s : Text) :
    spanWhile p (t ++ d :: s) = ((spanWhile p t).1, (spanWhile p t).2 ++ d :: s) := by
  induction t with
  | nil => simp [spanWhile, hd]
  | cons c cs ih =>
    have hcs := Prod.mk.inj ih
    cases hc : p c with
    | false => simp [spanWhile, hc]
    | true => simpa [spanWhile, hc] using hcs

/-- A word is not found across a character that it does not hold. -/
lemma isPrefixOf?_cut {w : Text} {d : Char} (hw : d ∉ w) (t s : Text) :
    w.isPrefixOf? (t ++ d :: s) = (w.isPrefixOf? t).map (· ++ d :: s) := by
  induction w generalizing t with
  | nil => rfl
  | cons a w ih =>
    rw [List.mem_cons, not_or] at hw
    cases t with
    | nil =>
      have ha : (a == d) = false := beq_false_of_ne (Ne.symm hw.1)
      simp [List.isPrefixOf?, ha]
    | cons c cs =>
      rw [List.cons_append, List.isPrefixOf?, List.isPrefixOf?]
      split
      · exact ih hw.2 cs
      · rfl

lemma cutLine_eq_some {t line rest : Text} :
    cutLine t = (line, some rest) ↔ t = line ++ '\n' :: rest ∧ '\n' ∉ line := by
  have hbreak : ∀ c, decide (c ≠ '\n') = false ↔ c = '\n' := by simp
  constructor
  · intro h
    unfold cutLine at h
    split at h
    · cases h
    · rename_i c tail hdrop
      have hne : t.dropWhile (fun c => decide (c ≠ '\n')) ≠ [] := by rw [hdrop]; simp
      have hhead := List.head_dropWhile_not _ hne
      simp only [hdrop, List.head_cons] at hhead
      obtain rfl := (hbreak c).mp hhead
      obtain ⟨rfl, hrest⟩ := Prod.mk.inj h
      obtain rfl := Option.some.inj hrest
      refine ⟨?_, fun hm => by simpa using List.mem_takeWhile_imp hm⟩
      rw [← hdrop]
      exact List.takeWhile_append_dropWhile.symm
  · rintro ⟨rfl, hline⟩
    have hspan : spanWhile (fun c => decide (c ≠ '\n')) (line ++ '\n' :: rest) = (line, '\n' :: rest) :=
      spanWhile_stop (fun c hc => decide_eq_true (ne_of_mem_of_not_mem hc hline)) (by simp)
    obtain ⟨htake, hdrop⟩ := Prod.mk.inj hspan
    rw [cutLine, hdrop, htake]

lemma cutLine_some {t line rest : Text} (h : cutLine t = (line, some rest)) :
    t = line ++ '\n' :: rest := (cutLine_eq_some.mp h).1

/-- A place at which a line starts, behind the lines of a text that begins at a line start or not. -/
def EndsLine (fresh : Bool) (t : Text) : Prop := t = [] ∧ fresh = true ∨ ∃ u, t = u ++ ['\n']

/-- What is cut off at a line is followed by what the closing line matches. -/
lemma breakAtLine_some {close : Text → Option α} {fresh : Bool} {t body : Text} {a : α}
    (h : breakAtLine close fresh t = some (body, a)) :
    ∃ rest, t = body ++ rest ∧ close rest = some a ∧ EndsLine fresh body := by
  induction t generalizing fresh body with
  | nil =>
    cases fresh with
    | false => simp [breakAtLine] at h
    | true =>
      simp only [breakAtLine, if_true, Option.map_eq_some_iff, Prod.mk.injEq] at h
      obtain ⟨c, hc, rfl, rfl⟩ := h
      exact ⟨[], rfl, hc, .inl ⟨rfl, rfl⟩⟩
  | cons c cs ih =>
    unfold breakAtLine at h
    split at h
    · rename_i a' ha
      obtain ⟨rfl, rfl⟩ : [] = body ∧ a' = a := by simpa using h
      cases fresh with
      | false => cases ha
      | true => exact ⟨c :: cs, rfl, ha, .inl ⟨rfl, rfl⟩⟩
    · simp only [Option.map_eq_some_iff, Prod.mk.injEq] at h
      obtain ⟨⟨body', a'⟩, hb, rfl, rfl⟩ := h
      obtain ⟨rest, rfl, hclose, hline⟩ := ih hb
      refine ⟨rest, rfl, hclose, .inr ?_⟩
      rcases hline with ⟨rfl, hc⟩ | ⟨u, rfl⟩
      · exact ⟨[], by simpa using hc⟩
      · exact ⟨c :: u, rfl⟩

lemma endsLine_nil {fresh : Bool} : EndsLine fresh [] ↔ fresh = true := by
  simp [EndsLine]

lemma endsLine_cons {fresh : Bool} {c : Char} {t : Text} :
    EndsLine fresh (c :: t) ↔ EndsLine (c = '\n') t := by
  constructor
  · rintro (⟨h, -⟩ | ⟨_ | ⟨d, u⟩, hu⟩)
    · cases h
    · obtain ⟨rfl, rfl⟩ := List.cons.inj hu
      exact .inl ⟨rfl, rfl⟩
    · exact .inr ⟨u, (List.cons.inj hu).2⟩
  · rintro (⟨rfl, hc⟩ | ⟨u, rfl⟩)
    · exact .inr ⟨[], by rw [of_decide_eq_true hc]; rfl⟩
    · exact .inr ⟨c :: u, rfl⟩

lemma atLineStart_reverse {t : Text} : atLineStart t.reverse = true ↔ EndsLine true t := by
  constructor
  · intro h
    rcases List.eq_nil_or_concat' t with rfl | ⟨u, c, rfl⟩
    · exact .inl ⟨rfl, rfl⟩
    · refine .inr ⟨u, ?_⟩
      rw [List.reverse_append] at h
      obtain rfl : c = '\n' := of_decide_eq_true h
      rfl
  · rintro (⟨rfl, -⟩ | ⟨u, rfl⟩)
    · rfl
    · rw [List.reverse_append]
      rfl

/-- The end of a text ends a line if it does so of a text in front of it as well. -/
lemma EndsLine.of_append {fresh : Bool} {t u : Text} (h : EndsLine fresh (t ++ u)) : EndsLine true u := by
  rcases List.eq_nil_or_concat' u with rfl | ⟨v, c, rfl⟩
  · exact .inl ⟨rfl, rfl⟩
  · rcases h with ⟨h, -⟩ | ⟨w, h⟩
    · simp at h
    · rw [← List.append_assoc] at h
      obtain ⟨-, hc⟩ := List.append_inj' h rfl
      exact .inr ⟨v, by rw [hc]⟩

lemma EndsLine.append {fresh : Bool} {t u : Text} (h : EndsLine true u) (ht : u = [] → EndsLine fresh t) :
    EndsLine fresh (t ++ u) := by
  rcases h with ⟨rfl, -⟩ | ⟨v, rfl⟩
  · rw [List.append_nil]
    exact ht rfl
  · exact .inr ⟨t ++ v, (List.append_assoc t v _).symm⟩

lemma atLineEnd_append {t u : Text} (h : atLineEnd t = true) (ht : t = [] → atLineEnd u = true) :
    atLineEnd (t ++ u) = true := by
  cases t with
  | nil => exact ht rfl
  | cons c cs => exact h

lemma atLineEnd_of_append {t u : Text} (h : atLineEnd (t ++ u) = true) : atLineEnd t = true := by
  cases t with
  | nil => rfl
  | cons c cs => exact h

/-- A text is not cut off when no line of it closes it. -/
lemma breakAtLine_eq_none {close : Text → Option α} {fresh : Bool} {t : Text} :
    breakAtLine close fresh t = none ↔ ∀ u v, t = u ++ v → EndsLine fresh u → close v = none := by
  induction t generalizing fresh with
  | nil =>
    have hnil : (∀ u v, [] = u ++ v → EndsLine fresh u → close v = none) ↔ (fresh = true → close [] = none) := by
      refine ⟨fun h hfresh => h [] [] rfl (endsLine_nil.mpr hfresh), fun h u v huv hu => ?_⟩
      obtain ⟨rfl, rfl⟩ := List.append_eq_nil_iff.mp huv.symm
      exact h (endsLine_nil.mp hu)
    rw [hnil, breakAtLine]
    cases fresh <;> simp
  | cons c cs ih =>
    have hcons : (∀ u v, c :: cs = u ++ v → EndsLine fresh u → close v = none) ↔
        (fresh = true → close (c :: cs) = none) ∧
          ∀ u v, cs = u ++ v → EndsLine (c = '\n') u → close v = none := by
      refine ⟨fun h => ⟨fun hfresh => h [] _ rfl (endsLine_nil.mpr hfresh), fun u v huv hu => ?_⟩, ?_⟩
      · exact h (c :: u) v (by rw [huv]; rfl) (endsLine_cons.mpr hu)
      · rintro ⟨hhead, htail⟩ (_ | ⟨d, u⟩) v huv hu
        · obtain rfl : c :: cs = v := huv
          exact hhead (endsLine_nil.mp hu)
        · obtain ⟨rfl, rfl⟩ := List.cons.inj huv
          exact htail u v rfl (endsLine_cons.mp hu)
    rw [hcons, ← ih, breakAtLine]
    cases fresh <;> cases hclose : close (c :: cs) <;> simp

/-- A text is cut off at the first line that closes it. -/
lemma breakAtLine_eq_some {close : Text → Option α} {fresh : Bool} {body rest : Text} {a : α} :
    breakAtLine close fresh (body ++ rest) = some (body, a) ↔ EndsLine fresh body ∧ close rest = some a ∧
      ∀ u v, body = u ++ v → v ≠ [] → EndsLine fresh u → close (v ++ rest) = none := by
  induction body generalizing fresh with
  | nil =>
    rw [endsLine_nil, List.nil_append]
    have hquiet : ∀ u v, [] = u ++ v → v ≠ [] → EndsLine fresh u → close (v ++ rest) = none :=
      fun u v huv hv => absurd (List.append_eq_nil_iff.mp huv.symm).2 hv
    cases rest with
    | nil => cases fresh <;> simp [breakAtLine]
    | cons c cs => cases fresh <;> cases hclose : close (c :: cs) <;> simp [breakAtLine, hclose]
  | cons c cs ih =>
    have hcons : (∀ u v, c :: cs = u ++ v → v ≠ [] → EndsLine fresh u → close (v ++ rest) = none) ↔
        (fresh = true → close (c :: (cs ++ rest)) = none) ∧
          ∀ u v, cs = u ++ v → v ≠ [] → EndsLine (c = '\n') u → close (v ++ rest) = none := by
      refine ⟨fun h => ⟨fun hfresh => h [] _ rfl (by simp) (endsLine_nil.mpr hfresh), fun u v huv hv hu => ?_⟩, ?_⟩
      · exact h (c :: u) v (by rw [huv]; rfl) hv (endsLine_cons.mpr hu)
      · rintro ⟨hhead, htail⟩ (_ | ⟨d, u⟩) v huv hv hu
        · obtain rfl : c :: cs = v := huv
          exact hhead (endsLine_nil.mp hu)
        · obtain ⟨rfl, rfl⟩ := List.cons.inj huv
          exact htail u v rfl hv (endsLine_cons.mp hu)
    rw [hcons, endsLine_cons, List.cons_append, breakAtLine]
    have htail := @ih (c = '\n')
    cases fresh <;> cases hclose : close (c :: (cs ++ rest)) <;>
      simp only [Bool.false_eq_true, if_false, if_true, Option.map_eq_some_iff, Prod.mk.injEq,
        List.cons.injEq, true_and] <;> simp [htail]

/-- A text is cut off at a line that closes it, or at one before. -/
lemma breakAtLine_isSome {close : Text → Option α} {fresh : Bool} {body rest : Text}
    (hline : EndsLine fresh body) (hclose : (close rest).isSome = true) :
    (breakAtLine close fresh (body ++ rest)).isSome = true := by
  rw [Option.isSome_iff_ne_none] at hclose ⊢
  exact fun h => hclose (breakAtLine_eq_none.mp h body rest rfl hline)

end Parts

/-- A finder reads what it says: a construct as written stands at its place, and is not empty. -/
def Finder.Exact (find : Finder α) (source : α → Text) : Prop :=
  ∀ before after hit, find before after = some hit →
    hit.size = (source hit.value).length ∧ source hit.value ≠ [] ∧ source hit.value <+: after

/-- A finder that does not look back. -/
def Finder.Local (find : Finder α) : Prop := ∀ before before' after, find before after = find before' after

/-- A piece as written. -/
def Piece.source (source : α → Text) : Piece α → Text
  | .plain t => t
  | .found v => source v

/-- Pieces as written, in a row. -/
def sourceOf (source : α → Text) (ps : List (Piece α)) : Text := ps.flatMap (Piece.source source)

@[simp] lemma sourceOf_cons (source : α → Text) (p : Piece α) (ps : List (Piece α)) :
    sourceOf source (p :: ps) = p.source source ++ sourceOf source ps := rfl

lemma sourceOf_append (source : α → Text) (ps qs : List (Piece α)) :
    sourceOf source (ps ++ qs) = sourceOf source ps ++ sourceOf source qs := List.flatMap_append

/-- Every construct among the pieces stands where the finder finds it. -/
def Located (find : Finder α) (source : α → Text) (before : Text) : List (Piece α) → Prop
  | [] => True
  | .plain t :: ps => Located find source (t.reverse ++ before) ps
  | .found v :: ps =>
    (∃ size, find before (source v ++ sourceOf source ps) = some ⟨v, size⟩) ∧
      Located find source ((source v).reverse ++ before) ps

lemma piecesFrom_skip (find : Finder α) (before plain : Text) (n : ℕ) (t : Text) :
    piecesFrom find before plain n t =
      piecesFrom find ((t.take n).reverse ++ before) plain 0 (t.drop n) := by
  induction n generalizing before t with
  | zero => simp
  | succ n ih =>
    cases t with
    | nil => simp [piecesFrom]
    | cons c cs => rw [piecesFrom, ih]; simp

/-- A construct found at a place is cut off as a whole. -/
lemma piecesFrom_hit {find : Finder α} {source : α → Text} (hexact : find.Exact source)
    (plain : Text) {before : Text} {c : Char} {cs : Text} {hit : Hit α}
    (h : find before (c :: cs) = some hit) :
    ∃ rest, c :: cs = source hit.value ++ rest ∧ piecesFrom find before plain 0 (c :: cs) =
      .plain plain.reverse :: .found hit.value ::
        piecesFrom find ((source hit.value).reverse ++ before) [] 0 rest := by
  obtain ⟨hsize, hne, rest, hrest⟩ := hexact _ _ _ h
  refine ⟨rest, hrest.symm, ?_⟩
  obtain ⟨d, ds, hd⟩ := List.exists_cons_of_ne_nil hne
  rw [hd, List.cons_append, List.cons.injEq] at hrest
  obtain ⟨rfl, rfl⟩ := hrest
  simp only [piecesFrom, h]
  rw [piecesFrom_skip, hsize, hd]
  simp

/-- A construct among the pieces is found somewhere. -/
lemma Located.find_of_mem {find : Finder α} {source : α → Text} {before : Text}
    {ps : List (Piece α)} (h : Located find source before ps) {v : α} (hv : .found v ∈ ps) :
    ∃ before after size, find before (source v ++ after) = some ⟨v, size⟩ := by
  induction ps generalizing before with
  | nil => cases hv
  | cons p ps ih =>
    rcases List.mem_cons.mp hv with rfl | hrest
    · obtain ⟨⟨size, hfind⟩, -⟩ := h
      exact ⟨before, _, size, hfind⟩
    · cases p with
      | plain t => exact ih h hrest
      | found w => exact ih h.2 hrest

/-- Where a construct among the pieces stands, the finder finds it. -/
lemma Located.find_at {find : Finder α} {source : α → Text} {before : Text} {front back : List (Piece α)} {v : α}
    (h : Located find source before (front ++ .found v :: back)) :
    ∃ size, find ((sourceOf source front).reverse ++ before) (source v ++ sourceOf source back) =
      some ⟨v, size⟩ := by
  induction front generalizing before with
  | nil => exact h.1
  | cons p front ih =>
    rw [sourceOf_cons, List.reverse_append, List.append_assoc]
    cases p with
    | plain t => exact ih h
    | found w => exact ih h.2

/-- Nothing is found at the places of a text, if other text stands behind it. -/
def Quiet (find : Finder α) (before t after : Text) : Prop :=
  ∀ u v, t = u ++ v → v ≠ [] → find (u.reverse ++ before) (v ++ after) = none

lemma Quiet.of_cons {find : Finder α} {before t after : Text} {c : Char}
    (h : Quiet find before (c :: t) after) : Quiet find (c :: before) t after := by
  intro u v huv hv
  have := h (c :: u) v (by rw [huv]; rfl) hv
  simpa using this

lemma Quiet.cons {find : Finder α} {before t after : Text} {c : Char}
    (hc : find before (c :: (t ++ after)) = none) (h : Quiet find (c :: before) t after) :
    Quiet find before (c :: t) after := by
  rintro (_ | ⟨d, u⟩) v huv hv
  · obtain rfl : c :: t = v := huv
    exact hc
  · obtain ⟨rfl, rfl⟩ := List.cons.inj huv
    simpa using h u v rfl hv

lemma Quiet.split {find : Finder α} {before t u after : Text} (h : Quiet find before (t ++ u) after) :
    Quiet find before t (u ++ after) ∧ Quiet find (t.reverse ++ before) u after := by
  constructor
  · rintro v w rfl hw
    have hplace := h v (w ++ u) (List.append_assoc v w u) (List.append_ne_nil_of_left_ne_nil hw u)
    rwa [List.append_assoc] at hplace
  · rintro v w rfl hw
    have hplace := h (t ++ v) w (List.append_assoc t v w).symm hw
    rwa [List.reverse_append, List.append_assoc] at hplace

lemma Quiet.append {find : Finder α} {before t u after : Text} (ht : Quiet find before t (u ++ after))
    (hu : Quiet find (t.reverse ++ before) u after) : Quiet find before (t ++ u) after := by
  induction t generalizing before with
  | nil => exact hu
  | cons c t ih =>
    have hc : find before (c :: (t ++ (u ++ after))) = none := ht [] (c :: t) rfl (List.cons_ne_nil c t)
    rw [← List.append_assoc] at hc
    rw [List.reverse_cons, List.append_assoc] at hu
    exact .cons hc (ih ht.of_cons hu)

lemma piecesFrom_quiet {find : Finder α} {before t after : Text} (plain : Text)
    (h : Quiet find before t after) : piecesFrom find before plain 0 (t ++ after) =
      piecesFrom find (t.reverse ++ before) (t.reverse ++ plain) 0 after := by
  induction t generalizing before plain with
  | nil => rfl
  | cons c cs ih =>
    have hc : find before (c :: (cs ++ after)) = none := h [] (c :: cs) rfl (by simp)
    rw [List.cons_append, piecesFrom, hc]
    dsimp only
    rw [ih _ h.of_cons]
    simp

/-- A text is plain as a whole, or a construct is found in it, and the first one is cut off. -/
lemma piecesFrom_cases (find : Finder α) (before plain t : Text) :
    (Quiet find before t [] ∧ piecesFrom find before plain 0 t = [.plain (plain.reverse ++ t)]) ∨
    ∃ u c cs hit, t = u ++ c :: cs ∧ Quiet find before u (c :: cs) ∧
      find (u.reverse ++ before) (c :: cs) = some hit ∧
      piecesFrom find before plain 0 t = .plain (plain.reverse ++ u) :: .found hit.value ::
        piecesFrom find (c :: (u.reverse ++ before)) [] (hit.size - 1) cs := by
  induction t generalizing before plain with
  | nil => exact .inl ⟨fun u v huv hv => absurd (List.append_eq_nil_iff.mp huv.symm).2 hv, by simp [piecesFrom]⟩
  | cons c cs ih =>
    cases hfind : find before (c :: cs) with
    | some hit =>
      refine .inr ⟨[], c, cs, hit, rfl, fun u v huv hv => ?_, hfind, ?_⟩
      · exact absurd (List.append_eq_nil_iff.mp huv.symm).2 hv
      · simp only [piecesFrom, hfind, List.append_nil, List.reverse_nil, List.nil_append]
    | none =>
      simp only [piecesFrom, hfind]
      rcases ih (c :: before) (c :: plain) with ⟨hquiet, hpieces⟩ | ⟨u, d, ds, hit, rfl, hquiet, hhit, hpieces⟩
      · refine .inl ⟨hquiet.cons (by rwa [List.append_nil]), ?_⟩
        rw [hpieces]
        simp
      · refine .inr ⟨c :: u, d, ds, hit, rfl, hquiet.cons hfind, by simpa using hhit, ?_⟩
        rw [hpieces]
        simp

section Scanned

variable {find : Finder α} {source : α → Text}

/-- Pieces that a scan cuts a text into: nothing is found in a plain stretch, and every construct stands
where it is found. -/
inductive Scanned (find : Finder α) (source : α → Text) : Text → List (Piece α) → Prop
  | last {before t} (hquiet : Quiet find before t []) : Scanned find source before [.plain t]
  | step {before t v ps} (hquiet : Quiet find before t (source v ++ sourceOf source ps))
      (hfind : find (t.reverse ++ before) (source v ++ sourceOf source ps) = some ⟨v, (source v).length⟩)
      (hps : Scanned find source ((source v).reverse ++ (t.reverse ++ before)) ps) :
      Scanned find source before (.plain t :: .found v :: ps)

lemma scanned_piecesFrom (hexact : find.Exact source) (before t : Text) :
    sourceOf source (piecesFrom find before [] 0 t) = t ∧
      Scanned find source before (piecesFrom find before [] 0 t) := by
  induction h : t.length using Nat.strongRecOn generalizing t before with
  | _ n ih =>
    subst h
    rcases piecesFrom_cases find before [] t with ⟨hquiet, hpieces⟩ | ⟨u, c, cs, hit, rfl, hquiet, hhit, -⟩
    · rw [hpieces]
      exact ⟨List.append_nil t, .last hquiet⟩
    · obtain ⟨rest, hrest, hpieces⟩ := piecesFrom_hit hexact (u.reverse ++ []) hhit
      rw [piecesFrom_quiet [] hquiet, hpieces, List.append_nil, List.reverse_reverse]
      obtain ⟨hsize, hne, -⟩ := hexact _ _ _ hhit
      have hlt : rest.length < (u ++ c :: cs).length := by
        have := List.length_pos_iff.mpr hne
        rw [hrest, List.length_append, List.length_append]
        omega
      obtain ⟨hsource, hscanned⟩ :=
        ih rest.length hlt ((source hit.value).reverse ++ (u.reverse ++ before)) rest rfl
      have hvalue : hit = ⟨hit.value, (source hit.value).length⟩ := by rw [← hsize]
      rw [hrest] at hquiet hhit
      rw [hvalue] at hhit
      refine ⟨?_, .step (by rwa [hsource]) (by rwa [hsource]) hscanned⟩
      rw [sourceOf_cons, sourceOf_cons, hsource, hrest]
      rfl

lemma Scanned.piecesFrom_eq (hexact : find.Exact source) {before : Text} {ps : List (Piece α)}
    (h : Scanned find source before ps) : piecesFrom find before [] 0 (sourceOf source ps) = ps := by
  induction h with
  | @last before t hquiet =>
    have hplain := piecesFrom_quiet [] hquiet
    rw [List.append_nil] at hplain
    rw [sourceOf_cons]
    simp only [Piece.source, sourceOf, List.flatMap_nil, List.append_nil]
    rw [hplain]
    simp [piecesFrom]
  | @step before t v ps hquiet hfind hps ih =>
    obtain ⟨c, cs, hsource⟩ := List.exists_cons_of_ne_nil (hexact _ _ _ hfind).2.1
    rw [sourceOf_cons, sourceOf_cons]
    simp only [Piece.source]
    rw [piecesFrom_quiet [] hquiet]
    have hcons : source v ++ sourceOf source ps = c :: (cs ++ sourceOf source ps) := by rw [hsource]; rfl
    rw [hcons] at hfind ⊢
    obtain ⟨rest, hrest, hpieces⟩ := piecesFrom_hit hexact (t.reverse ++ []) hfind
    rw [← hcons] at hrest
    obtain rfl := List.append_cancel_left hrest
    rw [hpieces, ih]
    simp

/-- A text is cut in just one way such that a scan finds the constructs and nothing between. -/
theorem pieces_eq_iff (hexact : find.Exact source) {t : Text} {ps : List (Piece α)} :
    pieces find t = ps ↔ sourceOf source ps = t ∧ Scanned find source [] ps := by
  constructor
  · rintro rfl
    exact scanned_piecesFrom hexact [] t
  · rintro ⟨rfl, h⟩
    exact h.piecesFrom_eq hexact

theorem sourceOf_pieces (hexact : find.Exact source) (t : Text) : sourceOf source (pieces find t) = t :=
  (scanned_piecesFrom hexact [] t).1

/-- If what is found does not depend on what stands before it, pieces are found behind any text. -/
lemma Scanned.anywhere (hlocal : find.Local) {before before' : Text} {ps : List (Piece α)}
    (h : Scanned find source before ps) : Scanned find source before' ps := by
  induction h generalizing before' with
  | last hquiet => exact .last fun u v huv hv => (hlocal _ _ _).trans (hquiet u v huv hv)
  | step hquiet hfind hps ih =>
    exact .step (fun u v huv hv => (hlocal _ _ _).trans (hquiet u v huv hv)) ((hlocal _ _ _).trans hfind) ih

/-- The pieces of two texts around a construct are those of the whole if nothing in front of the construct is
found otherwise with it than without it. -/
lemma Scanned.append (hexact : find.Exact source) {before : Text} {ps qs : List (Piece α)} {v : α}
    (hcut : ∀ b t, t ≠ [] → find b (t ++ (source v ++ sourceOf source qs)) = find b t)
    (hfind : ∀ b, find b (source v ++ sourceOf source qs) = some ⟨v, (source v).length⟩)
    (hqs : ∀ b, Scanned find source b qs) (hps : Scanned find source before ps) :
    Scanned find source before (ps ++ .found v :: qs) := by
  induction hps with
  | last hquiet =>
    refine .step (fun u w huw hw => ?_) (hfind _) (hqs _)
    have h := hquiet u w huw hw
    rw [List.append_nil] at h
    exact (hcut _ w hw).trans h
  | @step before t w ps hquiet hw hps ih =>
    have hne := (hexact _ _ _ hw).2.1
    have hsource : source w ++ sourceOf source (ps ++ .found v :: qs) =
        (source w ++ sourceOf source ps) ++ (source v ++ sourceOf source qs) := by
      rw [sourceOf_append, sourceOf_cons, Piece.source, List.append_assoc]
    rw [List.cons_append, List.cons_append]
    refine .step (fun u x hux hx => ?_) ?_ ih
    · have h := hquiet u x hux hx
      rw [hsource, ← List.append_assoc, hcut _ _ (by simp [hx])]
      exact h
    · rw [hsource, hcut _ _ (by simp [hne])]
      exact hw

lemma Scanned.located {before : Text} {ps : List (Piece α)} (h : Scanned find source before ps) :
    Located find source before ps := by
  induction h with
  | last hquiet => trivial
  | step hquiet hfind hps ih => exact ⟨⟨_, hfind⟩, ih⟩

theorem located_pieces (hexact : find.Exact source) (t : Text) : Located find source [] (pieces find t) :=
  (scanned_piecesFrom hexact [] t).2.located

end Scanned

section Values

variable {β : Type}

/-- A finder that also gives the text of what it finds. -/
def Finder.withSource (find : Finder α) : Finder (Text × α) := fun before after =>
  (find before after).map fun hit => ⟨(after.take hit.size, hit.value), hit.size⟩

/-- A piece with another value for its construct. -/
def Piece.map (f : α → β) : Piece α → Piece β
  | .plain t => .plain t
  | .found v => .found (f v)

lemma Finder.exact_withSource {find : Finder α} (h : ∀ before after hit, find before after = some hit →
    hit.size ≠ 0 ∧ hit.size ≤ after.length) : find.withSource.Exact Prod.fst := by
  intro before after hit' hhit'
  obtain ⟨hit, hhit, rfl⟩ := Option.map_eq_some_iff.mp hhit'
  obtain ⟨hpos, hle⟩ := h before after hit hhit
  refine ⟨(List.length_take_of_le hle).symm, fun hnil => ?_, List.take_prefix _ _⟩
  have hzero := congrArg List.length hnil
  rw [List.length_take_of_le hle] at hzero
  exact hpos hzero

lemma map_piecesFrom_withSource (find : Finder α) (before plain : Text) (skip : ℕ) (t : Text) :
    (piecesFrom find.withSource before plain skip t).map (Piece.map Prod.snd) =
      piecesFrom find before plain skip t := by
  induction t generalizing before plain skip with
  | nil => cases skip <;> rfl
  | cons c cs ih =>
    cases skip with
    | succ skip => exact ih _ _ _
    | zero =>
      rw [piecesFrom, piecesFrom, Finder.withSource]
      cases find before (c :: cs) with
      | none => exact ih _ _ _
      | some hit => exact congrArg (fun ps => .plain plain.reverse :: .found hit.value :: ps) (ih _ _ _)

/-- The pieces of a text are the same with and without their texts. -/
lemma map_pieces_withSource (find : Finder α) (t : Text) :
    (pieces find.withSource t).map (Piece.map Prod.snd) = pieces find t :=
  map_piecesFrom_withSource find [] [] 0 t

/-- A construct among the pieces is found where its text stands. -/
lemma find_of_mem_withSource {find : Finder α} (hexact : find.withSource.Exact Prod.fst) {t : Text} {v : Text × α}
    (h : .found v ∈ pieces find.withSource t) : ∃ before after size,
      find before (v.1 ++ after) = some ⟨v.2, size⟩ ∧ (v.1 ++ after).take size = v.1 := by
  obtain ⟨before, after, size, hfind⟩ := (located_pieces hexact t).find_of_mem h
  obtain ⟨hit, hhit, heq⟩ := Option.map_eq_some_iff.mp hfind
  obtain ⟨hv, -⟩ := Hit.mk.inj heq
  refine ⟨before, after, hit.size, ?_, congrArg Prod.fst hv⟩
  rw [hhit, ← congrArg Prod.snd hv]

end Values

section Substitute

variable {find : Finder α} {write : α → Text}

lemma substitute_eq_sourceOf (t : Text) :
    substitute find write t = sourceOf write (pieces find t) := by
  rfl

/-- The construct of a piece, none if the piece is plain. -/
def Piece.construct? : Piece α → Option α
  | .plain _ => none
  | .found v => some v

/-- The constructs among pieces, in order. -/
def constructs (ps : List (Piece α)) : List α := ps.filterMap Piece.construct?

@[simp] lemma constructs_nil : constructs ([] : List (Piece α)) = [] := rfl

@[simp] lemma constructs_plain (t : Text) (ps : List (Piece α)) : constructs (.plain t :: ps) = constructs ps := rfl

@[simp] lemma constructs_found (v : α) (ps : List (Piece α)) :
    constructs (.found v :: ps) = v :: constructs ps := rfl

lemma mem_constructs {v : α} {ps : List (Piece α)} : v ∈ constructs ps ↔ .found v ∈ ps := by
  rw [constructs, List.mem_filterMap]
  constructor
  · rintro ⟨_ | w, hp, hv⟩
    · cases hv
    · exact Option.some.inj hv ▸ hp
  · exact fun hv => ⟨_, hv, rfl⟩

/-- Pieces are written with other values as their values are. -/
lemma sourceOf_map {β : Type} (f : α → β) (write : β → Text) (ps : List (Piece α)) :
    sourceOf write (ps.map (Piece.map f)) = sourceOf (fun v => write (f v)) ps := by
  rw [sourceOf, List.flatMap_map]
  exact List.flatMap_congr fun p _ => by cases p <;> rfl

lemma constructs_map {β : Type} (f : α → β) (ps : List (Piece α)) :
    constructs (ps.map (Piece.map f)) = (constructs ps).map f := by
  induction ps with
  | nil => rfl
  | cons p ps ih =>
    cases p with
    | plain t => exact ih
    | found v => exact congrArg (f v :: ·) ih

lemma findAll_eq (t : Text) : findAll find t = constructs (pieces find t) := rfl

/-- Something is found in a text exactly when it is found somewhere. -/
lemma findAll_ne_nil_iff (t : Text) :
    findAll find t ≠ [] ↔ ∃ u v, t = u ++ v ∧ v ≠ [] ∧ (find u.reverse v).isSome = true := by
  rw [findAll_eq, pieces]
  rcases piecesFrom_cases find [] [] t with ⟨hquiet, hpieces⟩ | ⟨u, c, cs, hit, htext, -, hhit, hpieces⟩
  · rw [hpieces]
    refine iff_of_false (fun h => h rfl) ?_
    rintro ⟨u, v, huv, hv, hhit⟩
    have hnone := hquiet u v huv hv
    rw [List.append_nil, List.append_nil] at hnone
    rw [hnone] at hhit
    cases hhit
  · rw [hpieces]
    refine iff_of_true (by simp) ⟨u, c :: cs, htext, by simp, ?_⟩
    rw [List.append_nil] at hhit
    rw [hhit]
    rfl

/-- Plain text put in front of pieces. -/
def addPlain (u : Text) : List (Piece α) → List (Piece α)
  | .plain t :: ps => .plain (u ++ t) :: ps
  | ps => .plain u :: ps

lemma addPlain_addPlain (u t : Text) (ps : List (Piece α)) :
    addPlain u (addPlain t ps) = addPlain (u ++ t) ps := by
  rcases ps with _ | ⟨_ | _, ps⟩ <;> simp [addPlain]

@[simp] lemma sourceOf_addPlain (u : Text) (ps : List (Piece α)) :
    sourceOf write (addPlain u ps) = u ++ sourceOf write ps := by
  rcases ps with _ | ⟨_ | _, ps⟩ <;> simp [addPlain, sourceOf, Piece.source]

@[simp] lemma constructs_addPlain (u : Text) (ps : List (Piece α)) :
    constructs (addPlain u ps) = constructs ps := by
  rcases ps with _ | ⟨_ | _, ps⟩ <;> rfl

section Local

variable (hlocal : find.Local)
include hlocal

/-- What a text is cut into does not depend on what stands before it. -/
lemma piecesFrom_eq (before plain : Text) (n : ℕ) (t : Text) :
    piecesFrom find before plain n t = addPlain plain.reverse (pieces find (t.drop n)) := by
  induction h : t.length using Nat.strongRecOn generalizing t before plain n with
  | _ m ih =>
    subst h
    rw [piecesFrom_skip]
    cases hdrop : t.drop n with
    | nil => simp [piecesFrom, pieces, addPlain]
    | cons c cs =>
      have hlt : cs.length < t.length := by
        have := congrArg List.length hdrop
        rw [List.length_drop, List.length_cons] at this
        omega
      simp only [pieces, piecesFrom]
      rw [hlocal _ [] (c :: cs)]
      cases find [] (c :: cs) with
      | none =>
        simp only
        rw [ih cs.length hlt _ _ 0 cs rfl, ih cs.length hlt _ _ 0 cs rfl, addPlain_addPlain]
        simp
      | some hit =>
        simp only
        rw [ih cs.length hlt _ _ _ cs rfl, ih cs.length hlt _ _ _ cs rfl]
        simp [addPlain]

lemma pieces_none {c : Char} {cs : Text} (h : find [] (c :: cs) = none) :
    pieces find (c :: cs) = addPlain [c] (pieces find cs) := by
  conv_lhs => simp only [pieces, piecesFrom, h]
  rw [piecesFrom_eq hlocal]
  rfl

lemma pieces_hit {t rest : Text} {hit : Hit α} (h : find [] (t ++ rest) = some hit)
    (hsize : hit.size = t.length) (hne : t ≠ []) :
    pieces find (t ++ rest) = .plain [] :: .found hit.value :: addPlain [] (pieces find rest) := by
  obtain ⟨c, cs, rfl⟩ := List.exists_cons_of_ne_nil hne
  rw [List.cons_append] at h ⊢
  conv_lhs => simp only [pieces, piecesFrom, h]
  rw [piecesFrom_eq hlocal, hsize]
  simp

/-- Text in which nothing is found is plain. -/
lemma pieces_plain (t rest : Text) (h : ∀ u v, t = u ++ v → v ≠ [] → find [] (v ++ rest) = none) :
    pieces find (t ++ rest) = addPlain t (pieces find rest) := by
  induction t with
  | nil => exact piecesFrom_eq hlocal [] [] 0 rest
  | cons c cs ih =>
    have hhead : find [] (c :: (cs ++ rest)) = none := h [] (c :: cs) rfl (by simp)
    rw [List.cons_append, pieces_none hlocal hhead, ih, addPlain_addPlain]
    · rfl
    · intro u v huv hv
      exact h (c :: u) v (by rw [huv]; rfl) hv

/-- What is written for a text does not depend on what stands before it. -/
lemma sourceOf_piecesFrom (before plain : Text) (n : ℕ) (t : Text) :
    sourceOf write (piecesFrom find before plain n t) =
      plain.reverse ++ sourceOf write (pieces find (t.drop n)) := by
  rw [piecesFrom_eq hlocal, sourceOf_addPlain]

lemma substitute_none {c : Char} {cs : Text} (h : find [] (c :: cs) = none) :
    substitute find write (c :: cs) = c :: substitute find write cs := by
  rw [substitute_eq_sourceOf, pieces_none hlocal h, sourceOf_addPlain]
  rfl

lemma substitute_hit {t rest : Text} {hit : Hit α} (h : find [] (t ++ rest) = some hit)
    (hsize : hit.size = t.length) (hne : t ≠ []) :
    substitute find write (t ++ rest) = write hit.value ++ substitute find write rest := by
  rw [substitute_eq_sourceOf, pieces_hit hlocal h hsize hne]
  simp [sourceOf_cons, Piece.source, substitute_eq_sourceOf]

/-- Text in which nothing is found is copied. -/
lemma substitute_plain (t rest : Text)
    (h : ∀ u v, t = u ++ v → v ≠ [] → find [] (v ++ rest) = none) :
    substitute find write (t ++ rest) = t ++ substitute find write rest := by
  rw [substitute_eq_sourceOf, pieces_plain hlocal t rest h, sourceOf_addPlain]
  rfl

lemma findAll_hit {t rest : Text} {hit : Hit α} (h : find [] (t ++ rest) = some hit)
    (hsize : hit.size = t.length) (hne : t ≠ []) :
    findAll find (t ++ rest) = hit.value :: findAll find rest := by
  rw [findAll_eq, pieces_hit hlocal h hsize hne]
  exact congrArg (hit.value :: ·) (constructs_addPlain [] (pieces find rest))

lemma findAll_plain (t rest : Text) (h : ∀ u v, t = u ++ v → v ≠ [] → find [] (v ++ rest) = none) :
    findAll find (t ++ rest) = findAll find rest := by
  rw [findAll_eq, pieces_plain hlocal t rest h, constructs_addPlain]
  rfl

end Local

/-- If everything found can be written, so can the text. -/
lemma substituteM_eq_ok {ε : Type} {writeM : α → Except ε Text} {t : Text}
    (h : ∀ v ∈ findAll find t, writeM v = .ok (write v)) :
    substituteM find writeM t = .ok (substitute find write t) := by
  rw [findAll_eq] at h
  rw [substituteM, substitute_eq_sourceOf, mapM_eq_ok (g := Piece.source write)]
  · rw [sourceOf, List.flatMap_def]
    rfl
  · intro p hp
    cases p with
    | plain u => rfl
    | found v => exact h v (List.mem_filterMap.mpr ⟨_, hp, rfl⟩)

end Substitute

end Sitewright.Text
