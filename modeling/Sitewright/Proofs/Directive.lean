import Sitewright.Child
import Sitewright.Proofs.Region

/-!
Where directives are found. One half of the program looks for them in the text between code as a whole,
the other one in each of its stretches; the two agree where no line of a directive is cut at code.
-/
namespace Sitewright

open Text (EndsLine atLineEnd atLineStart breakAtLine_isSome breakAtLine_some cutLine_eq_some isSpaceTab)

namespace Directive

/-- The lines of a directive as they are written: one that opens it, any others, and one that closes
it. -/
inductive IsDirective : Text → Prop
  | intro {options lines blanks : Text} (hnamed : ∀ c ∈ options.head?, isSpaceTab c = true)
      (hoptions : '\n' ∉ options) (hlines : EndsLine true lines) (hblanks : ∀ c ∈ blanks, isSpaceTab c = true) :
      IsDirective (lead ++ options ++ '\n' :: (lines ++ (close ++ blanks)))

/-- A text has a directive on lines of its own. -/
def Within (t : Text) : Prop :=
  ∃ x d y, t = x ++ (d ++ y) ∧ IsDirective d ∧ EndsLine true x ∧ atLineEnd y = true

lemma close?_eq_some {t rest : Text} : close? t = some rest ↔
    ∃ blanks, t = close ++ blanks ++ rest ∧ (∀ c ∈ blanks, isSpaceTab c = true) ∧ atLineEnd rest = true := by
  rw [close?, Option.bind_eq_some_iff]
  simp only [List.isPrefixOf?_eq_some_iff_append_eq, Option.ite_none_right_eq_some, Option.some.injEq]
  constructor
  · rintro ⟨tail, rfl, hend, rfl⟩
    refine ⟨tail.takeWhile isSpaceTab, ?_, fun c hc => List.mem_takeWhile_imp hc, hend⟩
    rw [List.append_assoc, List.takeWhile_append_dropWhile]
  · rintro ⟨blanks, rfl, hblanks, hend⟩
    have hdrop : (blanks ++ rest).dropWhile isSpaceTab = rest := by
      rw [List.dropWhile_append_of_pos hblanks]
      cases rest with
      | nil => rfl
      | cons c cs =>
        obtain rfl : c = '\n' := of_decide_eq_true hend
        exact List.dropWhile_cons_of_neg (by decide)
    exact ⟨blanks ++ rest, by simp, by rw [hdrop]; exact hend, hdrop⟩

lemma open?_eq_some {t options below : Text} : open? t = some (options, below) ↔
    t = lead ++ options ++ '\n' :: below ∧ '\n' ∉ options ∧ ∀ c ∈ options.head?, isSpaceTab c = true := by
  rw [open?, Option.bind_eq_some_iff]
  simp only [List.isPrefixOf?_eq_some_iff_append_eq]
  constructor
  · rintro ⟨rest, rfl, h⟩
    split at h
    · rename_i options' below' hnamed hcut
      cases h
      obtain ⟨rfl, hoptions⟩ := cutLine_eq_some.mp hcut
      refine ⟨by simp, hoptions, fun c hc => ?_⟩
      cases options with
      | nil => cases hc
      | cons d ds =>
        obtain rfl : d = c := Option.some.inj hc
        have hd : d ≠ '\n' := fun hd => hoptions (hd ▸ List.mem_cons_self)
        simpa [hd] using hnamed
    · cases h
  · rintro ⟨rfl, hoptions, hnamed⟩
    refine ⟨options ++ '\n' :: below, by simp, ?_⟩
    rw [cutLine_eq_some.mpr ⟨rfl, hoptions⟩]
    cases options with
    | nil => rfl
    | cons d ds =>
      have hd := hnamed d rfl
      simp [hd]

lemma IsDirective.open? {d : Text} (h : IsDirective d) (rest : Text) :
    (Directive.open? (d ++ rest)).isSome = true := by
  obtain ⟨hnamed, hoptions, -, -⟩ := h
  rename_i options lines blanks
  have hopen : Directive.open? (lead ++ options ++ '\n' :: (lines ++ (close ++ blanks)) ++ rest) =
      some (options, lines ++ (close ++ blanks) ++ rest) :=
    open?_eq_some.mpr ⟨by simp only [List.append_assoc, List.cons_append], hoptions, hnamed⟩
  rw [hopen]
  rfl

lemma find_some {before after : Text} {hit : Text.Hit Directive} (h : find before after = some hit) :
    atLineStart before = true ∧ ∃ d rest, after = d ++ rest ∧ hit.size = d.length ∧ IsDirective d ∧
      atLineEnd rest = true := by
  rw [find, Option.ite_none_right_eq_some] at h
  obtain ⟨hstart, h⟩ := h
  obtain ⟨⟨options, below⟩, hopen, h⟩ := Option.bind_eq_some_iff.mp h
  obtain ⟨⟨lines, rest⟩, hbreak, rfl⟩ := Option.map_eq_some_iff.mp h
  obtain ⟨rfl, hoptions, hnamed⟩ := open?_eq_some.mp hopen
  obtain ⟨_, rfl, hclose, hlines⟩ := breakAtLine_some hbreak
  obtain ⟨blanks, rfl, hblanks, hend⟩ := close?_eq_some.mp hclose
  refine ⟨hstart, _, rest, ?_, ?_, .intro hnamed hoptions hlines hblanks, hend⟩
  · simp only [List.append_assoc, List.cons_append]
  · simp only [List.length_append, List.length_cons]
    omega

lemma find_isSome {before d rest : Text} (hbefore : atLineStart before = true) (hd : IsDirective d)
    (hrest : atLineEnd rest = true) : (find before (d ++ rest)).isSome = true := by
  obtain ⟨hnamed, hoptions, hlines, hblanks⟩ := hd
  rename_i options lines blanks
  have hopen : Directive.open? (lead ++ options ++ '\n' :: (lines ++ (close ++ blanks)) ++ rest) =
      some (options, lines ++ (close ++ blanks ++ rest)) :=
    open?_eq_some.mpr ⟨by simp only [List.append_assoc, List.cons_append], hoptions, hnamed⟩
  have hclose : close? (close ++ blanks ++ rest) = some rest := close?_eq_some.mpr ⟨blanks, rfl, hblanks, hrest⟩
  rw [find, if_pos hbefore, hopen, Option.bind_some, Option.isSome_map]
  exact breakAtLine_isSome hlines (by rw [hclose]; rfl)

lemma IsDirective.ne_nil {d : Text} (h : IsDirective d) : d ≠ [] := by
  cases h
  exact List.append_ne_nil_of_right_ne_nil _ (List.cons_ne_nil _ _)

lemma IsDirective.lead_prefix {d : Text} (h : IsDirective d) : lead <+: d := by
  cases h
  exact (List.prefix_append _ _).trans (List.prefix_append _ _)

lemma findAll_ne_nil {t : Text} : Text.findAll find t ≠ [] ↔ Within t := by
  rw [Text.findAll_ne_nil_iff]
  constructor
  · rintro ⟨x, v, rfl, -, hfind⟩
    obtain ⟨hit, hhit⟩ := Option.isSome_iff_exists.mp hfind
    obtain ⟨hstart, d, y, rfl, -, hd, hend⟩ := find_some hhit
    exact ⟨x, d, y, rfl, hd, Text.atLineStart_reverse.mp hstart, hend⟩
  · rintro ⟨x, d, y, rfl, hd, hx, hy⟩
    refine ⟨x, d ++ y, rfl, List.append_ne_nil_of_left_ne_nil hd.ne_nil y, ?_⟩
    exact find_isSome (Text.atLineStart_reverse.mpr hx) hd hy

end Directive

/-- The plain stretches of a body. -/
def stretches (body : Text) : List Text :=
  (Text.pieces Region.find body).filterMap fun
    | .plain p => some p
    | .found _ => none

lemma mem_stretches {body p : Text} : p ∈ stretches body ↔ .plain p ∈ Text.pieces Region.find body := by
  rw [stretches, List.mem_filterMap]
  constructor
  · rintro ⟨_ | _, hq, h⟩
    · exact Option.some.inj h ▸ hq
    · cases h
  · exact fun h => ⟨_, h, rfl⟩

lemma outsideCode_eq (body : Text) : outsideCode body = (stretches body).flatten := by
  rw [outsideCode, stretches]
  induction Text.pieces Region.find body with
  | nil => rfl
  | cons p ps ih => cases p <;> simp [ih]

namespace Directive

section Expanding

variable {components : Components} {children : List Child} {mode : Option Text}

/-- The one text has a directive where the other one has a listing, and before that they are the
same. -/
def Differs (t t' : Text) : Prop := ∃ x r r', t = x ++ (lead ++ r) ∧ t' = x ++ (":::html\n".toList ++ r')

lemma Differs.ne {t t' : Text} (h : Differs t t') : t' ≠ t := by
  obtain ⟨x, r, r', rfl, rfl⟩ := h
  intro heq
  have hlead : ":::html\n".toList ++ r' = lead ++ r := List.append_cancel_left heq
  cases hlead

lemma Differs.append_left {t t' : Text} (u : Text) (h : Differs t t') : Differs (u ++ t) (u ++ t') := by
  obtain ⟨x, r, r', rfl, rfl⟩ := h
  exact ⟨u ++ x, r, r', by rw [List.append_assoc], by rw [List.append_assoc]⟩

lemma Differs.append_right {t t' : Text} (u u' : Text) (h : Differs t t') : Differs (t ++ u) (t' ++ u') := by
  obtain ⟨x, r, r', rfl, rfl⟩ := h
  exact ⟨x, r ++ u, r' ++ u', by simp only [List.append_assoc], by simp only [List.append_assoc]⟩

lemma expand_ok {d : Directive} {t : Text} (h : expand components children mode d = .ok t) :
    ∃ r, t = ":::html\n".toList ++ r := by
  cases hlisting : Child.listing components (Child.sort (d.mode? <|> mode) children) with
  | error e =>
    rw [expand, hlisting] at h
    cases h
  | ok html =>
    rw [expand, hlisting] at h
    obtain rfl := Except.ok.inj h
    exact ⟨html ++ "\n:::".toList, List.append_assoc _ _ _⟩

lemma substituteM_of_not_within {t : Text} (h : ¬ Within t) :
    Text.substituteM find (expand components children mode) t = .ok t := by
  have hnone : Text.findAll find t = [] := not_not.mp (mt findAll_ne_nil.mp h)
  rw [Text.findAll_eq, Text.pieces] at hnone
  rw [Text.substituteM, Text.pieces]
  rcases Text.piecesFrom_cases find [] [] t with ⟨-, hpieces⟩ | ⟨u, c, cs, hit, -, -, -, hpieces⟩
  · rw [hpieces]
    exact congrArg Except.ok (List.append_nil t)
  · rw [hpieces] at hnone
    cases hnone

lemma differs_of_within {t t' : Text} (ht : Within t)
    (h : Text.substituteM find (expand components children mode) t = .ok t') : Differs t t' := by
  have hsome := findAll_ne_nil.mpr ht
  rw [Text.findAll_eq, Text.pieces] at hsome
  rw [Text.substituteM, Text.pieces] at h
  rcases Text.piecesFrom_cases find [] [] t with ⟨-, hpieces⟩ | ⟨u, c, cs, hit, rfl, -, hhit, hpieces⟩
  · rw [hpieces] at hsome
    exact absurd rfl hsome
  · rw [hpieces] at h
    obtain ⟨parts, hparts, h⟩ := except_bind_ok h
    obtain rfl := Except.ok.inj h
    rw [mapM_ok_iff] at hparts
    obtain ⟨q, more, hq, hmore, rfl⟩ := List.forall₂_cons_left_iff.mp hparts
    obtain ⟨e, tail, he, -, rfl⟩ := List.forall₂_cons_left_iff.mp hmore
    obtain rfl := Except.ok.inj hq
    obtain ⟨r', rfl⟩ := expand_ok he
    obtain ⟨-, d, rest, htext, -, hd, -⟩ := find_some hhit
    obtain ⟨r, hr⟩ := hd.lead_prefix
    refine ⟨u, r ++ rest, r' ++ tail.flatten, ?_, ?_⟩
    · rw [htext, ← hr, List.append_assoc]
    · simp only [List.flatten_cons, List.append_assoc, List.reverse_nil, List.nil_append]

/-- Expanding leaves a body as it is exactly when no stretch of it has a directive. -/
lemma expandAll_ne_iff (body : Text) :
    expandAll components children mode body ≠ .ok body ↔ ∃ p ∈ stretches body, Within p := by
  have hsource := Text.sourceOf_pieces Region.find_exact body
  simp only [mem_stretches]
  rw [expandAll, editOutsideCodeM]
  constructor
  · intro h
    by_contra hnone
    refine h ?_
    rw [mapM_eq_ok (g := Text.Piece.source Region.source)]
    · exact congrArg Except.ok hsource
    · rintro (p | r) hp
      · exact substituteM_of_not_within fun hwithin => hnone ⟨p, hp, hwithin⟩
      · rfl
  · rintro ⟨p, hp, hwithin⟩ heq
    obtain ⟨parts, hparts, heq⟩ := except_bind_ok heq
    have hflatten : parts.flatten = body := Except.ok.inj heq
    rw [mapM_ok_iff] at hparts
    refine Differs.ne (t := Text.sourceOf Region.source (Text.pieces Region.find body)) ?_
      (hflatten.trans hsource.symm)
    clear heq hflatten hsource
    generalize Text.pieces Region.find body = pieces at hp hparts ⊢
    induction hparts with
    | nil => cases hp
    | @cons piece part pieces parts hpart _ ih =>
      rw [Text.sourceOf_cons, List.flatten_cons]
      rcases List.mem_cons.mp hp with rfl | hrest
      · exact (differs_of_within hwithin hpart).append_right _ _
      · cases piece with
        | found r =>
          obtain rfl := Except.ok.inj hpart
          exact (ih hrest).append_left _
        | plain t =>
          by_cases ht : Within t
          · exact (differs_of_within ht hpart).append_right _ _
          · obtain rfl := Except.ok.inj ((substituteM_of_not_within ht).symm.trans hpart)
            exact (ih hrest).append_left _

end Expanding

lemma IsDirective.close_suffix {d : Text} (h : IsDirective d) :
    ∃ u blanks, d = u ++ (close ++ blanks) ∧ EndsLine true u ∧ u ≠ [] ∧ ∀ c ∈ blanks, isSpaceTab c = true := by
  obtain ⟨-, -, hlines, hblanks⟩ := h
  rename_i options lines blanks
  refine ⟨lead ++ options ++ '\n' :: lines, blanks, ?_, ?_, ?_, hblanks⟩
  · simp only [List.append_assoc, List.cons_append]
  · rcases hlines with ⟨rfl, -⟩ | ⟨u, rfl⟩
    · exact .inr ⟨_, rfl⟩
    · exact .inr ⟨lead ++ options ++ '\n' :: u, by simp only [List.append_assoc, List.cons_append]⟩
  · exact List.append_ne_nil_of_right_ne_nil _ (List.cons_ne_nil _ _)

/-- A line of a directive at an end of a stretch is a line of the text around the stretch as well. -/
structure Framed (front p back : Text) : Prop where
  /-- A stretch that starts with an opening line starts a line. -/
  starts : (open? p).isSome = true → EndsLine true front
  /-- A stretch that ends with a closing line ends a line. -/
  ends : ∀ u blanks, p = u ++ (close ++ blanks) → EndsLine true u → (∀ c ∈ blanks, isSpaceTab c = true) →
    atLineEnd back = true

/-- A directive on lines of its own in a stretch is so in the text around the stretch. -/
lemma Framed.lines {front x d y back : Text} (h : Framed front (x ++ (d ++ y)) back) (hd : IsDirective d)
    (hx : EndsLine true x) (hy : atLineEnd y = true) :
    EndsLine true (front ++ x) ∧ atLineEnd (y ++ back) = true := by
  refine ⟨hx.append fun hx => ?_, Text.atLineEnd_append hy fun hy => ?_⟩
  · subst hx
    exact h.starts (hd.open? y)
  · subst hy
    obtain ⟨u, blanks, rfl, hu, hne, hblanks⟩ := hd.close_suffix
    exact h.ends (x ++ u) blanks (by simp only [List.append_assoc, List.append_nil])
      (hu.append fun hnil => absurd hnil hne) hblanks

/-- No line of a directive is cut at code, if the text between code is read in a row. -/
structure Undisturbed (body : Text) : Prop where
  /-- The stretches meet at lines of directives only where lines meet. -/
  framed : ∀ front p back, stretches body = front ++ p :: back → Framed front.flatten p back.flatten
  /-- A directive of the row lies within one stretch. -/
  whole : ∀ x d y hit, outsideCode body = x ++ (d ++ y) → find x.reverse (d ++ y) = some hit →
    hit.size = d.length → ∃ front p back x' y', stretches body = front ++ p :: back ∧
      x = front.flatten ++ x' ∧ p = x' ++ (d ++ y') ∧ y = y' ++ back.flatten

section Undisturbed

variable {body : Text}

/-- A directive in a stretch is one of the row. -/
lemma Undisturbed.row (h : Undisturbed body) {p : Text} (hp : p ∈ stretches body) (hwithin : Within p) :
    Within (outsideCode body) := by
  obtain ⟨front, back, hsplit⟩ := List.append_of_mem hp
  obtain ⟨x, d, y, rfl, hd, hx, hy⟩ := hwithin
  obtain ⟨hstart, hend⟩ := (h.framed front _ back hsplit).lines hd hx hy
  refine ⟨front.flatten ++ x, d, y ++ back.flatten, ?_, hd, hstart, hend⟩
  rw [outsideCode_eq, hsplit]
  simp only [List.flatten_append, List.flatten_cons, List.append_assoc]

/-- A directive of the row is one in a stretch. -/
lemma Undisturbed.stretch (h : Undisturbed body) (hwithin : Within (outsideCode body)) :
    ∃ p ∈ stretches body, Within p := by
  obtain ⟨x, d, y, hrow, hd, hx, hy⟩ := hwithin
  obtain ⟨hit, hhit⟩ := Option.isSome_iff_exists.mp (find_isSome (Text.atLineStart_reverse.mpr hx) hd hy)
  obtain ⟨-, d', y', hdy, hsize, hd', hy'⟩ := find_some hhit
  rw [hdy] at hrow hhit
  obtain ⟨front, p, back, x', y'', hsplit, rfl, rfl, rfl⟩ := h.whole x d' y' hit hrow hhit hsize
  refine ⟨_, hsplit ▸ List.mem_append_right front List.mem_cons_self, x', d', y'', rfl, hd', ?_, ?_⟩
  · exact hx.of_append
  · exact Text.atLineEnd_of_append hy'

/-- A body without code is undisturbed. -/
lemma Undisturbed.of_stretches (h : stretches body = [body]) : Undisturbed body := by
  have hsplit : ∀ front p back, stretches body = front ++ p :: back → front = [] ∧ p = body ∧ back = [] := by
    intro front p back hs
    rw [h] at hs
    rcases front with _ | ⟨q, front⟩
    · obtain ⟨hp, hback⟩ := List.cons.inj hs
      exact ⟨rfl, hp.symm, hback.symm⟩
    · simp at hs
  refine ⟨fun front p back hs => ?_, fun x d y hit hrow _ _ => ?_⟩
  · obtain ⟨rfl, -, rfl⟩ := hsplit front p back hs
    exact ⟨fun _ => .inl ⟨rfl, rfl⟩, fun _ _ _ _ _ => rfl⟩
  · refine ⟨[], body, [], x, y, h, rfl, ?_, (List.append_nil y).symm⟩
    rwa [outsideCode_eq, h, List.flatten_singleton] at hrow

end Undisturbed

/-- A directive is seen exactly when the text between code has one as a whole, and expanded exactly when
one of its stretches has one; these are the same where no line of a directive is cut at code. -/
theorem occursIn_expandAll (components : Components) (children : List Child) (mode : Option Text)
    (body : Text) :
    (occursIn body = true ↔ Within (outsideCode body)) ∧
    (expandAll components children mode body ≠ .ok body ↔ ∃ p ∈ stretches body, Within p) ∧
    (Undisturbed body →
      (occursIn body = true ↔ expandAll components children mode body ≠ .ok body)) := by
  have hoccurs : occursIn body = true ↔ Within (outsideCode body) := by
    rw [← findAll_ne_nil, occursIn, Bool.not_eq_true', ne_eq, ← List.isEmpty_iff, Bool.not_eq_true]
  refine ⟨hoccurs, expandAll_ne_iff body, fun h => ?_⟩
  rw [hoccurs, expandAll_ne_iff]
  exact ⟨h.stretch, fun ⟨p, hp, hwithin⟩ => h.row hp hwithin⟩

/-- A directive below a line with a code span. -/
def belowCode : Text := "Read `x`.\n\n:::children\n:::\n".toList

lemma pieces_belowCode : Text.pieces Region.find belowCode =
    [.plain "Read ".toList, .found (.code "`x`".toList), .plain ".\n\n:::children\n:::\n".toList] := by
  rfl

lemma framed_belowCode (front back : Text) : Framed front "Read ".toList back ∧
    Framed front ".\n\n:::children\n:::\n".toList [] := by
  refine ⟨⟨fun hopen => ?_, fun u blanks hp _ _ => ?_⟩, ⟨fun hopen => ?_, fun _ _ _ _ _ => rfl⟩⟩
  · cases hopen
  · have hcolon : ':' ∈ "Read ".toList := by
      rw [hp]
      exact List.mem_append_right u (List.mem_append_left blanks (by decide))
    exact absurd hcolon (by decide)
  · cases hopen

/-- The only directive in the row is the one of its third line. -/
lemma find_belowCode {x v : Text} {hit : Text.Hit Directive} (h : outsideCode belowCode = x ++ v)
    (hhit : find x.reverse v = some hit) : x.length = 8 ∧ hit.size = 15 := by
  have hall : ∀ n ∈ List.range 25, (find ((outsideCode belowCode).take n).reverse
      ((outsideCode belowCode).drop n)).all (fun hit => n = 8 && hit.size = 15) = true := by
    decide +kernel
  have hlength : x.length < 25 := by
    have hrow := congrArg List.length h
    rw [show (outsideCode belowCode).length = 24 by decide +kernel, List.length_append] at hrow
    omega
  have hplace := hall x.length (List.mem_range.mpr hlength)
  rw [h, List.take_left, List.drop_left, hhit] at hplace
  simpa using hplace

lemma undisturbed_belowCode : Undisturbed belowCode := by
  have hstretches : stretches belowCode = ["Read ".toList, ".\n\n:::children\n:::\n".toList] := by
    rw [stretches, pieces_belowCode]
    rfl
  refine ⟨fun front p back h => ?_, fun x d y hit hrow hhit hsize => ?_⟩
  · obtain ⟨hread, hbelow⟩ := framed_belowCode front.flatten back.flatten
    rw [hstretches] at h
    rcases front with _ | ⟨_, _ | ⟨_, _⟩⟩
    · obtain ⟨rfl, -⟩ := List.cons.inj h
      exact hread
    · obtain ⟨rfl, rfl⟩ := List.cons.inj (List.cons.inj h).2
      exact hbelow
    · simp at h
  · obtain ⟨hx, hd⟩ := find_belowCode hrow hhit
    rw [hd] at hsize
    have hbody : "Read .\n\n".toList ++ (":::children\n:::".toList ++ "\n".toList) = outsideCode belowCode := by
      decide +kernel
    obtain ⟨rfl, hrest⟩ := List.append_inj (hbody.trans hrow) hx.symm
    obtain ⟨rfl, rfl⟩ := List.append_inj hrest hsize
    exact ⟨["Read ".toList], _, [], ".\n\n".toList, "\n".toList, hstretches, rfl, rfl, rfl⟩

theorem occursIn_expandAll_belowCode : Undisturbed belowCode ∧ occursIn belowCode = true ∧
    expandAll Component.builtin [] none belowCode ≠ .ok belowCode := by
  obtain ⟨-, -, hagree⟩ := occursIn_expandAll Component.builtin [] none belowCode
  have hoccurs : occursIn belowCode = true := by decide +kernel
  exact ⟨undisturbed_belowCode, hoccurs, (hagree undisturbed_belowCode).mp hoccurs⟩

end Directive

end Sitewright
