import Sitewright.Proofs.Scan
import Sitewright.Shield

/-!
Regions of a body that edits leave alone. Each is read as it is written, and none that text follows
ends in an exclamation mark, so no link behind a region turns into an image.
-/
namespace Sitewright.Region
open Text (breakAtLine_some cutLine_some mem_spanWhile spanWhile spanWhile_append)

lemma rawClose?_some {t closing : Text} (h : rawClose? t = some closing) :
    closing <+: t ∧ closing ≠ [] ∧ '!' ∉ closing := by
  unfold rawClose? at h
  split at h
  · rename_i rest
    dsimp only at h
    split at h
    · obtain rfl := Option.some.inj h
      refine ⟨⟨rest.dropWhile fun c => c = ' ' || c = '\t', ?_⟩, by simp, fun hm => ?_⟩
      · simp [spanWhile, List.takeWhile_append_dropWhile]
      · rcases List.mem_append.mp hm with hm | hm
        · revert hm; decide
        · have := mem_spanWhile hm
          revert this; decide
    · cases h
  · cases h

lemma rawOpen?_some {t opening rest : Text} (h : rawOpen? t = some (opening, rest)) :
    t = opening ++ rest ∧ ':' ∈ opening := by
  unfold rawOpen? at h
  obtain ⟨tail, htail, h⟩ := Option.bind_eq_some_iff.mp h
  rw [List.isPrefixOf?_eq_some_iff_append_eq] at htail
  split at h
  · rename_i blanks after hspan
    have hjoin := spanWhile_append (fun c => c = ' ' || c = '\t') tail
    rw [hspan] at hjoin
    cases h
    rw [← htail, ← hjoin]
    simp
  · cases h

lemma dropLastFeed_prefix (t : Text) : dropLastFeed t <+: t := by
  unfold dropLastFeed
  split
  · rename_i r hr
    exact ⟨['\n'], by rw [← List.reverse_reverse t, hr, List.reverse_cons]⟩
  · exact List.prefix_rfl

/-- A raw fence is an opening line, which has colons, its body, and a closing line. -/
lemma rawAt?_some {before after : Text} {r : Region} (h : rawAt? before after = some r) :
    ∃ opening body closing rest, after = opening ++ body ++ closing ++ rest ∧ ':' ∈ opening ∧
      closing ≠ [] ∧ '!' ∉ closing ∧ r = .raw (opening ++ body ++ closing) (dropLastFeed body) := by
  unfold rawAt? at h
  split at h
  · obtain ⟨⟨opening, tail⟩, hopen, h⟩ := Option.bind_eq_some_iff.mp h
    obtain ⟨⟨body, closing⟩, hbreak, rfl⟩ := Option.map_eq_some_iff.mp h
    obtain ⟨rfl, hcolon⟩ := rawOpen?_some hopen
    obtain ⟨_, rfl, hclose, -⟩ := breakAtLine_some hbreak
    obtain ⟨⟨rest, rfl⟩, hclosing, hmark⟩ := rawClose?_some hclose
    exact ⟨opening, body, closing, rest, by simp, hcolon, hclosing, hmark, rfl⟩
  · cases h

lemma codeClose?_some {fence t closing : Text} (hne : fence ≠ []) (hfence : '!' ∉ fence)
    (h : codeClose? fence t = some closing) : closing <+: t ∧ closing ≠ [] ∧ '!' ∉ closing := by
  unfold codeClose? upToThreeSpaces at h
  dsimp only at h
  obtain ⟨rest, hrest, h⟩ := Option.bind_eq_some_iff.mp h
  rw [List.isPrefixOf?_eq_some_iff_append_eq] at hrest
  split at h
  · obtain rfl := Option.some.inj h
    refine ⟨?_, by simp [hne], ?_⟩
    · conv_rhs => rw [← List.take_append_drop (min 3 (t.takeWhile (· = ' ')).length) t, ← hrest,
        ← spanWhile_append (fun c => c = '`' || c = '~') rest,
        ← spanWhile_append (fun c => c = ' ' || c = '\t') (spanWhile _ rest).2]
      simp
    · have hindent : '!' ∉ t.take (min 3 (t.takeWhile (· = ' ')).length) := by
        intro hm
        have htake : t.take (min 3 (t.takeWhile (· = ' ')).length) <+: t.takeWhile (· = ' ') :=
          List.prefix_of_prefix_length_le (List.take_prefix _ t) (List.takeWhile_prefix _)
            (by rw [List.length_take]; omega)
        have := List.mem_takeWhile_imp (htake.subset hm)
        revert this; decide
      simp only [List.mem_append, not_or]
      refine ⟨⟨⟨hindent, hfence⟩, fun hm => ?_⟩, fun hm => ?_⟩
      · have := mem_spanWhile hm
        revert this; decide
      · have := mem_spanWhile hm
        revert this; decide
  · cases h

lemma indentedLines_some (fresh : Bool) (t : Text) :
    ∃ rest, t = indentedLines fresh t ++ rest ∧ (rest = [] ∨
      (indentedLines fresh t = [] ∧ fresh = true) ∨
        (indentedLines fresh t).getLast? = some '\n') := by
  induction t generalizing fresh with
  | nil => exact ⟨[], by simp [indentedLines]⟩
  | cons c cs ih =>
    unfold indentedLines
    split
    · rename_i hstop
      exact ⟨c :: cs, rfl, .inr (.inl ⟨rfl, by simp_all⟩)⟩
    · obtain ⟨rest, hrest, hend⟩ := ih (decide (c = '\n'))
      refine ⟨rest, by rw [List.cons_append, ← hrest], ?_⟩
      rcases hend with hend | ⟨hnil, hc⟩ | hlast
      · exact .inl hend
      · have hc' : c = '\n' := by simpa using hc
        exact .inr (.inr (by rw [hnil, hc']; rfl))
      · refine .inr (.inr ?_)
        rw [List.getLast?_cons, hlast]
        rfl

lemma spanRest?_some {ticks run : ℕ} (hticks : ticks ≠ 0) {t r : Text}
    (h : spanRest? ticks run t = some r) :
    r <+: t ∧ ((r = [] ∧ run = ticks) ∨ r.getLast? = some '`') := by
  induction t generalizing run r with
  | nil =>
    simp only [spanRest?] at h
    split at h
    · cases h; exact ⟨List.prefix_rfl, .inl ⟨rfl, ‹_›⟩⟩
    · cases h
  | cons c cs ih =>
    have hcons : ∀ {run' r'}, spanRest? ticks run' cs = some r' → r = c :: r' →
        (r' = [] → run' = ticks → c = '`') → r <+: c :: cs ∧
          ((r = [] ∧ run = ticks) ∨ r.getLast? = some '`') := by
      intro run' r' hr' he hc
      obtain ⟨hpre, hlast⟩ := ih hr'
      subst he
      refine ⟨List.cons_prefix_cons.mpr ⟨rfl, hpre⟩, .inr ?_⟩
      rcases hlast with ⟨rfl, hrun⟩ | hlast
      · rw [hc rfl hrun]; rfl
      · rw [List.getLast?_cons, hlast]; rfl
    unfold spanRest? at h
    split at h
    · rename_i hc
      obtain ⟨r', hr', rfl⟩ := Option.map_eq_some_iff.mp h
      exact hcons hr' rfl fun _ _ => hc
    · split at h
      · cases h; exact ⟨List.nil_prefix, .inl ⟨rfl, ‹_›⟩⟩
      · split at h
        · cases h
        · obtain ⟨r', hr', rfl⟩ := Option.map_eq_some_iff.mp h
          exact hcons hr' rfl fun _ hrun => absurd hrun.symm hticks

/-- A region stands as written where it is found. Where text follows it, it does not end in an
exclamation mark. -/
def Read (r : Region) (after : Text) : Prop :=
  r.source ≠ [] ∧ ∃ rest, after = r.source ++ rest ∧ (rest ≠ [] → r.source.getLast? ≠ some '!')

lemma getLast?_append_ne {t closing : Text} (hne : closing ≠ []) (h : '!' ∉ closing) :
    (t ++ closing).getLast? ≠ some '!' := by
  rw [List.getLast?_append_of_ne_nil _ hne]
  exact fun hlast => h (List.mem_of_getLast? hlast)

lemma rawAt?_read {before after : Text} {r : Region} (h : rawAt? before after = some r) :
    r.Read after := by
  obtain ⟨opening, body, closing, rest, rfl, -, hclosing, hmark, rfl⟩ := rawAt?_some h
  exact ⟨by simp [source, hclosing], rest, rfl, fun _ => getLast?_append_ne hclosing hmark⟩

lemma fencedAt?_read {before after : Text} {r : Region} (h : fencedAt? before after = some r) :
    r.Read after := by
  unfold fencedAt? at h
  split at h
  · dsimp only at h
    split at h
    · cases h
    · rename_i c tail hrest
      rw [hrest] at h
      split at h
      · rename_i hfence
        split at h
        · cases h
        · rename_i line rest hcut
          have hafter : after = (upToThreeSpaces after).1 ++ (spanWhile (· = c) (c :: tail)).1 ++
              (line ++ '\n' :: rest) := by
            rw [← cutLine_some hcut, List.append_assoc, spanWhile_append, ← hrest]
            exact (List.take_append_drop _ after).symm
          have hne : (spanWhile (· = c) (c :: tail)).1 ≠ [] := by simp [spanWhile]
          have hmark : '!' ∉ (spanWhile (· = c) (c :: tail)).1 := by
            intro hm
            have hc := mem_spanWhile hm
            simp only [decide_eq_true_eq] at hc
            subst hc
            simp at hfence
          split at h
          · rename_i body closing hbreak
            cases h
            obtain ⟨_, rfl, hclose, -⟩ := breakAtLine_some hbreak
            obtain ⟨⟨more, rfl⟩, hclosing, hnone⟩ := codeClose?_some hne hmark hclose
            refine ⟨by simp [source], more, ?_, fun _ => getLast?_append_ne hclosing hnone⟩
            conv_lhs => rw [hafter]
            simp [source]
          · cases h
            exact ⟨by rw [source, hafter]; simp, [], by simp [source], by simp⟩
      · cases h
  · cases h

lemma indentedAt?_read {before after : Text} {r : Region}
    (h : indentedAt? before after = some r) : r.Read after := by
  simp only [indentedAt?, Option.ite_none_right_eq_some, Bool.and_eq_true,
    Option.some.injEq] at h
  obtain ⟨⟨-, hindented⟩, rfl⟩ := h
  have hne : indentedLines true after ≠ [] := by
    cases after with
    | nil => simp [startsIndented] at hindented
    | cons c cs => simp [indentedLines, hindented]
  obtain ⟨rest, hrest, hend⟩ := indentedLines_some true after
  refine ⟨hne, rest, hrest, fun hmore => ?_⟩
  rcases hend with hnil | ⟨hnil, -⟩ | hlast
  · exact absurd hnil hmore
  · exact absurd hnil hne
  · simp only [source, hlast]
    decide

lemma spanAt?_read {after : Text} {r : Region} (h : spanAt? after = some r) : r.Read after := by
  unfold spanAt? at h
  split at h
  · cases h
  · cases h
  · rename_i ticks c cs hnil hspan
    have hjoin := spanWhile_append (· = '`') after
    rw [hspan] at hjoin
    split at h
    · cases h
    · obtain ⟨rest, hrest, rfl⟩ := Option.map_eq_some_iff.mp h
      have hticks : ticks.length ≠ 0 := by
        intro hzero
        exact hnil (List.length_eq_zero_iff.mp hzero)
      obtain ⟨⟨more, hmore⟩, hlast⟩ := spanRest?_some hticks hrest
      refine ⟨by simp [source], more, by simp [source, ← hjoin, ← hmore], fun _ => ?_⟩
      have htick : rest.getLast? = some '`' := by
        rcases hlast with ⟨-, hzero⟩ | hlast
        · exact absurd hzero.symm hticks
        · exact hlast
      have hrest' : rest ≠ [] := by rintro rfl; cases htick
      rw [source, List.getLast?_append_of_ne_nil _ (by simp), List.getLast?_cons, htick]
      simp

theorem at?_read {before after : Text} {r : Region} (h : at? before after = some r) :
    r.Read after := by
  unfold at? at h
  simp only [Option.orElse_eq_orElse, Option.orElse_eq_or, Option.or_eq_some_iff] at h
  rcases h with h | ⟨-, h | ⟨-, h | ⟨-, h⟩⟩⟩
  · exact rawAt?_read h
  · exact fencedAt?_read h
  · exact indentedAt?_read h
  · exact spanAt?_read h

theorem find_exact : find.Exact source := by
  intro before after hit h
  obtain ⟨r, hr, rfl⟩ := Option.map_eq_some_iff.mp h
  obtain ⟨hne, rest, hrest, -⟩ := at?_read hr
  exact ⟨rfl, hne, rest, hrest.symm⟩

lemma find_eq_none {before after : Text} :
    find before after = none ↔ at? before after = none := Option.map_eq_none_iff

lemma find_eq_some {before after : Text} {r : Region} :
    find before after = some ⟨r, r.source.length⟩ ↔ at? before after = some r := by
  rw [find, Option.map_eq_some_iff]
  constructor
  · rintro ⟨r', hr', heq⟩
    obtain rfl : r' = r := congrArg Text.Hit.value heq
    exact hr'
  · exact fun h => ⟨r, h, rfl⟩

end Sitewright.Region
