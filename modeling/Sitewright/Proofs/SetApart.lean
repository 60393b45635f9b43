import Sitewright.Proofs.Masking
import Sitewright.Proofs.RegionFork

/-!
What a body is read as once its raw fences are masked. A token stands between blank lines, so indented lines below
it are code, which they are not right below a fence. A body without such lines is read as before, with prose in
place of its raw fences.
-/
namespace Sitewright

namespace Region

open Text (Quiet Scanned addPlain atLineStart breakAtLine sourceOf)

section Ticks

variable {w d d' : Text} (hd' : startsBlankLine ('\n' :: d') = true)
include hd'

lemma spanRest?_blank {ticks run : ℕ} (h : spanRest? ticks run (w ++ '\n' :: d) = none) :
    spanRest? ticks run (w ++ '\n' :: d') = none := by
  induction w generalizing run with
  | nil =>
    have hrun : run ≠ ticks := by
      rintro rfl
      simp [spanRest?] at h
    rw [List.nil_append, spanRest?, if_neg (by decide), if_neg hrun, if_pos hd']
  | cons c w ih => exact spanRest?_miss (startsBlankLine_append (by decide) c w d' d) (fun _ => ih) h

/-- A code span that has no end in front of a line has none at all with a blank line there. -/
lemma spanAt?_blank (h : spanAt? (w ++ '\n' :: d) = none) : spanAt? (w ++ '\n' :: d') = none := by
  refine Option.eq_none_iff_forall_ne_some.mpr fun r hr => ?_
  obtain ⟨ticks, c, cs, hsplit, hne, hticks, hc⟩ := spanAt?_some hr
  have hfeed : '\n' ∉ ticks := fun hmem => absurd (hticks _ hmem) (by decide)
  obtain ⟨v, rfl⟩ : ∃ v, w = ticks ++ v := by
    have hlength := Text.length_le_of_not_mem hsplit hfeed
    obtain ⟨v, hv⟩ := List.prefix_of_prefix_length_le (List.prefix_append ticks (c :: cs))
      (hsplit ▸ List.prefix_append w ('\n' :: d')) hlength
    exact ⟨v, hv.symm⟩
  rw [List.append_assoc] at h hsplit hr
  have hrest := List.append_cancel_left hsplit
  rw [hrest, spanAt?_cons hne hticks hc] at hr
  cases v with
  | nil =>
    obtain ⟨rfl, rfl⟩ := List.cons.inj hrest
    rw [if_pos hd'] at hr
    cases hr
  | cons e v =>
    obtain ⟨rfl, rfl⟩ := List.cons.inj hrest
    rw [List.cons_append, spanAt?_cons hne hticks hc, startsBlankLine_append (by decide) e v d d'] at h
    obtain ⟨hblank, hr⟩ := Option.ite_none_left_eq_some.mp hr
    obtain ⟨rest, hrest, -⟩ := Option.map_eq_some_iff.mp hr
    replace hblank : ¬ startsBlankLine (e :: (v ++ '\n' :: d')) = true := hblank
    replace hrest : spanRest? ticks.length 0 (v ++ '\n' :: d') = some rest := hrest
    rw [if_neg hblank, Option.map_eq_none_iff] at h
    rw [spanRest?_blank hd' h] at hrest
    cases hrest

end Ticks

/-- A raw fence begins with a colon and has a line that closes it. -/
lemma rawAt?_closes {before src html rest : Text} (h : rawAt? before (src ++ rest) = some (raw src html)) :
    ∃ tail, src = ':' :: tail ∧ (breakAtLine rawClose? true (':' :: (tail ++ rest))).isSome = true := by
  obtain ⟨-, -, opening, body, closing, hr, hopen, hbreak⟩ := rawAt?_lines (r := raw src html) h
  obtain ⟨rfl, -⟩ := Region.raw.inj hr
  obtain ⟨blanks, hopening, -⟩ := rawOpen?_eq_some.mp (hopen [])
  have hlead : ":::html".toList = ':' :: "::html".toList := rfl
  rw [hlead, List.cons_append, List.cons_append] at hopening
  obtain ⟨hline, hclose, -⟩ := Text.breakAtLine_eq_some.mp hbreak
  refine ⟨"::html".toList ++ blanks ++ ['\n'] ++ body ++ closing, by simp only [hopening, List.cons_append], ?_⟩
  have hopens : Text.EndsLine true opening := .inr ⟨':' :: ("::html".toList ++ blanks), hopening⟩
  have hsplit : ':' :: ("::html".toList ++ blanks ++ ['\n'] ++ body ++ closing ++ rest) =
      (opening ++ body) ++ (closing ++ rest) := by
    simp only [hopening, List.append_assoc, List.cons_append]
  rw [hsplit]
  refine Text.breakAtLine_isSome (hline.append fun _ => hopens) ?_
  rw [hclose]
  rfl

end Region

namespace RawTable

open Text (Piece Quiet Scanned addPlain atLineStart breakAtLine constructs sourceOf)
open Region (Forked Joint find_eq_some find_of_forked quiet_of_forked rawClose? spanAt? spanAt?_of_quiet startsIndented)

/-- The two texts are the same up to a raw fence, if not all the way; in its place the second one goes on with a
line feed. -/
inductive Parted (before : Text) : Text → Text → Prop
  | same (t : Text) : Parted before t t
  | fence (x : Text) {d : Text} (d' : Text) (hstart : atLineStart (x.reverse ++ before) = true)
      (hclose : (breakAtLine rawClose? true (':' :: d)).isSome = true) :
      Parted before (x ++ ':' :: d) (x ++ '\n' :: d')

namespace Parted

variable {before t t' : Text}

lemma forked (h : Parted before t t') : Forked before t t' := by
  cases h with
  | same t => exact .same t
  | fence x d' hstart hclose => exact .fork x hstart hclose (.inr rfl)

lemma prepend {u : Text} (h : Parted (u.reverse ++ before) t t') : Parted before (u ++ t) (u ++ t') := by
  cases h with
  | same t => exact .same _
  | fence x d' hstart hclose =>
    rw [← List.append_assoc, ← List.append_assoc]
    refine .fence (u ++ x) d' ?_ hclose
    rwa [List.reverse_append, List.append_assoc]

/-- A blank line keeps code spans from reaching beyond it. -/
lemma spanAt?_eq_none {u : Text} (hu : u ≠ []) (h : Parted (u.reverse ++ before) t t')
    (hnone : spanAt? (u ++ t) = none) : spanAt? (u ++ t') = none := by
  cases h with
  | same t => exact hnone
  | @fence x d d' hstart hclose =>
    rw [← List.append_assoc, ← List.reverse_append] at hstart
    obtain ⟨w, hw⟩ := Forked.endsLine_of_start hstart (List.append_ne_nil_of_left_ne_nil hu x)
    rw [← List.append_assoc, hw, List.append_assoc, List.singleton_append] at hnone ⊢
    exact Region.spanAt?_blank rfl hnone

end Parted

/-- Prose in front of a raw fence stays prose in front of a token. -/
lemma quiet_of_parted {before before' q a a' : Text} (h : Quiet Region.find before q a)
    (hjoint : Joint before before' (q ++ a)) (hparted : Parted (q.reverse ++ before) a a') :
    Quiet Region.find before' q a' := by
  refine quiet_of_forked h hjoint hparted.forked fun u v huv hv => ?_
  rw [huv, List.reverse_append, List.append_assoc] at hparted
  exact hparted.spanAt?_eq_none hv (spanAt?_of_quiet h u v huv hv)

section Masked

variable {nonce before before' : Text} {ps : List (Piece Region)}

/-- The paragraph that a raw fence is masked by. -/
def paragraph (nonce : Text) (n : ℕ) : Text := "\n\n".toList ++ blockToken nonce n ++ "\n\n".toList

lemma masked_fenced_code (n : ℕ) (t src : Text) : (fenced nonce n (.plain t :: .found (.code src) :: ps)).masked =
    t ++ (src ++ (fenced nonce n ps).masked) := by simp [fenced]

lemma masked_fenced_raw (n : ℕ) (t src html : Text) :
    (fenced nonce n (.plain t :: .found (.raw src html) :: ps)).masked =
      t ++ (paragraph nonce n ++ (fenced nonce (n + 1) ps).masked) := by
  simp [fenced, Segments.masked, Construct.masked, paragraph]

lemma masked_fenced_last (n : ℕ) (t : Text) : (fenced nonce n [.plain t]).masked = sourceOf Region.source [.plain t] := by
  simp [fenced, Segments.masked, sourceOf, Piece.source]

lemma parted_raw (nonce : Text) {src html rest : Text} (h : Region.rawAt? before (src ++ rest) = some (.raw src html)) (n : ℕ)
    (rest' : Text) : Parted before (src ++ rest) (paragraph nonce n ++ rest') := by
  obtain ⟨hstart, -⟩ := Region.rawAt?_lines (r := .raw src html) h
  obtain ⟨tail, rfl, hclose⟩ := Region.rawAt?_closes h
  exact .fence [] ('\n' :: blockToken nonce n ++ "\n\n".toList ++ rest') hstart hclose

/-- A body and what masking its raw fences makes of it part at the first fence. -/
lemma parted_fenced (nonce : Text) (n : ℕ) (h : Scanned Region.find Region.source before ps) :
    Parted before (sourceOf Region.source ps) (fenced nonce n ps).masked := by
  induction h generalizing n with
  | @last before t hquiet =>
    rw [masked_fenced_last]
    exact .same _
  | @step before t r ps hquiet hfind hps ih =>
    cases r with
    | code src =>
      rw [masked_fenced_code]
      exact (ih n).prepend.prepend
    | raw src html =>
      rw [masked_fenced_raw]
      exact (parted_raw nonce (Region.rawAt?_of_at? (find_eq_some.mp hfind)) n _).prepend

/-- Is there an indented line right below? -/
def indentedBelow : Text → Bool
  | '\n' :: t => startsIndented t
  | _ => false

/-- No indented line stands right below a raw fence. -/
def setApart : List (Piece Region) → Bool
  | [] => true
  | .found (.raw _ _) :: ps => !indentedBelow (sourceOf Region.source ps) && setApart ps
  | _ :: ps => setApart ps

lemma joint_of_lineEnd {after : Text} (hend : Text.atLineEnd after = true) (h : indentedBelow after = false)
    (before before' : Text) : Joint before before' after := by
  cases after with
  | nil => exact .last
  | cons c after =>
    obtain rfl : c = '\n' := of_decide_eq_true hend
    exact .line h

lemma scanned_addPlain {t : Text} {qs : List (Piece Region)}
    (hqs : Scanned Region.find Region.source (t.reverse ++ before) qs)
    (hquiet : Quiet Region.find before t (sourceOf Region.source qs)) :
    Scanned Region.find Region.source before (addPlain t qs) := by
  cases hqs with
  | @last _ u hu =>
    refine .last (hquiet.append ?_)
    simpa [sourceOf, Piece.source] using hu
  | @step _ u r qs hu hfind hqs =>
    refine .step (Quiet.append ?_ hu) ?_ ?_
    · simpa [Piece.source] using hquiet
    · rw [List.reverse_append, List.append_assoc]
      exact hfind
    · rw [List.reverse_append, List.append_assoc]
      exact hqs

variable (hnonce : ∀ c ∈ nonce, c ∈ Digest.digits)
include hnonce

/-- No region starts in the paragraph of a token. -/
lemma quiet_paragraph (n : ℕ) (before after : Text) : Quiet Region.find before (paragraph nonce n) after := by
  have hletters : ∀ c ∈ letters, c ∉ [':', ' ', '\t', '`', '~'] := Text.forall_of_all (by decide)
  have hmarks : ∀ c ∈ "\n\n".toList ++ "<!--".toList ++ "-->".toList, c ∉ [':', ' ', '\t', '`', '~'] :=
    Text.forall_of_all (by decide)
  obtain ⟨body, hbody, hmem, -⟩ := blockToken_eq hnonce n
  refine Region.quiet_of_not_mem (fun c hc => ?_) before after
  rw [paragraph, hbody] at hc
  simp only [List.mem_append] at hc hmarks
  rcases hc with (hc | hc | hc | hc) | hc
  · exact hmarks c (.inl (.inl hc))
  · exact hmarks c (.inl (.inr hc))
  · exact hletters c (hmem c hc)
  · exact hmarks c (.inr hc)
  · exact hmarks c (.inl (.inl hc))

/-- With its raw fences masked, a body in which they are set apart is cut at the same code. -/
lemma exists_scanned_fenced (n : ℕ) (h : Scanned Region.find Region.source before ps)
    (hjoint : Joint before before' (sourceOf Region.source ps)) (hapart : setApart ps = true) :
    ∃ qs, sourceOf Region.source qs = (fenced nonce n ps).masked ∧
      Scanned Region.find Region.source before' qs ∧ ∀ r ∈ constructs qs, ∃ src, r = .code src := by
  -- `before` goes with the body and `before'` with the masked text; they join again behind each token
  induction h generalizing before' n with
  | @last before t hquiet =>
    have hall : sourceOf Region.source [.plain t] = t ++ [] := by simp [sourceOf, Piece.source]
    exact ⟨[.plain t], (masked_fenced_last n t).symm, .last (quiet_of_parted hquiet (hall ▸ hjoint) (.same [])), by simp⟩
  | @step before t r ps hquiet hfind hps ih =>
    have hjoint' : Joint before before' (t ++ (r.source ++ sourceOf Region.source ps)) := hjoint
    cases r with
    | code src =>
      have hparted := parted_fenced nonce n hps
      obtain ⟨qs, hsource, hqs, hcode⟩ := ih n hjoint'.append.append hapart
      refine ⟨.plain t :: .found (.code src) :: qs, ?_, .step ?_ ?_ hqs, by simpa using hcode⟩
      · rw [masked_fenced_code, ← hsource]
        rfl
      · rw [hsource]
        exact quiet_of_parted hquiet hjoint' hparted.prepend
      · rw [hsource]
        exact find_of_forked hfind hjoint'.append hparted.forked
    | raw src html =>
      have hraw := Region.rawAt?_of_at? (find_eq_some.mp hfind)
      obtain ⟨hbelow, hrest⟩ := Bool.and_eq_true_iff.mp hapart
      obtain ⟨-, hend, -⟩ := Region.rawAt?_lines (r := .raw src html) hraw
      obtain ⟨qs, hsource, hqs, hcode⟩ := ih (n + 1) (joint_of_lineEnd hend (by simpa using hbelow) _
        ((paragraph nonce n).reverse ++ (t.reverse ++ before'))) hrest
      have hfront := quiet_of_parted hquiet hjoint' (parted_raw nonce hraw n (sourceOf Region.source qs))
      refine ⟨addPlain (t ++ paragraph nonce n) qs, ?_, scanned_addPlain ?_ ?_, by simpa using hcode⟩
      · rw [Text.sourceOf_addPlain, masked_fenced_raw, hsource, List.append_assoc]
      · rwa [List.reverse_append, List.append_assoc]
      · exact hfront.append (quiet_paragraph hnonce n _ _)

end Masked

/-- No raw fence comes up in the text that has tokens for the raw fences of a body, if they are set apart in it. -/
theorem raw_not_mem_fenceCut {body : Text} (h : setApart (Text.pieces Region.find body) = true) (src html : Text) :
    .found (.raw src html) ∉ Text.pieces Region.find (fenceCut body).masked := by
  obtain ⟨-, hscanned⟩ :=
    (Text.pieces_eq_iff Region.find_exact).mp (rfl : Text.pieces Region.find body = _)
  obtain ⟨qs, hsource, hqs, hcode⟩ := exists_scanned_fenced nonceOf_mem 0 hscanned ((Region.SameEdge.refl []).joint _) h
  rw [fenceCut, (Text.pieces_eq_iff Region.find_exact).mpr ⟨hsource, hqs⟩]
  intro hmem
  obtain ⟨_, hne⟩ := hcode _ (Text.mem_constructs.mpr hmem)
  cases hne

end RawTable

end Sitewright
