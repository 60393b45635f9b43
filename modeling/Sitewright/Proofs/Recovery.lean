import Sitewright.Proofs.Restoring

/-!
Restoring an arbitrary text. Wherever a token of a fence stands its HTML comes back, whatever
surrounds it; and HTML whose token stands nowhere plays no part.
-/
namespace Sitewright

namespace Text

variable {α : Type} {find : Finder α} {write : α → Text} (hlocal : find.Local)
include hlocal

lemma substitute_cons {c : Char} {cs : Text} {hit : Hit α} (h : find [] (c :: cs) = some hit) :
    substitute find write (c :: cs) =
      write hit.value ++ substitute find write (cs.drop (hit.size - 1)) := by
  simp only [substitute_eq_sourceOf]
  conv_lhs => simp only [pieces, piecesFrom, h, sourceOf, List.flatMap_cons]
  have hrest : sourceOf write _ = _ := sourceOf_piecesFrom hlocal [c] [] (hit.size - 1) cs
  simpa [sourceOf, Piece.source] using hrest

/-- What is written for the rest of a text is there with what stands before it, unless something found
before it reaches into it. -/
lemma infix_substitute {x u rest : Text}
    (h : ∀ b hit, b <:+ u → b ≠ [] → find [] (b ++ rest) = some hit →
      hit.size ≤ b.length ∨ x <:+: write hit.value)
    (hrest : x <:+: substitute find write rest) : x <:+: substitute find write (u ++ rest) := by
  induction hlen : u.length using Nat.strongRecOn generalizing u with
  | _ m ih =>
    cases u with
    | nil => exact hrest
    | cons c u =>
      have hshorter : ∀ k ≤ u.length, x <:+: substitute find write ((u ++ rest).drop k) := by
        intro k hk
        rw [List.drop_append_of_le_length hk]
        refine ih (u.drop k).length ?_ (fun b hit hb => h b hit ?_) rfl
        · rw [← hlen, List.length_drop, List.length_cons]
          omega
        · exact hb.trans ((List.drop_suffix k u).trans (List.suffix_cons c u))
      rw [List.cons_append]
      cases hfind : find [] (c :: (u ++ rest)) with
      | none =>
        rw [substitute_none hlocal hfind]
        exact (hshorter 0 (Nat.zero_le _)).trans (List.suffix_cons _ _).isInfix
      | some hit =>
        rw [substitute_cons hlocal hfind]
        rcases h (c :: u) hit List.suffix_rfl (List.cons_ne_nil c u) hfind with hsize | hvalue
        · rw [List.length_cons] at hsize
          exact (hshorter (hit.size - 1) (by omega)).trans (List.suffix_append _ _).isInfix
        · exact hvalue.trans (List.prefix_append _ _).isInfix

/-- A text comes out the same when everything found in it is written the same. -/
lemma substitute_congr {write' : α → Text} {t : Text}
    (h : ∀ s hit, s <:+ t → find [] s = some hit → write hit.value = write' hit.value) :
    substitute find write t = substitute find write' t := by
  induction hlen : t.length using Nat.strongRecOn generalizing t with
  | _ n ih =>
    cases t with
    | nil => rfl
    | cons c cs =>
      have hrest : ∀ k, substitute find write (cs.drop k) = substitute find write' (cs.drop k) := by
        intro k
        refine ih (cs.drop k).length ?_ (fun s hit hs => h s hit ?_) rfl
        · rw [← hlen, List.length_drop, List.length_cons]
          omega
        · exact hs.trans ((List.drop_suffix k cs).trans (List.suffix_cons c cs))
      cases hfind : find [] (c :: cs) with
      | none =>
        rw [substitute_none hlocal hfind, substitute_none hlocal hfind]
        exact congrArg (c :: ·) (hrest 0)
      | some hit =>
        rw [substitute_cons hlocal hfind, substitute_cons hlocal hfind, hrest,
          h _ _ List.suffix_rfl hfind]

end Text

namespace RawTable
open Text (spanWhile isBlank)

/-- The table with other HTML for a token. -/
def reassign (table : RawTable) (token html : Text) : RawTable :=
  { table with entries := table.entries.map fun e => if e.1 = token then (token, html) else e }

section Hits

variable {nonce : Text}

lemma findToken_value {before t : Text} {hit : Text.Hit Text} (h : findToken nonce before t = some hit) :
    hit.value <:+: t := by
  rcases findToken_cases h with h | ⟨token, rfl, h | h⟩
  · obtain ⟨blanks, token, more, rest, -, -, rfl, rfl⟩ := paragraphAt?_eq h
    exact (List.prefix_append _ _).isInfix.trans (List.suffix_append _ _).isInfix
  · exact (blockTokenAt?_some h).2.1.isInfix
  · exact (inlineTokenAt?_some h).2.isInfix

/-- A token of a fence does not start in the white space and the closing tag that end a
paragraph. -/
lemma closing_before {more rest b v : Text} {n : ℕ} (hmore : ∀ c ∈ more, isBlank c = true)
    (h : more ++ ("</p>".toList ++ rest) = b ++ (blockToken nonce n ++ v)) :
    more.length + 4 ≤ b.length := by
  obtain ⟨tail, htail⟩ : ∃ tail, blockToken nonce n = '<' :: '!' :: tail := ⟨_, rfl⟩
  rw [htail] at h
  rcases List.append_eq_append_iff.mp h with ⟨d, rfl, hd⟩ | ⟨d, rfl, hd⟩
  · rw [List.length_append]
    match d with
    | [] => simp at hd
    | [_] => simp at hd
    | [_, _] => simp at hd
    | [_, _, _] => simp at hd
    | _ :: _ :: _ :: _ :: _ => simp
  · cases d with
    | nil => simp at hd
    | cons c d =>
      obtain ⟨rfl, -⟩ := List.cons.inj hd
      have hblank : isBlank '<' = true := hmore '<' (by simp)
      exact absurd hblank (by decide)

/-- The opening tag of a paragraph and the white space behind it hold one bracket, the first. -/
lemma opening_bracket {blanks u a : Text} (hblanks : ∀ c ∈ blanks, isBlank c = true) (hu : u ≠ []) :
    "<p>".toList ++ blanks ≠ u ++ '<' :: a := by
  intro h
  obtain ⟨c, u, rfl⟩ := List.exists_cons_of_ne_nil hu
  have htail : "p>".toList ++ blanks = u ++ '<' :: a := (List.cons.inj h).2
  have hmem : '<' ∈ "p>".toList ++ blanks := by
    rw [htail]
    simp
  rcases List.mem_append.mp hmem with hmem | hmem
  · revert hmem; decide
  · have hblank := hblanks _ hmem
    revert hblank; decide

variable (hnonce : ∀ c ∈ nonce, c ∈ Digest.digits)
include hnonce

/-- A token that starts in front of a token of a fence ends before it. -/
lemma IsToken.length_le {token u v : Text} {n : ℕ} (htoken : IsToken nonce token) (hu : u ≠ [])
    (h : token <+: u ++ (blockToken nonce n ++ v)) : token.length ≤ u.length := by
  obtain ⟨s, hs⟩ := h
  rcases List.append_eq_append_iff.mp hs with ⟨a, rfl, -⟩ | ⟨a, rfl, ha⟩
  · simp
  · by_cases hnil : a = []
    · simp [hnil]
    · exact absurd ⟨v, ha⟩
        (htoken.not_prefix_inside hnonce (isToken_blockToken nonce n) rfl hu hnil)

/-- What is found in front of a token of a fence ends before the token, or is that token with the
paragraph around it. -/
lemma findToken_upTo {u v : Text} {n : ℕ} {hit : Text.Hit Text} (hu : u ≠ [])
    (h : findToken nonce [] (u ++ (blockToken nonce n ++ v)) = some hit) :
    hit.size ≤ u.length ∨ hit.value = blockToken nonce n := by
  rcases findToken_cases h with h | ⟨token, rfl, h | h⟩
  · obtain ⟨blanks, token, more, rest, hblanks, htoken, hsplit, rfl⟩ := paragraphAt?_eq h
    have hsame : blockToken nonce n ++ v = token ++ (more ++ ("</p>".toList ++ rest)) →
        token = blockToken nonce n := by
      intro heq
      rw [← heq, blockTokenAt?_blockToken] at htoken
      exact (Option.some.inj htoken).symm
    have hclose : ∀ {b}, more ++ ("</p>".toList ++ rest) = b ++ (blockToken nonce n ++ v) →
        more.length + 4 ≤ b.length :=
      closing_before fun c hc => hblanks c (List.mem_append_right _ hc)
    rcases List.append_eq_append_iff.mp hsplit with ⟨a, hlead, ha⟩ | ⟨a, rfl, ha⟩
    · -- the token starts in the opening of the paragraph, so right behind it
      right
      cases a with
      | nil => exact hsame ha
      | cons c a =>
        obtain ⟨rfl, -⟩ := List.cons.inj ha
        exact absurd hlead
          (opening_bracket (fun c hc => hblanks c (List.mem_append_left _ hc)) hu)
    · rcases List.append_eq_append_iff.mp ha with ⟨b, rfl, hb⟩ | ⟨b, rfl, hb⟩
      · left
        have hle := hclose hb
        simp only [List.length_append] at hle ⊢
        omega
      · by_cases hnil : a = []
        · right
          subst hnil
          exact hsame ha.symm
        · have hle := (blockTokenAt?_some htoken).1.length_le hnonce hnil (v := v) (n := n)
            ⟨_, ha⟩
          obtain rfl : b = [] := by
            rw [List.length_append] at hle
            exact List.length_eq_zero_iff.mp (by omega)
          have hle := hclose (b := []) hb.symm
          simp at hle
  · exact .inl ((blockTokenAt?_some h).1.length_le hnonce hu (blockTokenAt?_some h).2.1)
  · exact .inl ((inlineTokenAt?_some h).1.length_le hnonce hu (inlineTokenAt?_some h).2)

lemma substitute_infix {write : Text → Text} {n : ℕ} {t : Text} (h : blockToken nonce n <:+: t) :
    write (blockToken nonce n) <:+: Text.substitute (findToken nonce) write t := by
  have hlocal := findToken_local nonce
  obtain ⟨u, v, rfl⟩ := h
  rw [List.append_assoc]
  refine Text.infix_substitute hlocal (fun b hit _ hb hfind => ?_) ?_
  · refine (findToken_upTo hnonce hb hfind).imp_right fun hvalue => ?_
    exact hvalue ▸ List.infix_rfl
  · rw [Text.substitute_hit hlocal (findToken_blockToken [] n v) rfl (List.cons_ne_nil _ _)]
    exact (List.prefix_append _ _).isInfix

end Hits

section Page

variable {table : RawTable} {token html : Text}

/-- The HTML of a fence is in every text that its token was in. -/
lemma infix_restore (hnonce : ∀ c ∈ table.nonce, c ∈ Digest.digits) {n : ℕ}
    (hentry : table.entries.lookup (blockToken table.nonce n) = some html) {t : Text}
    (h : blockToken table.nonce n <:+: t) : html <:+: table.restore t := by
  unfold restore
  split
  · rename_i hempty
    rw [List.isEmpty_iff.mp hempty] at hentry
    cases hentry
  · obtain ⟨write, hwrite⟩ : ∃ write : Text → Text,
        write = fun token => (table.entries.lookup token).getD token := ⟨_, rfl⟩
    have hwritten : write (blockToken table.nonce n) <:+: _ := substitute_infix hnonce h
    have hhtml : write (blockToken table.nonce n) = html := by
      rw [hwrite]
      simp only [hentry, Option.getD_some]
    rwa [hhtml, hwrite] at hwritten

lemma lookup_reassign {k : Text} (h : k ≠ token) :
    (table.reassign token html).entries.lookup k = table.entries.lookup k := by
  unfold reassign
  induction table.entries with
  | nil => rfl
  | cons e es ih =>
    rw [List.map_cons, List.lookup_cons, List.lookup_cons, ih]
    split_ifs with he
    · rw [he, beq_eq_false_iff_ne.mpr h]
    · rfl

/-- HTML whose token is nowhere in a text has no part in what becomes of the text. -/
lemma restore_reassign {t : Text} (h : ¬ token <:+: t) :
    (table.reassign token html).restore t = table.restore t := by
  have hempty : (table.reassign token html).entries.isEmpty = table.entries.isEmpty := by
    cases hentries : table.entries with
    | nil => simp [reassign, hentries]
    | cons e es => simp [reassign, hentries]
  unfold restore
  rw [hempty]
  split
  · rfl
  · refine Text.substitute_congr (findToken_local _) fun s hit hs hfind => ?_
    have hne : hit.value ≠ token := by
      rintro rfl
      exact h ((findToken_value hfind).trans hs.isInfix)
    rw [lookup_reassign hne]

end Page

end RawTable
end Sitewright
