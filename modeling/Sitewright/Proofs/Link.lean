import Sitewright.Hypermedia
import Sitewright.Proofs.Scan

/-!
Which texts are hypermedia links. A link is recognised by its own characters and by the one before
it, whatever follows it.
-/
namespace Sitewright.Hypermedia.Link
open Text (spanWhile spanWhile_eq spanWhile_stop)

/-- The parts of a link hold none of the characters that end them. -/
structure WellFormed (l : Link) : Prop where
  text_ne : l.text ≠ []
  text : ∀ c ∈ l.text, c ≠ ']' ∧ c ≠ '\n'
  url_ne : l.url ≠ []
  url : ∀ c ∈ l.url, c ≠ ')' ∧ Text.isBlank c = false
  block : ∀ c ∈ l.block, c ≠ '\x7d' ∧ c ≠ '\n'

lemma at?_eq_some {before after : Text} {l : Link} (h : at? before after = some l) :
    before.head? ≠ some '!' ∧ l.WellFormed ∧ l.source <+: after := by
  unfold at? at h
  split at h
  · cases h
  · rename_i hmark
    refine ⟨hmark, ?_⟩
    split at h
    · rename_i rest
      split at h
      · rename_i c cs rest' htext
        obtain ⟨rfl, htext'⟩ := spanWhile_eq htext
        split at h
        · rename_i u us rest'' hurl
          obtain ⟨rfl, hurl'⟩ := spanWhile_eq hurl
          split at h
          · rename_i block tail hblock
            obtain ⟨rfl, hblock'⟩ := spanWhile_eq hblock
            cases h
            refine ⟨⟨by simp, by simpa using htext', by simp, by simpa using hurl',
              by simpa using hblock'⟩, ⟨tail, by simp [source]⟩⟩
          · cases h
        · cases h
      · cases h
    · cases h

lemma at?_of_wellFormed {before rest : Text} {l : Link} (hmark : before.head? ≠ some '!')
    (h : l.WellFormed) : at? before (l.source ++ rest) = some l := by
  obtain ⟨text, url, block⟩ := l
  obtain ⟨htext_ne, htext, hurl_ne, hurl, hblock⟩ := h
  obtain ⟨c, cs, rfl⟩ := List.exists_cons_of_ne_nil htext_ne
  obtain ⟨u, us, rfl⟩ := List.exists_cons_of_ne_nil hurl_ne
  have hsource : source ⟨c :: cs, u :: us, block⟩ ++ rest =
      '[' :: ((c :: cs) ++ ']' :: '(' :: ((u :: us) ++ ')' :: '\x7b' :: (block ++ '\x7d' :: rest))) := by
    simp [source]
  rw [hsource, at?, if_neg hmark]
  have htext' : spanWhile (fun c => c ≠ ']' && c ≠ '\n') ((c :: cs) ++ ']' :: '(' ::
      ((u :: us) ++ ')' :: '\x7b' :: (block ++ '\x7d' :: rest))) = (c :: cs, _) :=
    spanWhile_stop (by simpa using htext) (by simp)
  have hurl' : spanWhile (fun c => c ≠ ')' && !Text.isBlank c)
      ((u :: us) ++ ')' :: '\x7b' :: (block ++ '\x7d' :: rest)) = (u :: us, _) :=
    spanWhile_stop (by simpa using hurl) (by simp)
  have hblock' : spanWhile (fun c => c ≠ '\x7d' && c ≠ '\n') (block ++ '\x7d' :: rest) = (block, _) :=
    spanWhile_stop (by simpa using hblock) (by simp)
  simp only [htext', hurl', hblock']

theorem find_exact : find.Exact source := by
  intro before after hit h
  obtain ⟨l, hl, rfl⟩ := Option.map_eq_some_iff.mp h
  exact ⟨rfl, by simp [source], (at?_eq_some hl).2.2⟩

/-- A link is within one line. -/
lemma WellFormed.feed_not_mem {l : Link} (h : l.WellFormed) : '\n' ∉ l.source := by
  have htext : '\n' ∉ l.text := fun hm => (h.text _ hm).2 rfl
  have hurl : '\n' ∉ l.url := fun hm => by
    have := (h.url _ hm).2
    revert this; decide
  have hblock : '\n' ∉ l.block := fun hm => (h.block _ hm).2 rfl
  simp [source, htext, hurl, hblock]

end Sitewright.Hypermedia.Link
