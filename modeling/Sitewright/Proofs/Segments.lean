import Sitewright.Proofs.Link
import Sitewright.Proofs.Region
import Sitewright.Proofs.Token

/-!
A body cut into literal text, raw fences and hypermedia links. Masking makes two passes over
different texts; a link never reaches into what the first pass put in, so one list of segments
describes both.
-/
namespace Sitewright.RawTable
open Text (Piece sourceOf Located)
open Hypermedia (Link)

/-- What masking takes out of a body, with the token that stands for it. -/
inductive Construct
  | fence (token source html : Text)
  | link (token : Text) (l : Link)

namespace Construct

def token : Construct → Text
  | fence token _ _ => token
  | link token _ => token

def source : Construct → Text
  | fence _ source _ => source
  | link _ l => l.source

def html : Construct → Text
  | fence _ _ html => html
  | link _ l => l.html

/-- What stands for the construct in the masked text. -/
def masked : Construct → Text
  | fence token _ _ => "\n\n".toList ++ token ++ "\n\n".toList
  | link token _ => token

def entry (c : Construct) : Text × Text := (c.token, c.html)

/-- The construct is found between what stands before it (nearest first) and after it. -/
def Matches (before after : Text) : Construct → Prop
  | fence _ source html => Region.rawAt? before (source ++ after) = some (.raw source html)
  | link _ l => Link.at? before (l.source ++ after) = some l

/-- The token is one of the nonce and of the construct's kind. -/
def Numbered (nonce : Text) : Construct → Prop
  | fence token _ _ => ∃ n, token = blockToken nonce n
  | link token _ => ∃ n, token = inlineToken nonce n

end Construct

/-- Literal text with constructs between. -/
inductive Segments
  | last (text : Text)
  | step (text : Text) (c : Construct) (rest : Segments)

namespace Segments

/-- The text as written. -/
def source : Segments → Text
  | last t => t
  | step t c rest => t ++ (c.source ++ rest.source)

/-- The text with tokens for the constructs. -/
def masked : Segments → Text
  | last t => t
  | step t c rest => t ++ (c.masked ++ rest.masked)

def constructs : Segments → List Construct
  | last _ => []
  | step _ c rest => c :: rest.constructs

/-- Every construct is found where it stands. -/
def Matched (before : Text) : Segments → Prop
  | last _ => True
  | step t c rest => c.Matches (t.reverse ++ before) rest.source ∧
      rest.Matched (c.source.reverse ++ (t.reverse ++ before))

/-- Every construct is a link that does not follow an exclamation mark. -/
def LinksOnly (before : Text) : Segments → Prop
  | last _ => True
  | step _ (.fence _ _ _) _ => False
  | step t (.link _ l) rest => (t.reverse ++ before).head? ≠ some '!' ∧ l.WellFormed ∧
      rest.LinksOnly (l.source.reverse ++ (t.reverse ++ before))

/-- Literal text put in front. -/
def prepend (t : Text) : Segments → Segments
  | last u => last (t ++ u)
  | step u c rest => step (t ++ u) c rest

def append : Segments → Segments → Segments
  | last t, s => s.prepend t
  | step t c rest, s => step t c (rest.append s)

instance : Append Segments := ⟨append⟩

/-- Without constructs nothing is masked. -/
lemma masked_of_constructs {s : Segments} (h : s.constructs = []) : s.masked = s.source := by
  cases s with
  | last t => rfl
  | step t c rest => cases h

section Append

variable (t : Text) (c : Construct) (rest s u : Segments)

lemma last_append : last t ++ s = s.prepend t := rfl
lemma step_append : step t c rest ++ s = step t c (rest ++ s) := rfl

@[simp] lemma prepend_nil : s.prepend [] = s := by
  cases s <;> rfl

@[simp] lemma source_prepend : (s.prepend t).source = t ++ s.source := by
  cases s <;> simp [prepend, source]

@[simp] lemma masked_prepend : (s.prepend t).masked = t ++ s.masked := by
  cases s <;> simp [prepend, masked]

@[simp] lemma constructs_prepend : (s.prepend t).constructs = s.constructs := by
  cases s <;> rfl

@[simp] lemma matched_prepend (before : Text) :
    (s.prepend t).Matched before ↔ s.Matched (t.reverse ++ before) := by
  cases s <;> simp [prepend, Matched]

@[simp] lemma linksOnly_prepend (before : Text) :
    (s.prepend t).LinksOnly before ↔ s.LinksOnly (t.reverse ++ before) := by
  rcases s with u | ⟨u, ⟨⟩, rest⟩ <;> simp [prepend, LinksOnly]

@[simp] lemma source_append : (s ++ u).source = s.source ++ u.source := by
  induction s with
  | last t => simp [last_append, source]
  | step t c rest ih => simp [step_append, source, ih]

@[simp] lemma masked_append : (s ++ u).masked = s.masked ++ u.masked := by
  induction s with
  | last t => simp [last_append, masked]
  | step t c rest ih => simp [step_append, masked, ih]

@[simp] lemma constructs_append : (s ++ u).constructs = s.constructs ++ u.constructs := by
  induction s with
  | last t => simp [last_append, constructs]
  | step t c rest ih => simp [step_append, constructs, ih]

@[simp] lemma linksOnly_append (before : Text) : (s ++ u).LinksOnly before ↔
    s.LinksOnly before ∧ u.LinksOnly (s.source.reverse ++ before) := by
  induction s generalizing before with
  | last t => simp [last_append, LinksOnly, source]
  | step t c rest ih =>
    cases c with
    | fence token src html => simp [step_append, LinksOnly]
    | link token l => simp [step_append, LinksOnly, ih, source, Construct.source, and_assoc]

end Append

/-- Segments of links go with whatever follows them. -/
lemma LinksOnly.matched_append {before : Text} {s u : Segments} (hs : s.LinksOnly before)
    (hu : u.Matched (s.source.reverse ++ before)) : (s ++ u).Matched before := by
  induction s generalizing before with
  | last t => simpa [last_append, source] using hu
  | step t c rest ih =>
    cases c with
    | fence token src html => exact hs.elim
    | link token l =>
      obtain ⟨hmark, hl, hrest⟩ := hs
      refine ⟨Link.at?_of_wellFormed hmark hl, ih hrest ?_⟩
      simpa [source, Construct.source] using hu

lemma LinksOnly.matched {before : Text} {s : Segments} (h : s.LinksOnly before) :
    s.Matched before := by
  induction s generalizing before with
  | last t => trivial
  | step t c rest ih =>
    cases c with
    | fence token src html => exact h.elim
    | link token l => exact ⟨Link.at?_of_wellFormed h.1 h.2.1, ih h.2.2⟩

/-- Only the character in front of the segments matters, and only if they are not empty. -/
lemma LinksOnly.of_head {before before' : Text} {s : Segments} (h : s.LinksOnly before)
    (hhead : s.source ≠ [] → before'.head? = some '!' → before.head? = some '!') :
    s.LinksOnly before' := by
  induction s generalizing before before' with
  | last t => trivial
  | step t c rest ih =>
    cases c with
    | fence token src html => exact h.elim
    | link token l =>
      obtain ⟨hmark, hl, hrest⟩ := h
      refine ⟨?_, hl, ih hrest ?_⟩
      · cases ht : t.reverse with
        | nil =>
          simp only [ht, List.nil_append] at hmark ⊢
          exact fun hb => hmark (hhead (by simp [source, Construct.source, Link.source]) hb)
        | cons d ds =>
          simp only [ht] at hmark
          simpa using hmark
      · cases hsource : l.source.reverse with
        | nil => simp [Link.source] at hsource
        | cons d ds => simp

lemma LinksOnly.link_of_mem {before : Text} {s : Segments} (h : s.LinksOnly before) {c : Construct}
    (hc : c ∈ s.constructs) : ∃ token l, c = .link token l := by
  induction s generalizing before with
  | last t => cases hc
  | step t c' rest ih =>
    cases c' with
    | fence token src html => exact h.elim
    | link token l =>
      rcases List.mem_cons.mp hc with rfl | hc
      · exact ⟨token, l, rfl⟩
      · exact ih h.2.2 hc

/-- Links can be cut apart at any place that no line-free text crosses. -/
lemma LinksOnly.split {before a b : Text} {s : Segments} (h : s.LinksOnly before)
    (hsource : s.source = a ++ b)
    (hcross : ∀ u v, u <:+ a → v <+: b → u ≠ [] → v ≠ [] → '\n' ∈ u ++ v) :
    ∃ s₁ s₂, s = s₁ ++ s₂ ∧ s₁.source = a ∧ s₂.source = b := by
  induction s generalizing before a with
  | last t =>
    obtain rfl : t = a ++ b := hsource
    exact ⟨last a, last b, rfl, rfl, rfl⟩
  | step t c rest ih =>
    cases c with
    | fence token src html => exact h.elim
    | link token l =>
      obtain ⟨-, hl, hrest⟩ := h
      rcases List.append_eq_append_iff.mp hsource with ⟨a', rfl, hback⟩ | ⟨t', rfl, rfl⟩
      · rcases List.append_eq_append_iff.mp hback with ⟨a'', rfl, hrestsource⟩ | ⟨b', hl', rfl⟩
        · -- The cut is behind the link.
          obtain ⟨s₁, s₂, rfl, rfl, rfl⟩ := ih hrest hrestsource fun u v hu hv =>
            hcross u v (hu.trans ((List.suffix_append _ _).trans (List.suffix_append _ _))) hv
          exact ⟨step t (.link token l) s₁, s₂, rfl, rfl, rfl⟩
        · -- The cut is at one end of the link, since a link holds no line feed.
          replace hl' : l.source = a' ++ b' := hl'
          by_cases ha : a' = []
          · subst ha
            exact ⟨last t, step [] (.link token l) rest, by simp [last_append, prepend],
              by simp [source], by simp [source, Construct.source, hl']⟩
          · by_cases hb : b' = []
            · subst hb
              exact ⟨step t (.link token l) (last []), rest, by simp [step_append, last_append],
                by simp [source, Construct.source, hl'], by simp⟩
            · have hfeed := hcross a' b' (List.suffix_append _ _) (List.prefix_append _ _) ha hb
              rw [← hl'] at hfeed
              exact absurd hfeed hl.feed_not_mem
      · exact ⟨last a, step t' (.link token l) rest, rfl, rfl, rfl⟩

lemma feed_mem_of_prefix {u v b : Text} (hv : v <+: '\n' :: b) (hne : v ≠ []) : '\n' ∈ u ++ v := by
  obtain ⟨d, v, rfl⟩ := List.exists_cons_of_ne_nil hne
  obtain ⟨rfl, -⟩ := List.cons_prefix_cons.mp hv
  simp

lemma feed_mem_of_suffix {u v a : Text} (hu : u <:+ a ++ ['\n']) (hne : u ≠ []) : '\n' ∈ u ++ v := by
  obtain ⟨front, hfront⟩ := hu
  have hlast := congrArg List.getLast? hfront
  rw [List.getLast?_append_of_ne_nil _ hne, List.getLast?_concat] at hlast
  exact List.mem_append_left _ (List.mem_of_getLast? hlast)

/-- Where no bracket opens there is no link. -/
lemma LinksOnly.eq_last {before : Text} {s : Segments} (h : s.LinksOnly before)
    (hbracket : '[' ∉ s.source) : s = last s.source := by
  cases s with
  | last t => rfl
  | step t c rest =>
    cases c with
    | fence token src html => exact h.elim
    | link token l => simp [source, Construct.source, Link.source] at hbracket

/-- The token of a fence and the line feeds around it are literal text for links. -/
lemma LinksOnly.split_frame {nonce : Text} (hnonce : ∀ c ∈ nonce, c ∈ Digest.digits) {n : ℕ}
    {src html before t r : Text} {q : Segments} (h : q.LinksOnly before)
    (hsource : q.source = t ++ ((Construct.fence (blockToken nonce n) src html).masked ++ r)) :
    ∃ q₁ q₂ : Segments, q = q₁ ++ q₂.prepend (Construct.fence (blockToken nonce n) src html).masked ∧
      q₁.source = t ∧ q₂.source = r := by
  have hframe : (Construct.fence (blockToken nonce n) src html).masked =
      ('\n' :: '\n' :: blockToken nonce n ++ ['\n']) ++ ['\n'] := by
    simp [Construct.masked]
  rw [hframe] at hsource ⊢
  obtain ⟨q₁, q', rfl, rfl, hq'⟩ := h.split hsource fun _ _ _ hv _ hne => feed_mem_of_prefix hv hne
  have hrest := ((linksOnly_append ..).mp h).2
  obtain ⟨q₀, q₂, rfl, hq₀, rfl⟩ := hrest.split hq' fun _ _ hu _ hne _ => feed_mem_of_suffix hu hne
  have hbracket : '[' ∉ q₀.source := by
    have hnot := (isToken_blockToken nonce n).not_mem hnonce (show '[' ∈ ['\n', '[', '&'] by simp)
    simp [hq₀, hnot]
  have hlast := ((linksOnly_append ..).mp hrest).1.eq_last hbracket
  exact ⟨q₁, q₂, by rw [hlast, hq₀, last_append], rfl, rfl⟩

/-- A fence does not end in an exclamation mark. -/
lemma fence_reverse_head {before after source html : Text}
    (h : Region.rawAt? before after = some (.raw source html)) (front : Text) :
    (source.reverse ++ front).head? ≠ some '!' := by
  obtain ⟨opening, body, closing, -, -, -, hne, hmark, hraw⟩ := Region.rawAt?_some h
  obtain ⟨rfl, -⟩ : source = opening ++ body ++ closing ∧ _ := by simpa using hraw
  rw [List.head?_append_of_ne_nil _ (by simp [hne]), List.head?_reverse]
  exact Region.getLast?_append_ne hne hmark

/-- Every construct is a fence with a token of the nonce. -/
def FencesOnly (nonce : Text) (s : Segments) : Prop :=
  ∀ c ∈ s.constructs, ∃ n source html, c = .fence (blockToken nonce n) source html

/-- A body cut into fences and its masked text cut into links fit together: no link reaches into
a token, so the body can be cut into both. -/
theorem exists_common {nonce : Text} (hnonce : ∀ c ∈ nonce, c ∈ Digest.digits)
    {before before' : Text} {f q : Segments} (hf : f.FencesOnly nonce) (hmatched : f.Matched before)
    (hq : q.LinksOnly before') (hmasked : q.source = f.masked)
    (hhead : before.head? = some '!' → before'.head? = some '!') :
    ∃ s : Segments, s.source = f.source ∧ s.masked = q.masked ∧ s.Matched before ∧
      s.constructs.Perm (f.constructs ++ q.constructs) := by
  induction f generalizing before before' q with
  | last t =>
    refine ⟨q, hmasked, rfl, (hq.of_head fun _ => hhead).matched, ?_⟩
    simp [constructs]
  | step t c rest ih =>
    obtain ⟨n, src, html, rfl⟩ := hf c (by simp [constructs])
    obtain ⟨hfence, hrest⟩ := hmatched
    obtain ⟨q₁, q₂, rfl, rfl, hq₂⟩ := hq.split_frame hnonce hmasked
    obtain ⟨hq₁, hqrest⟩ := (linksOnly_append ..).mp hq
    rw [linksOnly_prepend] at hqrest
    obtain ⟨s, hsource, hmasked', hmatched, hperm⟩ :=
      ih (fun c hc => hf c (by simp [constructs, hc])) hrest hqrest hq₂ fun hmark =>
        absurd hmark (fence_reverse_head hfence _)
    refine ⟨q₁ ++ step [] (.fence (blockToken nonce n) src html) s, ?_, ?_, ?_, ?_⟩
    · simp [source, hsource]
    · simp [masked, hmasked']
    · refine (hq₁.of_head fun _ => hhead).matched_append ⟨?_, hmatched⟩
      rw [hsource]
      exact hfence
    · simp only [constructs_append, constructs_prepend, constructs, List.cons_append]
      refine List.perm_middle.trans (List.Perm.cons _ ?_)
      exact (hperm.append_left _).trans (List.perm_append_comm_assoc ..)

end Segments
end Sitewright.RawTable
