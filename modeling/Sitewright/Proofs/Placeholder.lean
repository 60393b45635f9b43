import Sitewright.Proofs.CodeToken
import Sitewright.Proofs.Compile
import Sitewright.Proofs.Hypermedia

/-!
Which placeholders a reader gets to see. The HTML of a body's constructs shows none, so a restored
page shows one only where Markdown left something else than a token, or where the HTML of a fence
makes one up together with the text around it.
-/
namespace Sitewright

namespace Text

section Writers

variable {α : Type} {word : Text} {New : Text → Prop} {write write' : α → Text}

/-- Texts written with two hands differ where the hands do. -/
lemma rewritten_substitute (h : ∀ v, Rewritten word New (write v) (write' v)) (find : Finder α)
    (t : Text) : Rewritten word New (substitute find write t) (substitute find write' t) := by
  rw [substitute_eq_sourceOf, substitute_eq_sourceOf]
  induction pieces find t with
  | nil => exact .nil
  | cons p ps ih =>
    refine Rewritten.append ?_ ih
    cases p with
    | plain t => exact .refl t
    | found v => exact h v

end Writers

end Text

namespace RawTable
open Text (Apart Rewritten)

/-- What stands for any HTML. -/
def blankHtml : Text := "<>".toList

/-- The table with the same tokens and no HTML worth the name. -/
def emptied (table : RawTable) : RawTable :=
  { table with entries := table.entries.map fun e => (e.1, blankHtml) }

lemma lookup_emptied (table : RawTable) (token : Text) :
    table.emptied.entries.lookup token = (table.entries.lookup token).map fun _ => blankHtml := by
  unfold emptied
  induction table.entries with
  | nil => rfl
  | cons e es ih =>
    rw [List.map_cons, List.lookup_cons, List.lookup_cons, ih]
    split <;> rfl

/-- Restoring puts the HTML of tokens in some places and copies the rest. -/
lemma rewritten_restore (table : RawTable) (t : Text) :
    Rewritten blankHtml (fun html => ∃ token, table.entries.lookup token = some html)
      (table.emptied.restore t) (table.restore t) := by
  have hempty : table.emptied.entries.isEmpty = table.entries.isEmpty := by
    simp [emptied]
  unfold restore
  rw [hempty]
  split
  · exact .refl t
  · refine Text.rewritten_substitute (fun token => ?_) _ t
    rw [lookup_emptied]
    cases hentry : table.entries.lookup token with
    | none => exact .refl token
    | some html =>
      have hswap : Rewritten blankHtml (fun html => ∃ token, table.entries.lookup token = some html)
          (blankHtml ++ []) (html ++ []) := .swap ⟨token, hentry⟩ .nil
      simpa using hswap

section Stored

lemma Segments.exists_matches {before : Text} {s : Segments} (h : s.Matched before) {c : Construct}
    (hc : c ∈ s.constructs) : (∃ before after, c.Matches before after) ∧ c.source <:+: s.source := by
  induction s generalizing before with
  | last t => cases hc
  | step t d rest ih =>
    rcases List.mem_cons.mp hc with rfl | hc
    · refine ⟨⟨_, _, h.1⟩, ?_⟩
      exact (List.prefix_append _ _).isInfix.trans (List.suffix_append _ _).isInfix
    · obtain ⟨hmatches, hin⟩ := ih h.2 hc
      exact ⟨hmatches, hin.trans (rest_infix_source t d rest)⟩

/-- Stored HTML is that of a construct of the body. -/
lemma exists_construct {body token html : Text}
    (h : (protect body).2.entries.lookup token = some html) :
    ∃ c : Construct, (∃ before after, c.Matches before after) ∧ c.source <:+: body ∧
      c.Numbered (nonceOf body) ∧ c.entry = (token, html) := by
  obtain ⟨s, hsource, hmatched, -, hentries, -, hnumbered⟩ := exists_segments body
  obtain ⟨front, back, hsplit, -⟩ := List.lookup_eq_some_iff.mp h
  have hmem : (token, html) ∈ (protect body).2.entries := by
    rw [hsplit]
    exact List.mem_append_right _ List.mem_cons_self
  obtain ⟨c, hc, hentry⟩ := List.mem_map.mp (hentries.mem_iff.mp hmem)
  obtain ⟨hmatches, hin⟩ := Segments.exists_matches hmatched hc
  exact ⟨c, hmatches, hsource ▸ hin, hnumbered c hc, hentry⟩

/-- HTML under the token of a fence is that of a fence of the body. -/
lemma exists_fence_of_lookup {body html : Text} {n : ℕ}
    (h : (protect body).2.entries.lookup (blockToken (nonceOf body) n) = some html) :
    ∃ token source before after,
      (Construct.fence token source html).Matches before after ∧ source <:+: body := by
  obtain ⟨c, ⟨before, after, hmatches⟩, hsource, hnumbered, hentry⟩ := exists_construct h
  cases c with
  | link token l =>
    obtain ⟨m, rfl⟩ := hnumbered
    exact absurd (Prod.mk.inj hentry).1.symm (blockToken_ne_inlineToken _ n m)
  | fence token source html =>
    obtain ⟨-, rfl⟩ := Prod.mk.inj hentry
    exact ⟨token, source, before, after, hmatches, hsource⟩

/-- A body with the token of a fence has colons. -/
lemma colon_mem_of_lookup {body html : Text} {n : ℕ}
    (h : (protect body).2.entries.lookup (blockToken (nonceOf body) n) = some html) : ':' ∈ body := by
  obtain ⟨token, source, before, after, hmatches, hsource⟩ := exists_fence_of_lookup h
  obtain ⟨opening, inner, closing, -, -, hcolon, -, -, hraw⟩ := Region.rawAt?_some hmatches
  obtain ⟨rfl, -⟩ : source = opening ++ inner ++ closing ∧ _ := by simpa using hraw
  exact hsource.subset (List.mem_append_left _ (List.mem_append_left _ hcolon))

variable {sign : Text} (hsign : sign ∈ signs)
include hsign

/-- The HTML of a construct holds no sign of a placeholder that the construct does not hold. -/
lemma Construct.sign_infix_of_html {c : Construct} {before after : Text} (h : c.Matches before after)
    (hin : sign <:+: c.html) : sign <:+: c.source := by
  cases c with
  | link token l => exact Hypermedia.sign_infix_of_html hsign hin
  | fence token source html =>
    obtain ⟨opening, body, closing, -, -, -, -, -, hraw⟩ := Region.rawAt?_some h
    obtain ⟨rfl, rfl⟩ : source = opening ++ body ++ closing ∧ html = Region.dropLastFeed body := by
      simpa using hraw
    have hbody : Region.dropLastFeed body <:+: body := (Region.dropLastFeed_prefix body).isInfix
    exact (hin.trans hbody).trans ⟨opening, closing, rfl⟩

/-- The HTML of a link stands apart from every sign that is not inside it. -/
lemma apart_of_link {l : Hypermedia.Link} (h : ¬ sign <:+: l.html) (before after : Text) :
    Apart sign before l.html after := by
  have hhtml : ∃ inner, l.html = '<' :: (inner ++ ['>']) := by
    unfold Hypermedia.Link.html Hypermedia.render
    exact ⟨_, rfl⟩
  obtain ⟨inner, hinner⟩ := hhtml
  rw [hinner] at h ⊢
  have hlast : ('<' :: (inner ++ ['>'])).getLast? = some '>' := by
    rw [← List.cons_append, List.getLast?_concat]
  exact Text.apart_of_ends h rfl hlast (not_mem_sign hsign (by decide)) (not_mem_sign hsign (by decide))

end Stored

section Restored

variable {body page : Text} (hstored : ∀ token html,
  (protect body).2.entries.lookup token = some html → ¬ ShowsPlaceholder html)
include hstored

/-- A restored page shows a placeholder if it does so without any HTML, or if the HTML of a fence and
the text around it make one up. -/
lemma showsPlaceholder_restore : ShowsPlaceholder ((protect body).2.restore page) ↔
    ShowsPlaceholder ((protect body).2.emptied.restore page) ∨
      ∃ sign ∈ signs, ∃ n html before after,
        (protect body).2.entries.lookup (blockToken (nonceOf body) n) = some html ∧
        (protect body).2.restore page = before ++ html ++ after ∧ ¬ Apart sign before html after := by
  have hrewritten := rewritten_restore (protect body).2 page
  constructor
  · rintro ⟨sign, hsign, hin⟩
    rcases hrewritten.infix_or hin with hin | ⟨before, html, after, ⟨token, hlookup⟩, hsplit, hover⟩
    · exact .inl ⟨sign, hsign, hin⟩
    · obtain ⟨c, -, -, hnumbered, hentry⟩ := exists_construct hlookup
      obtain ⟨rfl, rfl⟩ := Prod.mk.inj hentry
      cases c with
      | link token l =>
        have hfree : ¬ sign <:+: l.html := fun hin => hstored _ _ hlookup ⟨sign, hsign, hin⟩
        exact absurd (apart_of_link hsign hfree before after) hover
      | fence token source html =>
        obtain ⟨n, rfl⟩ := hnumbered
        exact .inr ⟨sign, hsign, n, _, before, after, hlookup, hsplit, hover⟩
  · rintro (⟨sign, hsign, a, b, hab⟩ | ⟨sign, hsign, n, html, before, after, -, hsplit, hover⟩)
    · refine ⟨sign, hsign, ?_⟩
      have hapart : Apart blankHtml a sign b :=
        Text.apart_of_heads rfl (head?_of_sign hsign) (not_mem_sign hsign (by decide)) (by decide)
      obtain ⟨a', b', hab', -, -⟩ := hrewritten.spare (by decide) hab.symm hapart
      exact ⟨a', b', hab'.symm⟩
    · refine ⟨sign, hsign, ?_⟩
      by_contra hfree
      refine hover fun u v huv => absurd ⟨u, v, ?_⟩ hfree
      rw [huv, hsplit]

end Restored

end RawTable

namespace Markdown
open RawTable (ShowsPlaceholder signs)
open Text (Apart Trimmed)

/-- Does a body hold no control characters but line feeds, and no word that placeholders are told by? -/
structure IsPlainBody (body : Text) : Prop where
  no_lead : ¬ "flint".toList <:+: body
  no_control : ∀ c ∈ body, c.toNat < 32 → c = '\n'

section Signs

variable {sign : Text} (h : sign ∈ signs)
include h

lemma trimmed_sign : Trimmed sign := by
  have hletters : ∀ c ∈ "flint-raw".toList, Text.isBlank c = false := Text.forall_of_all (by decide)
  have hblank : ∀ c ∈ sign, Text.isBlank c = false := fun c hc => hletters c (RawTable.sign_subset h hc)
  exact ⟨fun c hc => hblank c (List.mem_of_head? hc), fun c hc => hblank c (List.mem_of_getLast? hc)⟩

lemma sign_infix_replace_iff (t : Text) :
    sign <:+: Text.replace Mark.ampersand ['&'] t ↔ sign <:+: t := by
  refine (Text.rewritten_replace (by decide) t).infix_iff rfl (RawTable.head?_of_sign h)
    (RawTable.not_mem_sign h (by decide)) (by decide) ?_
  rintro _ rfl before after
  have hand : '&' ∉ sign := RawTable.not_mem_sign h (by decide)
  exact Text.apart_of_ends (RawTable.not_sign_infix_of_not_mem h (by decide)) rfl rfl hand hand

lemma sign_infix_strip_iff (t : Text) : sign <:+: Text.strip t ↔ sign <:+: t := by
  refine ⟨fun hin => ?_, fun hin => Text.infix_strip hin (RawTable.sign_ne_nil h) (trimmed_sign h)⟩
  obtain ⟨front, back, ht, -⟩ := Text.exists_strip t
  exact hin.trans ⟨front, back, ht.symm⟩

/-- A tag with a language holds no sign that the language does not hold. -/
lemma sign_infix_of_labelTag {language : Text} (hin : sign <:+: Fence.labelTag language) :
    sign <:+: language := by
  -- the tag is a quoted attribute and a bracket
  have hlead : "<div class=\"codehilite\" data-language=\"".toList =
      "<div class=\"codehilite\" data-language".toList ++ "=\"".toList := by decide
  have hclose : "\">".toList = ['"'] ++ ['>'] := by decide
  have htag : Fence.labelTag language =
      Hypermedia.quoted "<div class=\"codehilite\" data-language".toList language ++ ['>'] := by
    unfold Fence.labelTag Hypermedia.quoted
    rw [hlead, hclose, ← List.append_assoc]
  rw [htag] at hin
  rcases Text.infix_append_cons (RawTable.not_mem_sign h (by decide)) hin with hin | hin
  · refine (Hypermedia.sign_infix_of_quoted h hin).resolve_left ?_
    exact RawTable.not_sign_infix_of_not_mem h (by decide)
  · exact absurd hin (RawTable.not_sign_infix_of_not_mem h (by decide))

variable {body : Text} (hlead : ¬ "flint".toList <:+: body)
include hlead

/-- Labelling the blocks of a body without the word shows no placeholder and hides none. -/
lemma sign_infix_label_iff (html : Text) :
    sign <:+: Fence.labelLanguages html (Fence.normalize body) ↔ sign <:+: html := by
  unfold Fence.labelLanguages
  split
  · exact Iff.rfl
  · refine (Fence.rewritten_labelFrom _ html).infix_iff rfl (RawTable.head?_of_sign h)
      (RawTable.not_mem_sign h (by decide)) (by decide) ?_
    rintro _ ⟨language, hlanguage, rfl⟩ before after
    have hfree : ¬ sign <:+: language := by
      intro hin
      have hword : language = "text".toList ∨ language <:+: Fence.normalize body :=
        (List.mem_cons.mp hlanguage).elim .inl Fence.mem_languages
      rcases hword with rfl | hsource
      · exact RawTable.not_sign_infix_of_not_mem h (by decide) hin
      · have hbody := Fence.infix_of_infix_normalize (RawTable.sign_ne_nil h)
          (RawTable.not_mem_sign h (by decide)) (hin.trans hsource)
        exact RawTable.not_infix_of_not_lead h hlead hbody
    exact Text.apart_of_ends (fun hin => hfree (sign_infix_of_labelTag h hin))
      (Fence.head?_labelTag language) (Fence.getLast?_labelTag language)
      (RawTable.not_mem_sign h (by decide)) (RawTable.not_mem_sign h (by decide))

end Signs

variable {body : Text} (hbody : IsPlainBody body)
include hbody

/-- What is done to a page once HTML is back shows no placeholder and hides none. -/
lemma showsPlaceholder_compile : ShowsPlaceholder (compile body) ↔
    Text.isBlankText (Fence.normalize body) = false ∧
      ShowsPlaceholder ((Draft.ofSource (Fence.normalize body)).table.restore
        (Draft.ofSource (Fence.normalize body)).page) := by
  cases hblank : Text.isBlankText (Fence.normalize body) with
  | true =>
    have hcompile : compile body = [] := by rw [compile, hblank, if_pos rfl]
    simp only [hcompile, reduceCtorEq, false_and, iff_false]
    rintro ⟨sign, hsign, hin⟩
    exact RawTable.sign_ne_nil hsign (List.infix_nil.mp hin)
  | false =>
    have hcompile : compile body =
        Fence.labelLanguages (Draft.ofSource (Fence.normalize body)).html (Fence.normalize body) := by
      rw [compile, hblank, if_neg Bool.false_ne_true]
    simp only [hcompile, true_and]
    refine exists_congr fun sign => and_congr_right fun hsign => ?_
    rw [sign_infix_label_iff hsign hbody.no_lead, Draft.html, sign_infix_strip_iff hsign,
      sign_infix_replace_iff hsign]

lemma not_infix_normalized {sign : Text} (hsign : sign ∈ signs) : ¬ sign <:+: normalized body := by
  have hplain : ∀ c ∈ Fence.normalize body, c.toNat < 32 → c = '\n' := fun c hc hsmall =>
    (Fence.mem_of_mem_normalize hc).elim (fun hc => hbody.no_control c hc hsmall) id
  have hnot : ∀ c : Char, c.toNat < 32 → c ≠ '\n' → c ∉ Fence.normalize body :=
    fun c hsmall hne hc => hne (hplain c hc hsmall)
  have hfeed : '\n' ∉ sign := RawTable.not_mem_sign hsign (by decide)
  intro hin
  have hsource := Source.infix_of_infix_normalize (RawTable.sign_ne_nil hsign)
    (RawTable.not_mem_sign hsign (by decide)) hfeed
    ⟨hnot _ (by decide) (by decide), hnot _ (by decide) (by decide)⟩ (hnot _ (by decide) (by decide)) hin
  exact RawTable.not_infix_of_not_lead hsign hbody.no_lead
    (Fence.infix_of_infix_normalize (RawTable.sign_ne_nil hsign) hfeed hsource)

/-- The HTML of a fence or a link shows no placeholder. -/
lemma not_showsPlaceholder_stored (token html : Text)
    (h : (RawTable.protect (normalized body)).2.entries.lookup token = some html) :
    ¬ ShowsPlaceholder html := by
  rintro ⟨sign, hsign, hin⟩
  obtain ⟨c, ⟨before, after, hmatches⟩, hsource, -, hentry⟩ := RawTable.exists_construct h
  obtain ⟨-, rfl⟩ := Prod.mk.inj hentry
  exact not_infix_normalized hbody hsign ((c.sign_infix_of_html hsign hmatches hin).trans hsource)

/-- A fence whose token is read into fenced code is shown as a placeholder. -/
lemma showsPlaceholder_of_inFencedCode {k : ℕ} {html : Text}
    (hentry : (RawTable.protect (normalized body)).2.entries.lookup
      (RawTable.blockToken (RawTable.nonceOf (normalized body)) k) = some html)
    (hcode : InFencedCode (RawTable.blockToken (RawTable.nonceOf (normalized body)) k)
      (RawTable.protect (normalized body)).1) : ShowsPlaceholder (compile body) := by
  have hblank := not_blank_of_colon (RawTable.colon_mem_of_lookup hentry)
  have hsign : "flint-raw".toList <:+: RawTable.shownLead := by decide
  refine (showsPlaceholder_compile hbody).mpr ⟨hblank, "flint-raw".toList, by decide, ?_⟩
  refine hsign.trans (RawTable.shownLead_infix_restore ?_ (shownLead_infix_page hcode))
  rw [table_ofSource, nonce_protect]
  exact RawTable.nonceOf_mem

omit hbody

/-- A fence in code that ends with a longer line of ticks than it starts with. -/
def fenceInLongCode : Text := "```\n````\n:::html\nx\n:::\n```".toList

end Markdown
end Sitewright
