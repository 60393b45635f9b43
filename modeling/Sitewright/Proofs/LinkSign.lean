import Sitewright.Proofs.CodeSign
import Sitewright.Proofs.LinkElement
import Sitewright.Proofs.Placeholder

/-!
Tokens and the links they stand for. A link is an anchor or a button with text in it, so a restored page
has the links of the page with tokens, as deep in code as their tokens are.
-/
namespace Sitewright

namespace Hypermedia
open CodeSign

/-- The keys of a link's element hold no bracket if its block holds none. -/
lemma bracket_not_mem_element {url text block : Text} (h : '<' ∉ block) :
    ∀ b ∈ (element url text block).attributes, '<' ∉ b.key := by
  have hleads : ∀ key ∈ ["type", "hx-get", "href"].map String.toList, '<' ∉ key := by decide
  intro b hb
  rcases mem_element hb with hb | ⟨a, ha, hb⟩
  · exact hleads b.key (mem_leads hb).1
  · have hkey : '<' ∉ a.key := fun hkey => h ((mem_attributes ha).1.subset hkey)
    rcases shown?_eq_some hb with ⟨-, rfl⟩ | ⟨-, rfl⟩
    · simp [hkey]
    · exact hkey

/-- A link whose attributes hold no bracket gives one sign. -/
lemma Link.ofHtml_html {l : Link} (h : '<' ∉ l.block) (rest : Text) :
    ofHtml (l.html ++ rest) = .link :: ofHtml rest := by
  obtain ⟨e, he⟩ : ∃ e, e = element l.url l.text l.block := ⟨_, rfl⟩
  have hwritten : e.IsWritten := he ▸ isWritten_element l.url l.text l.block
  have hclean := hwritten.bracket_not_mem_join (he ▸ bracket_not_mem_element h)
  have hcontent : '<' ∉ e.content := fun hc => hwritten.content '<' hc (by decide)
  have hname : '<' ∉ e.tag ∧ ofTag? (e.tag ++ [' ']) = some .link ∧ ofTag? ('/' :: e.tag ++ ['>']) = none := by
    rcases hwritten.tag with htag | htag
    all_goals
      rw [htag]
      decide
  have hhtml : l.html ++ rest = '<' :: (e.tag ++ [' '] ++ (Text.join [' '] (e.attributes.map Attribute.source) ++
      '>' :: e.content)) ++ ('<' :: ('/' :: e.tag ++ ['>']) ++ rest) := by
    rw [Link.html, render_eq, ← he]
    simp [Element.source, Element.inside]
  rw [hhtml, ofHtml_tag, ofTag?_append, hname.2.1, ofHtml_tag, hname.2.2]
  · rfl
  · simp [hname.1]
  · exact ⟨'>', by simp, by decide⟩
  · exact ⟨' ', by simp, by decide⟩
  · simp [hname.1, hclean, hcontent]
  · exact ⟨' ', by simp, by decide⟩

end Hypermedia

namespace RawTable
open CodeSign

/-- Does the token of stored HTML start here, the token of a link? -/
def startsLink (table : RawTable) (t : Text) : Bool :=
  ((inlineTokenAt? table.nonce t).bind fun token => table.entries.lookup token).isSome

lemma startsLink_some {table : RawTable} {t : Text} (h : table.startsLink t = true) :
    ∃ token html, inlineTokenAt? table.nonce t = some token ∧ table.entries.lookup token = some html := by
  obtain ⟨html, hhtml⟩ := Option.isSome_iff_exists.mp h
  obtain ⟨token, htoken, hlookup⟩ := Option.bind_eq_some_iff.mp hhtml
  exact ⟨token, html, htoken, hlookup⟩

lemma startsLink_cons {table : RawTable} {c : Char} (cs : Text) (h : c ≠ 'f') :
    table.startsLink (c :: cs) = false := by
  rw [← Bool.not_eq_true]
  intro hlink
  obtain ⟨token, -, htoken, -⟩ := startsLink_some hlink
  obtain ⟨⟨digits, -, -, rfl⟩, rest, hrest⟩ := numberedAt?_some htoken
  exact h (List.cons.inj hrest).1.symm

lemma startsLink_of_bracket {table : RawTable} {t : Text} (h : t.head? = some '<') :
    table.startsLink t = false := by
  obtain ⟨cs, rfl⟩ := List.head?_eq_some_iff.mp h
  exact startsLink_cons cs (by decide)

/-- Every entry is a link, stored under the token of a link. -/
def HoldsLinks (table : RawTable) : Prop := ∀ token html, table.entries.lookup token = some html →
  (∃ n, token = inlineToken table.nonce n) ∧ Strange html ∧
    ∀ rest, ofHtml (html ++ rest) = .link :: ofHtml rest

section Tokens

variable {nonce : Text}

lemma IsToken.ne_nil {token : Text} (h : IsToken nonce token) : token ≠ [] := by
  obtain ⟨c, t, rfl, -⟩ := h.head
  exact List.cons_ne_nil c t

lemma IsToken.strange {token : Text} (h : IsToken nonce token) : Strange token := by
  obtain ⟨c, t, rfl, hc⟩ := h.head
  simp only [List.mem_cons, List.not_mem_nil, or_false] at hc
  rcases hc with rfl | rfl
  · exact strange_bracket t
  · exact strange_cons (by decide) t

/-- No bracket is in a token but the one it may start with, and that opens a comment. -/
lemma IsToken.bracket {token : Text} (hnonce : ∀ c ∈ nonce, c ∈ Digest.digits) (h : IsToken nonce token) :
    (∀ c t, token = c :: t → '<' ∉ t) ∧ ∀ t rest, token = '<' :: t → ofTag? (t ++ rest) = none := by
  obtain ⟨word, number, mark, hlike⟩ := h
  have hback : '<' ∉ nonce ++ mark :: number := by
    intro hmem
    rcases List.mem_append.mp hmem with hmem | hmem
    · exact absurd (hnonce _ hmem) (by decide)
    · exact hlike.not_mem_number (by decide) hmem
  have hword : ∀ word ∈ words, '<' ∉ word.tail ∧ (word.head? = some '<' → word.tail.head? = some '!') := by
    decide
  obtain ⟨htail, hcomment⟩ := hword word hlike.word_mem
  obtain ⟨c, d, w, rfl, -⟩ := words_start word hlike.word_mem
  refine ⟨fun e t ht => ?_, fun t rest ht => ?_⟩
  · have hsplit : e :: t = c :: (d :: w ++ (nonce ++ mark :: number)) := ht.symm.trans hlike.eq
    obtain ⟨-, rfl⟩ := List.cons.inj hsplit
    exact fun hmem => (List.mem_append.mp hmem).elim htail hback
  · have hsplit : '<' :: t = c :: (d :: w ++ (nonce ++ mark :: number)) := ht.symm.trans hlike.eq
    obtain ⟨rfl, rfl⟩ := List.cons.inj hsplit
    obtain rfl : d = '!' := Option.some.inj (hcomment rfl)
    exact ofTag?_strange (strange_cons (by decide) _) [] (by simp)

end Tokens

section Restoring

variable {table : RawTable} (hnonce : ∀ c ∈ table.nonce, c ∈ Digest.digits) (hlinks : table.HoldsLinks)
include hnonce

/-- In a token, behind its start, there is no sign. -/
lemma at?_inside {token u v rest : Text} (htoken : IsToken table.nonce token) (huv : token = u ++ v)
    (hu : u ≠ []) (hv : v ≠ []) : at? table.startsLink (v ++ rest) = none := by
  obtain ⟨c, v, rfl⟩ := List.exists_cons_of_ne_nil hv
  obtain ⟨d, u, rfl⟩ := List.exists_cons_of_ne_nil hu
  have hc : c ≠ '<' := by
    rintro rfl
    exact (htoken.bracket hnonce).1 d (u ++ '<' :: v) huv (by simp)
  have hnot : table.startsLink (c :: (v ++ rest)) = false := by
    rw [← Bool.not_eq_true]
    intro hlink
    obtain ⟨token', -, htoken', -⟩ := startsLink_some hlink
    obtain ⟨hlike, hprefix⟩ := inlineTokenAt?_some htoken'
    exact htoken.not_prefix_inside hnonce hlike huv (List.cons_ne_nil d u) (List.cons_ne_nil c v) hprefix
  rw [List.cons_append, at?, if_neg hc, hnot]
  rfl

/-- A token gives a sign just if it stands for a link. -/
lemma along_token {token : Text} (htoken : IsToken table.nonce token) (rest : Text) :
    along table.startsLink (token ++ rest) =
      (if table.startsLink (token ++ rest) then [.link] else []) ++ along table.startsLink rest := by
  obtain ⟨c, t, rfl, hc⟩ := htoken.head
  have hinside : along table.startsLink (t ++ rest) = along table.startsLink rest :=
    along_append_of_none fun u v huv hv =>
      at?_inside hnonce htoken (u := c :: u) (by rw [huv]; rfl) (List.cons_ne_nil c u) hv
  rw [List.cons_append, along, hinside, at?]
  split
  · rename_i hbracket
    subst hbracket
    rw [(htoken.bracket hnonce).2 t rest rfl, startsLink_cons _ (by decide)]
    rfl
  · split <;> rfl

omit hnonce in
/-- Text in which no tag and no token starts has no signs. -/
lemma along_copied {t rest : Text} (h : ∀ c ∈ t, c ≠ '<' ∧ c ≠ 'f') :
    along table.startsLink (t ++ rest) = along table.startsLink rest := by
  refine along_append_of_none fun u v huv hv => ?_
  obtain ⟨c, v, rfl⟩ := List.exists_cons_of_ne_nil hv
  obtain ⟨hbracket, hword⟩ := h c (huv ▸ by simp)
  rw [List.cons_append, at?, if_neg hbracket, startsLink_cons _ hword]
  rfl

omit hnonce in
lemma along_tag {t : Text} (h : ∀ c ∈ t, c ≠ '<' ∧ c ≠ 'f') (hname : ∃ c ∈ t, inName c = false)
    (rest : Text) : along table.startsLink ('<' :: t ++ rest) =
      (ofTag? t).toList ++ along table.startsLink rest := by
  rw [List.cons_append, along, at?, if_pos rfl, ofTag?_append hname, along_copied h]

omit hnonce in
/-- A text goes on the same way once restored, as far as names of tags matter. -/
lemma agree_substitute {write : Text → Text} (hwrite : ∀ token, IsToken table.nonce token → Strange (write token))
    (t : Text) : Agree t (Text.substitute (findToken table.nonce) write t) := by
  induction t with
  | nil => exact .nil
  | cons c cs ih =>
    cases hfind : findToken table.nonce [] (c :: cs) with
    | none =>
      rw [Text.substitute_none (findToken_local _) hfind]
      exact .cons c ih
    | some hit =>
      rw [Text.substitute_cons (findToken_local _) hfind]
      rcases findToken_cases hfind with hfind | ⟨token, rfl, hfind | hfind⟩
      · obtain ⟨blanks, token, more, rest, -, htoken, hsplit, rfl⟩ := paragraphAt?_eq hfind
        obtain ⟨hlike, -, -⟩ := blockTokenAt?_some htoken
        have hstart : c = '<' := (List.cons.inj hsplit).1
        rw [hstart]
        exact .strange (strange_bracket cs) ((hwrite _ hlike).append _)
      · obtain ⟨hlike, hprefix, -⟩ := blockTokenAt?_some hfind
        obtain ⟨rest, hrest⟩ := hprefix
        rw [← hrest]
        exact .strange (hlike.strange.append _) ((hwrite _ hlike).append _)
      · obtain ⟨hlike, rest, hrest⟩ := inlineTokenAt?_some hfind
        rw [← hrest]
        exact .strange (hlike.strange.append _) ((hwrite _ hlike).append _)

include hlinks

omit hnonce in
/-- No HTML is stored for what looks like the token of a fence. -/
lemma lookup_blockToken {t token : Text} (h : blockTokenAt? table.nonce t = some token) :
    table.entries.lookup token = none := by
  rw [Option.eq_none_iff_forall_ne_some]
  intro html hlookup
  obtain ⟨⟨n, rfl⟩, -⟩ := hlinks _ html hlookup
  obtain ⟨-, ⟨rest, hrest⟩, hhead⟩ := blockTokenAt?_some h
  rw [← hrest] at hhead
  cases hhead

omit hlinks in
lemma ofHtml_token {token : Text} (htoken : IsToken table.nonce token) (rest : Text) :
    ofHtml (token ++ rest) = ofHtml rest := by
  obtain ⟨c, t, rfl, -⟩ := htoken.head
  obtain ⟨htail, hcomment⟩ := htoken.bracket hnonce
  rw [List.cons_append, ofHtml_cons, ofHtml_append (htail c t rfl), at?]
  split
  · rename_i hbracket
    subst hbracket
    rw [hcomment t rest rfl]
    rfl
  · rfl

omit hlinks in
/-- The paragraph around the token of a fence has no signs. -/
lemma along_paragraph {blanks token more : Text} (hblanks : ∀ c ∈ blanks ++ more, Text.isBlank c = true)
    (htoken : IsToken table.nonce token) (rest : Text)
    (hlink : table.startsLink (token ++ (more ++ ("</p>".toList ++ rest))) = false) :
    along table.startsLink ("<p>".toList ++ blanks ++ (token ++ (more ++ ("</p>".toList ++ rest)))) =
      along table.startsLink rest := by
  have hnot : ∀ c, Text.isBlank c = true → c ≠ '<' ∧ c ≠ 'f' := by
    rintro c hc
    constructor
    · rintro rfl
      exact absurd hc (by decide)
    · rintro rfl
      exact absurd hc (by decide)
  have hopening : "<p>".toList = '<' :: "p>".toList ∧ ofTag? "p>".toList = none := by decide
  have hclosing : "</p>".toList = '<' :: "/p>".toList ∧ ofTag? "/p>".toList = none := by decide
  have hblank : ∀ c ∈ blanks, c ≠ '<' ∧ c ≠ 'f' := fun c hc => hnot c (hblanks c (List.mem_append_left _ hc))
  have hmore : ∀ c ∈ more, c ≠ '<' ∧ c ≠ 'f' := fun c hc => hnot c (hblanks c (List.mem_append_right _ hc))
  rw [List.append_assoc, hopening.1, along_tag (by simp) ⟨'>', by decide, by decide⟩, hopening.2,
    along_copied hblank, along_token hnonce htoken, hlink, along_copied hmore, hclosing.1,
    along_tag (by simp) ⟨'>', by decide, by decide⟩, hclosing.2]
  rfl

/-- What is found at a place has the signs of the HTML that it stands for. -/
lemma ofHtml_found {t : Text} {hit : Text.Hit Text} (hfind : findToken table.nonce [] t = some hit) :
    ∃ m rest, t = m ++ rest ∧ m ≠ [] ∧ hit.size = m.length ∧
      ∀ u, ofHtml u = along table.startsLink rest →
        ofHtml ((table.entries.lookup hit.value).getD hit.value ++ u) = along table.startsLink t := by
  rcases findToken_cases hfind with hcase | ⟨token, rfl, hcase | hcase⟩
  · obtain ⟨blanks, token, more, rest, hblanks, htoken, hsplit, rfl⟩ := paragraphAt?_eq hcase
    have hfour : "</p>".toList.length = 4 := rfl
    refine ⟨"<p>".toList ++ blanks ++ (token ++ more) ++ "</p>".toList, rest, ?_, by simp,
      (congrArg _ hfour.symm).trans List.length_append.symm, fun u hu => ?_⟩
    · rw [hsplit]
      simp only [List.append_assoc]
    · obtain ⟨hlike, -, hhead⟩ := blockTokenAt?_some htoken
      rw [lookup_blockToken hlinks htoken, Option.getD_none, ofHtml_token hnonce hlike, hu, hsplit,
        along_paragraph hnonce hblanks hlike rest (startsLink_of_bracket hhead)]
  · obtain ⟨hlike, ⟨rest, hsplit⟩, hhead⟩ := blockTokenAt?_some hcase
    refine ⟨token, rest, hsplit.symm, hlike.ne_nil, rfl, fun u hu => ?_⟩
    rw [lookup_blockToken hlinks hcase, Option.getD_none, ofHtml_token hnonce hlike, hu, ← hsplit,
      along_token hnonce hlike, hsplit, startsLink_of_bracket hhead]
    rfl
  · obtain ⟨hlike, rest, hsplit⟩ := inlineTokenAt?_some hcase
    refine ⟨token, rest, hsplit.symm, hlike.ne_nil, rfl, fun u hu => ?_⟩
    have hstarts : table.startsLink t = (table.entries.lookup token).isSome := by
      rw [startsLink, hcase]
      rfl
    rw [← hsplit, along_token hnonce hlike, hsplit, hstarts]
    dsimp only
    cases hlookup : table.entries.lookup token with
    | none => rw [Option.getD_none, ofHtml_token hnonce hlike, hu]; rfl
    | some html => rw [Option.getD_some, (hlinks token html hlookup).2.2, hu]; rfl

/-- The signs of a restored text are those of the text with tokens, a token standing for a link. -/
lemma ofHtml_substitute {write : Text → Text}
    (hwrite : ∀ token, write token = (table.entries.lookup token).getD token) (t : Text) :
    ofHtml (Text.substitute (findToken table.nonce) write t) = along table.startsLink t := by
  have hlocal := findToken_local table.nonce
  have hstrange : ∀ token, IsToken table.nonce token → Strange (write token) := by
    intro token htoken
    rw [hwrite]
    cases hlookup : table.entries.lookup token with
    | none => exact htoken.strange
    | some html => exact (hlinks token html hlookup).2.1
  induction hlength : t.length using Nat.strongRecOn generalizing t with
  | _ n ih =>
    cases t with
    | nil => rfl
    | cons c cs =>
      cases hfind : findToken table.nonce [] (c :: cs) with
      | none =>
        have hlink : table.startsLink (c :: cs) = false := by
          rw [← Bool.not_eq_true]
          intro hlink
          obtain ⟨token, -, htoken, -⟩ := startsLink_some hlink
          simp [findToken, htoken] at hfind
        rw [Text.substitute_none hlocal hfind, ofHtml_cons, ih cs.length (by simp [← hlength]) cs rfl, along, at?,
          at?, (agree_substitute hstrange cs).ofTag?, hlink]
      | some hit =>
        obtain ⟨m, rest, hsplit, hne, hsize, hsigns⟩ := ofHtml_found hnonce hlinks hfind
        have hshorter : rest.length < n := by
          have hpos := List.length_pos_iff.mpr hne
          rw [← hlength, hsplit, List.length_append]
          omega
        have hrest := hsigns _ (ih rest.length hshorter rest rfl)
        rw [hsplit] at hfind hrest ⊢
        rw [Text.substitute_hit hlocal hfind hsize hne, hwrite]
        exact hrest

/-- A restored page has the links of the page with tokens. -/
theorem ofHtml_restore (t : Text) : ofHtml (table.restore t) = along table.startsLink t := by
  unfold restore
  split
  · rename_i hempty
    have hnone : ∀ t, table.startsLink t = false := by
      intro t
      rw [← Bool.not_eq_true]
      intro hlink
      obtain ⟨token, html, -, hlookup⟩ := startsLink_some hlink
      rw [List.isEmpty_iff.mp hempty] at hlookup
      cases hlookup
    rw [funext hnone]
  · exact ofHtml_substitute hnonce hlinks (fun _ => rfl) t

end Restoring

section Bodies

/-- No raw fence is among the regions of a body. -/
def HasNoFence (body : Text) : Prop := ∀ r ∈ Text.findAll Region.find body, ∃ source, r = .code source

/-- Text masked for its links holds the characters of its source and those of tokens. -/
lemma Segments.LinksOnly.mem_masked {nonce before : Text} (hnonce : ∀ c ∈ nonce, c ∈ Digest.digits)
    {s : Segments} (h : s.LinksOnly before) (hnumbered : ∀ c ∈ s.constructs, c.Numbered nonce) {c : Char}
    (hc : c ∈ s.masked) : c ∈ s.source ∨ c ∈ letters := by
  induction s generalizing before with
  | last t => exact .inl hc
  | step t d rest ih =>
    cases d with
    | fence token source html => exact h.elim
    | link token l =>
      obtain ⟨n, rfl⟩ := hnumbered _ List.mem_cons_self
      simp only [Segments.masked, Segments.source, List.mem_append] at hc ⊢
      rcases hc with hc | hc | hc
      · exact .inl (.inl hc)
      · exact .inr (mem_letters_of_mem_inlineToken hnonce hc)
      · exact (ih h.2.2 (fun d hd => hnumbered d (List.mem_cons_of_mem _ hd)) hc).imp_left
          fun hc => .inr (.inr hc)

variable {body : Text} (hfence : HasNoFence body)
include hfence

lemma constructs_fenceCut : (fenceCut body).constructs = [] := by
  refine constructs_fenced_eq_nil.mpr fun source html hmem => ?_
  have hregion : Region.raw source html ∈ Text.findAll Region.find body := by
    rw [Text.findAll_eq]
    exact List.mem_filterMap.mpr ⟨_, hmem, rfl⟩
  obtain ⟨code, hcode⟩ := hfence _ hregion
  cases hcode

/-- Without fences only links are masked. -/
lemma source_linkCut : (linkCut body).source = body := by
  rw [linkCut, source_prose, Text.sourceOf_pieces Region.find_exact,
    Segments.masked_of_constructs (constructs_fenceCut hfence), fenceCut, source_fenced, Text.sourceOf_pieces Region.find_exact]

lemma holdsLinks_protect (hbracket : '<' ∉ body) : (protect body).2.HoldsLinks := by
  intro token html hlookup
  obtain ⟨front, back, hentries, -⟩ := List.lookup_eq_some_iff.mp hlookup
  have hmem : (token, html) ∈ (protect body).2.entries := by
    rw [hentries]
    exact List.mem_append_right _ List.mem_cons_self
  have hstored : (protect body).2.entries = (linkCut body).constructs.map Construct.entry := by
    rw [protect_eq, constructs_fenceCut hfence]
    rfl
  obtain ⟨c, hc, hentry⟩ := List.mem_map.mp (hstored ▸ hmem)
  obtain ⟨token', l, rfl⟩ := (linksOnly_linkCut body).link_of_mem hc
  obtain ⟨n, hn⟩ := numbered_of_mem body _ (List.mem_append_right _ hc)
  obtain ⟨rfl, rfl⟩ := Prod.mk.inj hentry
  obtain ⟨-, hin⟩ := Segments.exists_matches (linksOnly_linkCut body).matched hc
  have hblock : '<' ∉ l.block := by
    intro hmem
    refine hbracket (source_linkCut hfence ▸ hin.subset ?_)
    simp [Construct.source, Hypermedia.Link.source, hmem]
  exact ⟨⟨n, by rw [Markdown.nonce_protect]; exact hn⟩, strange_bracket _, l.ofHtml_html hblock⟩

/-- A masked body holds the characters of the body and those of tokens. -/
lemma mem_masked {c : Char} (h : c ∈ (protect body).1) : c ∈ body ∨ c ∈ letters := by
  have hcut := (linksOnly_linkCut body).mem_masked nonceOf_mem
    (fun c hc => numbered_of_mem body c (List.mem_append_right _ hc)) (c := c)
  rw [source_linkCut hfence] at hcut
  rw [protect_eq] at h
  exact hcut h

end Bodies

end RawTable

namespace Markdown
open CodeSign

variable {body : Text}

/-- The tag of a highlighted block has no sign, with a language or without. -/
lemma ofHtml_highlightTag (rest : Text) : ofHtml (Fence.highlightTag ++ rest) = ofHtml rest := by
  have hsign : ofTag? "div class=\"codehilite\">".toList = none := by decide
  have htag := ofHtml_tag (t := "div class=\"codehilite\">".toList) (by decide) ⟨' ', by decide, by decide⟩ rest
  rw [hsign] at htag
  exact htag

lemma ofHtml_labelTag (language rest : Text) : ofHtml (Fence.labelTag language ++ rest) = ofHtml rest := by
  obtain ⟨inner, hinner, hclean⟩ : ∃ inner, Fence.labelTag language = '<' :: ("div ".toList ++ inner) ∧ '<' ∉ inner := by
    refine ⟨"class=\"codehilite\" data-language=\"".toList ++ Text.escapeAttribute language ++ "\">".toList, rfl, ?_⟩
    simp [Text.bracket_not_mem_escapeAttribute]
  have hsign : ofTag? ("div ".toList ++ inner) = none := by
    rw [ofTag?_append ⟨' ', by decide, by decide⟩]
    decide
  rw [hinner, ofHtml_tag, hsign]
  · rfl
  · simp [hclean]
  · exact ⟨' ', by simp, by decide⟩

/-- What is done to a page once links are back keeps its signs. -/
lemma ofHtml_late (source html : Text) :
    ofHtml (Fence.labelLanguages (Text.strip (Text.replace Mark.ampersand ['&'] html)) source) =
      ofHtml html := by
  have hlabel : ∀ t, ofHtml (Fence.labelLanguages t source) = ofHtml t := by
    intro t
    unfold Fence.labelLanguages
    split
    · rfl
    · refine ofHtml_rewritten (strange_bracket _) ?_ [] ofHtml_highlightTag ?_
        (Fence.rewritten_labelFrom _ t)
      · rintro _ ⟨language, -, rfl⟩
        exact strange_bracket _
      · rintro _ ⟨language, -, rfl⟩
        exact ofHtml_labelTag language
  have hamp : ofHtml (Text.replace Mark.ampersand ['&'] html) = ofHtml html := by
    refine ofHtml_rewritten (strange_cons (by decide) _) ?_ [] (fun rest => ofHtml_append (by decide) rest) ?_
      (Text.rewritten_replace (by decide) html)
    · rintro _ rfl
      exact strange_cons (by decide) _
    · rintro _ rfl rest
      exact ofHtml_append (by decide) rest
  rw [hlabel, ofHtml_strip, hamp]

lemma bracket_not_mem_normalized (h : '<' ∉ body) : '<' ∉ normalized body := by
  intro hmem
  rcases Source.mem_normalize hmem with hmem | hmem | hmem
  · exact (Fence.mem_of_mem_normalize hmem).elim h (by decide)
  · cases hmem
  · cases hmem

/-- A compiled body without raw fences and without angle brackets has the links of the page with tokens,
as deep in code as their tokens are. -/
lemma ofHtml_compile {body : Text} (hfence : RawTable.HasNoFence (normalized body)) (hbracket : '<' ∉ body) :
    ofHtml (compile body) = if Text.isBlankText (Fence.normalize body) then [] else
      along (Draft.ofSource (Fence.normalize body)).table.startsLink
        (Draft.ofSource (Fence.normalize body)).page := by
  have hclean := bracket_not_mem_normalized hbracket
  have htable := table_ofSource body
  rw [compile]
  split
  · rfl
  · rw [Draft.html, ofHtml_late, RawTable.ofHtml_restore]
    · rw [htable, nonce_protect]
      exact RawTable.nonceOf_mem
    · rw [htable]
      exact RawTable.holdsLinks_protect hfence hclean

end Markdown
end Sitewright
