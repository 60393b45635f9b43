import Sitewright.Proofs.CodeTree
import Sitewright.Proofs.InlineMark
import Sitewright.Proofs.Scan

/-!
Inline markup of texts without angle brackets. The elements that come of it are links, images, line
breaks, emphasis and code, and the only HTML kept are character references.
-/
namespace Sitewright.Markdown
open CodeSign

section Tidy

variable {e : Element}

lemma Throughout.with_tail (h : Throughout IsTidy e) {tail : Text} (ht : '<' ∉ tail) :
    Throughout IsTidy { e with tail } :=
  .mk ⟨⟨h.self.names, h.self.text, ht⟩, h.self.kind⟩ h.children

lemma tidy_named (tag : String) (htag : isPlainTag tag.toList = true) {attributes : List (Text × Text)}
    (hnames : ∀ a ∈ attributes, '<' ∉ a.1) {text : Text} (htext : '<' ∉ text) {children : List Element}
    (hchildren : ∀ c ∈ children, Throughout IsTidy c) :
    Throughout IsTidy { Element.named tag with attributes, text, children } :=
  .mk ⟨⟨hnames, htext, by simp [Element.named]⟩, .inl htag⟩ hchildren

end Tidy

/-- Is a piece of content without brackets? -/
def TidyPiece : Text.Piece Element → Prop
  | .plain t => '<' ∉ t
  | .found e => Throughout IsTidy e

namespace Emphasis

lemma tidy_assemble {ps : List (Text.Piece Element)} (h : ∀ p ∈ ps, TidyPiece p) :
    '<' ∉ (assemble ps).1 ∧ ∀ e ∈ (assemble ps).2, Throughout IsTidy e := by
  induction ps with
  | nil => exact ⟨by simp [assemble], by simp [assemble]⟩
  | cons p ps ih =>
    obtain ⟨hp, hps⟩ := List.forall_mem_cons.mp h
    obtain ⟨hlead, helements⟩ := ih hps
    cases p with
    | plain t =>
      have ht : '<' ∉ t := hp
      exact ⟨by simp [assemble, ht, hlead], helements⟩
    | found e =>
      have he : Throughout IsTidy e := hp
      refine ⟨by simp [assemble], List.forall_mem_cons.mpr ⟨he.with_tail ?_, helements⟩⟩
      simp [he.self.tail, hlead]

/-- Content without brackets. -/
def TidyContent (content : Content) : Prop :=
  ∀ p ∈ content, TidyPiece (match p with | .plain t => .plain t | .found s => .found s.element)

/-- The content of all that is in progress. -/
structure TidyProgress (p : Progress) : Prop where
  base : TidyContent p.base
  frames : ∀ f ∈ p.frames, TidyContent f.content

section Progress

variable {p : Progress} {content : Content}

lemma tidyContent_plain {t : Text} (h : '<' ∉ t) : TidyContent [.plain t] :=
  List.forall_mem_singleton.mpr h

lemma TidyProgress.append (h : TidyProgress p) (hcontent : TidyContent content) : TidyProgress (p.append content) := by
  unfold Progress.append
  split
  · exact ⟨List.forall_mem_append.mpr ⟨hcontent, h.base⟩, h.frames⟩
  · rename_i f fs hframes
    have hf := h.frames
    rw [hframes] at hf
    obtain ⟨hfirst, hrest⟩ := List.forall_mem_cons.mp hf
    exact ⟨h.base, List.forall_mem_cons.mpr ⟨List.forall_mem_append.mpr ⟨hcontent, hfirst⟩, hrest⟩⟩

lemma TidyProgress.push (h : TidyProgress p) {piece : Text.Piece Span} (hpiece : TidyContent [piece]) :
    TidyProgress (p.push piece) := by
  have hsame : p.push piece = p.append [piece] := by
    unfold Progress.push Progress.append
    split <;> rfl
  rw [hsame]
  exact h.append hpiece

lemma TidyProgress.open (h : TidyProgress p) (hcontent : TidyContent content) (run : Run) (left : ℕ) :
    TidyProgress { p with frames := ⟨run, left, content⟩ :: p.frames } :=
  ⟨h.base, List.forall_mem_cons.mpr ⟨hcontent, h.frames⟩⟩

lemma TidyProgress.below (h : TidyProgress p) {f : Frame} {fs : List Frame} (hframes : p.frames = f :: fs) :
    TidyContent f.content ∧ TidyProgress { p with frames := fs } := by
  have hall := h.frames
  rw [hframes] at hall
  obtain ⟨hfirst, hrest⟩ := List.forall_mem_cons.mp hall
  exact ⟨hfirst, h.base, hrest⟩

lemma tidyContent_fill (kind : Kind) (n : ℕ) : TidyContent [.plain (Text.fill n kind.char)] := by
  refine tidyContent_plain fun hmem => ?_
  have hchar : kind.char ≠ '<' := by cases kind <;> decide
  exact hchar (List.eq_of_mem_replicate hmem).symm

lemma TidyProgress.flatten (h : TidyProgress p) (kind : Kind) (n : ℕ) : TidyProgress (p.flatten kind n) := by
  induction n generalizing p with
  | zero => exact h
  | succ n ih =>
    unfold Progress.flatten
    split
    · exact h
    · rename_i f fs hframes
      obtain ⟨hcontent, hbelow⟩ := h.below hframes
      exact ih (hbelow.append (List.forall_mem_append.mpr ⟨hcontent, tidyContent_fill kind f.left⟩))

lemma tidyContent_wrap (delimiters : ℕ) (h : TidyContent content) : TidyContent [.found (wrap delimiters content)] := by
  have hpieces : ∀ p ∈ content.reverse.map fun
      | .plain t => Text.Piece.plain t
      | .found s => .found s.element, TidyPiece p := by
    intro p hp
    obtain ⟨piece, hpiece, rfl⟩ := List.mem_map.mp hp
    exact h piece (List.mem_reverse.mp hpiece)
  obtain ⟨htext, hchildren⟩ := tidy_assemble hpieces
  refine List.forall_mem_singleton.mpr (tidy_named _ ?_ (by simp [Element.named]) htext hchildren)
  split <;> decide

lemma TidyProgress.close (h : TidyProgress p) (kind : Kind) (run : Run) (fuel left : ℕ) :
    TidyProgress (close kind run fuel left p) := by
  induction fuel generalizing p left with
  | zero => exact h
  | succ fuel ih =>
    unfold Emphasis.close
    split
    · exact h
    split
    · split
      · exact h.open (by simp [TidyContent]) run left
      · exact h.push (tidyContent_fill kind left)
    · rename_i n _
      have hflat := h.flatten kind n
      dsimp only
      split
      · exact hflat
      · rename_i f fs hframes
        obtain ⟨hcontent, hbelow⟩ := hflat.below hframes
        refine ih ?_ _
        split
        · exact hbelow.push (tidyContent_wrap _ hcontent)
        · exact hbelow.open (tidyContent_wrap _ hcontent) f.run _

end Progress

lemma bracket_not_mem_cut (kind : Kind) (fuel : ℕ) (previous : Option Char) {t : Text} (ht : '<' ∉ t) :
    ∀ u, .plain u ∈ cut kind fuel previous t → '<' ∉ u := by
  induction fuel generalizing previous t with
  | zero =>
    intro u hu
    cases hu
  | succ fuel ih =>
    intro u hu
    cases t with
    | nil => cases hu
    | cons c cs =>
      have hcs := List.not_mem_of_not_mem_cons ht
      unfold cut at hu
      split at hu
      · rcases List.mem_cons.mp hu with hu | hu
        · cases hu
        · exact ih _ (fun hmem => hcs (List.mem_of_mem_drop hmem)) u hu
      · rcases List.mem_cons.mp hu with hu | hu
        · obtain rfl := Text.Piece.plain.inj hu
          simpa using (List.ne_of_not_mem_cons ht)
        · exact ih _ hcs u hu

lemma TidyProgress.step {p : Progress} (h : TidyProgress p) (kind : Kind) {piece : Text.Piece Run}
    (hpiece : ∀ u, piece = .plain u → '<' ∉ u) : TidyProgress (step kind p piece) := by
  unfold Emphasis.step
  split
  · exact h.push (tidyContent_plain (hpiece _ rfl))
  · split
    · exact h.close kind _ _ _
    · split
      · exact h.open (by simp [TidyContent]) _ _
      · exact h.push (tidyContent_fill kind _)

lemma TidyProgress.steps {p : Progress} (h : TidyProgress p) (kind : Kind) {ps : List (Text.Piece Run)}
    (hps : ∀ u, .plain u ∈ ps → '<' ∉ u) : TidyProgress (ps.foldl (Emphasis.step kind) p) := by
  induction ps generalizing p with
  | nil => exact h
  | cons piece ps ih =>
    refine ih (h.step kind ?_) fun u hu => hps u (List.mem_cons_of_mem _ hu)
    rintro u rfl
    exact hps u List.mem_cons_self

lemma tidyContent_read (kind : Kind) {t : Text} (ht : '<' ∉ t) : TidyContent (read kind t) := by
  have hstart : TidyProgress {} := ⟨by simp [TidyContent], by simp⟩
  have hdone := ((hstart.steps kind (bracket_not_mem_cut kind (t.length + 1) none ht)).flatten kind
    ((cut kind (t.length + 1) none t).foldl (Emphasis.step kind) {}).frames.length).base
  exact fun piece hpiece => hdone piece (List.mem_reverse.mp hpiece)

lemma tidy_spanAt? {content : Content} (hcontent : TidyContent content) {position : ℕ} {s : Span}
    (h : spanAt? position content = some s) : Throughout IsTidy s.element := by
  induction content generalizing position with
  | nil => cases h
  | cons piece content ih =>
    obtain ⟨hpiece, hrest⟩ := List.forall_mem_cons.mp hcontent
    cases piece with
    | plain t =>
      unfold spanAt? at h
      split at h
      · cases h
      · exact ih hrest h
    | found span =>
      unfold spanAt? at h
      split at h
      · obtain rfl := Option.some.inj h
        exact hpiece
      · split at h
        · cases h
        · exact ih hrest h

/-- Emphasis in a text without brackets holds none. -/
lemma tidy_at? {kind : Kind} {before after : Text} (hbefore : '<' ∉ before) (hafter : '<' ∉ after) {s : Span}
    (h : at? kind before after = some s) : Throughout IsTidy s.element := by
  unfold at? at h
  split at h
  · exact tidy_spanAt? (tidyContent_read kind (by simp [hbefore, hafter])) h
  · cases h

end Emphasis

namespace Inline

/-- Is something put aside that holds no bracket? -/
def TidyNode : Node → Prop
  | .element e => Throughout IsTidy e
  | .text t => '<' ∉ t

/-- What is found without brackets: a node, or a character reference to be kept. -/
def TidyFound : Found → Prop
  | .node n => TidyNode n
  | .html source => source.head? = some '&' ∧ '<' ∉ source ∧ Mark.opening ∉ source
  | .pass => True

/-- Markup of this kind brings no bracket into a text that has none. -/
def TidyKind (kind : Kind) : Prop := ∀ references stash before after hit, '<' ∉ before → '<' ∉ after →
  kind references stash before after = some hit → TidyFound hit.value

section Kinds

lemma bracket_not_mem_escaped (c : Char) : '<' ∉ Mark.escaped c := by
  have hframe : '<' ≠ Mark.opening ∧ '<' ≠ Mark.closing := by decide
  simp only [Mark.escaped, List.cons_append, List.mem_cons, List.mem_append, not_or]
  exact ⟨hframe.1, fun hmem => absurd (Text.isDigit_of_mem_ofNat hmem) (by decide), by simpa using hframe.2⟩

lemma tidy_code : TidyKind code := by
  intro references stash before after hit _ _ h
  unfold code at h
  split at h
  · cases h
  · dsimp only at h
    split at h
    · split at h
      · obtain rfl := Option.some.inj h
        intro hmem
        obtain ⟨t, ht, hmem⟩ := List.mem_flatten.mp hmem
        rw [List.eq_of_mem_replicate ht] at hmem
        exact bracket_not_mem_escaped _ hmem
      · cases h
    · obtain ⟨⟨n, text⟩, -, rfl⟩ := Option.map_eq_some_iff.mp h
      exact .mk ⟨⟨by simp [Element.named], Text.bracket_not_mem_escapeText _, by simp [Element.named]⟩,
        .inr ⟨rfl, rfl⟩⟩ (by simp [Element.named])

lemma tidy_escaped : TidyKind escaped := by
  intro references stash before after hit _ _ h
  unfold escaped at h
  split at h
  · obtain rfl := Option.some.inj h
    dsimp only
    split
    · exact bracket_not_mem_escaped _
    · trivial
  · cases h

lemma bracketed?_subset {depth : ℕ} {t text rest : Text} (h : Link.bracketed? depth t = some (text, rest)) :
    text ⊆ t := by
  induction t generalizing depth text with
  | nil => cases h
  | cons c cs ih =>
    unfold Link.bracketed? at h
    extract_lets inner at h
    split at h
    · obtain ⟨rfl, -⟩ := Prod.mk.inj (Option.some.inj h)
      exact List.nil_subset _
    · obtain ⟨⟨text', rest'⟩, hrest, heq⟩ := Option.map_eq_some_iff.mp h
      obtain ⟨rfl, rfl⟩ := Prod.mk.inj heq
      exact List.cons_subset_cons c (ih hrest)

lemma linkStart?_suffix {image : Bool} {before after rest : Text} (h : linkStart? image before after = some rest) :
    rest <:+ after := by
  unfold linkStart? at h
  split at h
  · rw [List.isPrefixOf?_eq_some_iff_append_eq] at h
    exact ⟨_, h⟩
  · split at h
    · cases h
    · rw [List.isPrefixOf?_eq_some_iff_append_eq] at h
      exact ⟨_, h⟩

lemma tidy_linkElement (image : Bool) (stash : Stash) (url : Text) (title : Option Text) {text : Text}
    (h : '<' ∉ text) : Throughout IsTidy (linkElement image stash url title text) := by
  have hnames : ∀ name ∈ ["alt", "src", "href", "title"], '<' ∉ name.toList := by decide
  have htitle : ∀ a ∈ title.toList.map fun t => ("title".toList, t), '<' ∉ a.1 := by
    intro a ha
    obtain ⟨t, -, rfl⟩ := List.mem_map.mp ha
    exact hnames "title" (by simp)
  unfold linkElement
  dsimp only
  split
  · refine tidy_named "img" (by decide) ?_ (by simp [Element.named]) (by simp [Element.named])
    exact List.forall_mem_cons.mpr ⟨hnames "alt" (by simp), List.forall_mem_cons.mpr ⟨hnames "src" (by simp), htitle⟩⟩
  · refine tidy_named "a" (by decide) ?_ h (by simp [Element.named])
    exact List.forall_mem_cons.mpr ⟨hnames "href" (by simp), htitle⟩

lemma tidy_targeted (image : Bool) : TidyKind (targeted image) := by
  intro references stash before after hit _ hafter h
  obtain ⟨rest, hstart, h⟩ := Option.bind_eq_some_iff.mp h
  obtain ⟨⟨text, rest'⟩, hbracketed, h⟩ := Option.bind_eq_some_iff.mp h
  obtain ⟨target, -, rfl⟩ := Option.map_eq_some_iff.mp h
  exact tidy_linkElement _ _ _ _ fun hmem =>
    hafter ((linkStart?_suffix hstart).subset (bracketed?_subset hbracketed hmem))

lemma tidy_referenced (image short : Bool) : TidyKind (referenced image short) := by
  intro references stash before after hit _ hafter h
  obtain ⟨rest, hstart, h⟩ := Option.bind_eq_some_iff.mp h
  obtain ⟨⟨text, rest'⟩, hbracketed, h⟩ := Option.bind_eq_some_iff.mp h
  obtain ⟨⟨name, rest''⟩, -, rfl⟩ := Option.map_eq_some_iff.mp h
  dsimp only
  split
  · trivial
  · exact tidy_linkElement _ _ _ _ fun hmem =>
      hafter ((linkStart?_suffix hstart).subset (bracketed?_subset hbracketed hmem))

lemma angled?_of_clean {t : Text} (h : '<' ∉ t) : angled? t = none := by
  unfold angled?
  split
  · exact absurd List.mem_cons_self h
  · rfl

lemma tidy_autolink : TidyKind autolink := by
  intro references stash before after hit _ hafter h
  rw [autolink, angled?_of_clean hafter] at h
  cases h

lemma tidy_mailLink : TidyKind mailLink := by
  intro references stash before after hit _ hafter h
  rw [mailLink, angled?_of_clean hafter] at h
  cases h

lemma tidy_lineBreak : TidyKind lineBreak := by
  intro references stash before after hit _ _ h
  unfold lineBreak at h
  split at h
  · obtain rfl := Option.some.inj h
    exact tidy_named "br" (by decide) (by simp) (by simp) (by simp)
  · cases h

lemma tidy_html : TidyKind html := by
  intro references stash before after hit _ hafter h
  unfold html at h
  split at h
  · rename_i hhead
    exact absurd (List.mem_of_mem_head? hhead) hafter
  · cases h

lemma tidy_entity : TidyKind entity := by
  intro references stash before after hit _ hafter h
  unfold entity at h
  split at h
  · rename_i rest
    extract_lets body closed isName at h
    split at h
    · rename_i hname
      obtain rfl := Option.some.inj h
      have hbracket : '<' ∉ body := fun hmem =>
        List.not_mem_of_not_mem_cons hafter ((List.takeWhile_prefix _).subset hmem)
      clear_value body
      have hmark : Mark.opening ∉ body := by
        have hall : ∀ p : Char → Bool, p Mark.opening = false → ∀ t : Text, t.all p = true → Mark.opening ∉ t :=
          fun p hp t ht hmem => by rw [List.all_eq_true.mp ht _ hmem] at hp; cases hp
        have hframe : Mark.opening ≠ '#' ∧ Mark.opening ≠ 'x' := by decide
        have his : isName = true := (Bool.and_eq_true_iff.mp hname).2
        unfold isName at his
        split at his
        · have hds := hall isHexDigit (by decide) _ (Bool.and_eq_true_iff.mp his).2
          simp [hframe, hds]
        · have hds := hall Char.isDigit (by decide) _ (Bool.and_eq_true_iff.mp his).2
          simp [hframe, hds]
        · cases his
        · exact hall Char.isAlphanum (by decide) _ his
      have hframe : Mark.opening ≠ '&' ∧ Mark.opening ≠ ';' := by decide
      exact ⟨rfl, by simp [hbracket], by simp [hmark, hframe]⟩
    · cases h
  · cases h

lemma tidy_loneDelimiters : TidyKind loneDelimiters := by
  intro references stash before after hit _ hafter h
  unfold loneDelimiters at h
  split at h
  · dsimp only at h
    split at h
    · obtain rfl := Option.some.inj h
      exact fun hmem => hafter ((List.takeWhile_prefix _).subset hmem)
    · cases h
  · cases h

lemma tidy_emphasis (kind : Emphasis.Kind) : TidyKind (emphasis kind) := by
  intro references stash before after hit hbefore hafter h
  obtain ⟨s, hs, rfl⟩ := Option.map_eq_some_iff.mp h
  exact Emphasis.tidy_at? hbefore hafter hs

lemma tidy_kinds : ∀ kind ∈ kinds, TidyKind kind := by
  simp only [kinds, List.forall_mem_cons, List.not_mem_nil, false_imp_iff, implies_true, and_true]
  exact ⟨tidy_code, tidy_escaped, tidy_referenced _ _, tidy_targeted _, tidy_targeted _,
    tidy_referenced _ _, tidy_referenced _ _, tidy_referenced _ _, tidy_autolink, tidy_mailLink,
    tidy_lineBreak, tidy_html, tidy_entity, tidy_loneDelimiters, tidy_emphasis _, tidy_emphasis _⟩

end Kinds

/-- Everything put aside is without brackets, and what is kept may come back anywhere. -/
structure TidyStash (words : Text → Prop) (stash : Stash) : Prop where
  nodes : ∀ n ∈ stash.nodes, TidyNode n
  kept : ∀ html ∈ stash.kept, Kept.Harmless words html

section Handling

variable {words : Text → Prop} {stash : Stash}

lemma TidyStash.add (h : TidyStash words stash) {n : Node} (hn : TidyNode n) : TidyStash words (stash.add n).2 :=
  ⟨List.forall_mem_append.mpr ⟨h.nodes, List.forall_mem_singleton.mpr hn⟩, h.kept⟩

/-- A character reference may be kept. -/
lemma TidyStash.keep (h : TidyStash words stash) {html : Text} (hhead : html.head? = some '&') (hbracket : '<' ∉ html)
    (hmark : Mark.opening ∉ html) : TidyStash words (stash.keep html).2 := by
  refine ⟨h.nodes, List.forall_mem_append.mpr ⟨h.kept, List.forall_mem_singleton.mpr ⟨hmark, ?_, ?_⟩⟩⟩
  · obtain ⟨t, rfl⟩ := List.head?_eq_some_iff.mp hhead
    exact strange_cons (by decide) t
  · exact fun t ht => ht.append_text hbracket

lemma bracket_not_mem_node (n : ℕ) : '<' ∉ Mark.node n := by
  have hframe : '<' ≠ Mark.opening ∧ '<' ≠ 'n' ∧ '<' ≠ Mark.closing := by decide
  simp only [Mark.node, List.cons_append, List.mem_cons, List.mem_append, not_or]
  exact ⟨hframe.1, hframe.2.1, fun hmem => absurd (Text.isDigit_of_mem_ofNat hmem) (by decide),
    by simpa using hframe.2.2⟩

lemma replaceMarks_of_not_mem (write : ℕ → Text) {t : Text} (h : Mark.opening ∉ t) :
    Stash.replaceMarks write 0 t = t := by
  induction t with
  | nil => rfl
  | cons c cs ih =>
    rw [Stash.replaceMarks, node?_of_ne cs (List.ne_of_not_mem_cons h).symm, ih (List.not_mem_of_not_mem_cons h)]

lemma asWritten_of_not_mem (stash : Stash) (fuel : ℕ) {t : Text} (h : Mark.opening ∉ t) :
    stash.asWritten fuel t = t := by
  cases fuel with
  | zero => rw [Stash.asWritten]
  | succ fuel => rw [Stash.asWritten, replaceMarks_of_not_mem _ h]

/-- What is sought in a text is found at a place of the text. -/
lemma seek_some {find : Text.Finder Found} {skip : ℕ} {before t b after : Text} {hit : Text.Hit Found}
    (h : seek find skip before t = some (b, hit, after)) :
    b.reverse ++ after = before.reverse ++ t ∧ find b after = some hit := by
  induction t generalizing skip before with
  | nil => cases h
  | cons c cs ih =>
    have hnext : ∀ {skip}, seek find skip (c :: before) cs = some (b, hit, after) →
        b.reverse ++ after = before.reverse ++ c :: cs ∧ find b after = some hit := fun h => by
      simpa using ih h
    unfold seek at h
    split at h
    · exact hnext h
    · split at h
      · exact hnext h
      · rename_i found _ hfind
        obtain ⟨rfl, rfl, rfl⟩ : before = b ∧ found = hit ∧ c :: cs = after := by simpa using h
        exact ⟨rfl, hfind⟩
      · exact hnext h

variable (references : References)

/-- Markup put aside leaves no bracket in a text, nor in an element. -/
structure TidyHandling (words : Text → Prop) (fuel : ℕ) : Prop where
  text : ∀ ks stash t, (∀ k ∈ ks, TidyKind k) → TidyStash words stash → '<' ∉ t →
    '<' ∉ (handle references fuel ks stash t).1 ∧ TidyStash words (handle references fuel ks stash t).2
  element : ∀ k ks stash e, (∀ k' ∈ k :: ks, TidyKind k') → TidyStash words stash → Throughout IsTidy e →
    Throughout IsTidy (handleElement references fuel k ks stash e).1 ∧
      TidyStash words (handleElement references fuel k ks stash e).2
  children : ∀ k ks stash es, (∀ k' ∈ k :: ks, TidyKind k') → TidyStash words stash →
    (∀ e ∈ es, Throughout IsTidy e) →
    (∀ e ∈ (handleChildren references fuel k ks stash es).1, Throughout IsTidy e) ∧
      TidyStash words (handleChildren references fuel k ks stash es).2

section Step

variable {fuel : ℕ} (ih : TidyHandling references words fuel)
include ih

lemma TidyHandling.text_succ (ks : List Kind) {stash : Stash} {t : Text} (hks : ∀ k ∈ ks, TidyKind k)
    (hstash : TidyStash words stash) (ht : '<' ∉ t) :
    '<' ∉ (handle references (fuel + 1) ks stash t).1 ∧
      TidyStash words (handle references (fuel + 1) ks stash t).2 := by
  cases ks with
  | nil =>
    rw [handle]
    · exact ⟨ht, hstash⟩
    · simp
  | cons k ks =>
    obtain ⟨hk, hrest⟩ := List.forall_mem_cons.mp hks
    rw [handle]
    split
    · exact ih.text _ _ _ hrest hstash ht
    · rename_i before found size after hseek
      obtain ⟨hsplit, hfind⟩ := seek_some hseek
      have hwhole : '<' ∉ before.reverse ++ after := by rwa [hsplit]
      obtain ⟨hbefore, hafter⟩ : '<' ∉ before ∧ '<' ∉ after := by simpa using hwhole
      have hfound := hk references stash before after _ hbefore hafter hfind
      have hagain : ∀ {stash : Stash} {n : ℕ}, TidyStash words stash →
          '<' ∉ (handle references fuel (k :: ks) stash (before.reverse ++ Mark.node n ++ after.drop size)).1 ∧
            TidyStash words
              (handle references fuel (k :: ks) stash (before.reverse ++ Mark.node n ++ after.drop size)).2 := by
        intro stash n hstash
        refine ih.text (k :: ks) stash _ hks hstash ?_
        have hdrop : '<' ∉ after.drop size := fun hmem => hafter (List.mem_of_mem_drop hmem)
        simp [hbefore, bracket_not_mem_node, hdrop]
      rcases found with ⟨e | t⟩ | source | _
      · have he : Throughout IsTidy e := hfound
        obtain ⟨helement, hnext⟩ := ih.element k ks stash e hks hstash he
        exact hagain (hnext.add helement)
      · exact hagain (hstash.add hfound)
      · obtain ⟨hhead, hbracket, hmark⟩ := hfound
        have hwritten : Mark.unescape (stash.asWritten (stash.nodes.length + 1) source) = source := by
          rw [asWritten_of_not_mem stash _ hmark, Mark.unescape_of_not_mem hmark]
        dsimp only
        rw [hwritten]
        refine hagain ((hstash.keep hhead hbracket hmark).add ?_)
        exact fun hmem => (Mark.isPart_of_mem hmem).ne (by decide) rfl
      · refine hagain (hstash.add ?_)
        simp [TidyNode]

variable (k : Kind) {ks : List Kind} {stash : Stash} (hks : ∀ k' ∈ k :: ks, TidyKind k')
  (hstash : TidyStash words stash)
include hks hstash

lemma TidyHandling.element_succ {e : Element} (he : Throughout IsTidy e) :
    Throughout IsTidy (handleElement references (fuel + 1) k ks stash e).1 ∧
      TidyStash words (handleElement references (fuel + 1) k ks stash e).2 := by
  rw [handleElement]
  split
  · exact ⟨he, hstash⟩
  · obtain ⟨htext, hnext⟩ := ih.text ks stash e.text (List.forall_mem_cons.mp hks).2 hstash he.self.text
    obtain ⟨hchildren, hlast⟩ := ih.children k ks _ e.children hks hnext he.children
    exact ⟨.mk ⟨⟨he.self.names, htext, he.self.tail⟩, he.self.kind⟩ hchildren, hlast⟩

lemma TidyHandling.children_succ {es : List Element} (hes : ∀ e ∈ es, Throughout IsTidy e) :
    (∀ e ∈ (handleChildren references (fuel + 1) k ks stash es).1, Throughout IsTidy e) ∧
      TidyStash words (handleChildren references (fuel + 1) k ks stash es).2 := by
  cases es with
  | nil =>
    rw [handleChildren]
    · exact ⟨by simp, hstash⟩
    · simp
  | cons e es =>
    obtain ⟨he, hrest⟩ := List.forall_mem_cons.mp hes
    obtain ⟨htext, hfirst⟩ := ih.text ks stash e.text (List.forall_mem_cons.mp hks).2 hstash he.self.text
    obtain ⟨htail, hsecond⟩ := ih.text (k :: ks) _ e.tail hks hfirst he.self.tail
    obtain ⟨hes, hlast⟩ := ih.children k ks _ es hks hsecond hrest
    rw [handleChildren]
    exact ⟨List.forall_mem_cons.mpr ⟨.mk ⟨⟨he.self.names, htext, htail⟩, he.self.kind⟩ he.children, hes⟩, hlast⟩

end Step

lemma tidyHandling (fuel : ℕ) : TidyHandling references words fuel := by
  induction fuel with
  | zero =>
    constructor
    case text =>
      intro ks stash t _ hstash ht
      rw [handle]
      exact ⟨ht, hstash⟩
    case element =>
      intro k ks stash e _ hstash he
      rw [handleElement]
      exact ⟨he, hstash⟩
    case children =>
      intro k ks stash es _ hstash hes
      rw [handleChildren]
      exact ⟨hes, hstash⟩
  | succ fuel ih =>
    exact ⟨fun ks _ _ hks hstash ht => ih.text_succ _ ks hks hstash ht,
      fun k _ _ _ hks hstash he => ih.element_succ _ k hks hstash he,
      fun k _ _ _ hks hstash hes => ih.children_succ _ k hks hstash hes⟩

end Handling

section Resolving

variable {nodes : List Node} (hnodes : ∀ n ∈ nodes, TidyNode n)
include hnodes

lemma tidy_parts (skip : ℕ) {t : Text} (ht : '<' ∉ t) : ∀ p ∈ parts nodes skip t, TidyPiece p := by
  induction t generalizing skip with
  | nil =>
    intro p hp
    cases skip <;> cases hp
  | cons c cs ih =>
    have hcs := List.not_mem_of_not_mem_cons ht
    cases skip with
    | succ skip => exact ih skip hcs
    | zero =>
      unfold parts
      split
      · refine List.forall_mem_cons.mpr ⟨?_, ih _ hcs⟩
        split
        · rename_i e hnode
          exact hnodes _ (List.mem_of_getElem? hnode)
        · rename_i t hnode
          exact hnodes _ (List.mem_of_getElem? hnode)
        · simp [TidyPiece]
      · refine List.forall_mem_cons.mpr ⟨?_, ih 0 hcs⟩
        have hc : '<' ≠ c := List.ne_of_not_mem_cons ht
        simpa [TidyPiece] using hc

/-- Marks resolved in a text bring no bracket into it. -/
structure TidyResolving (nodes : List Node) (fuel : ℕ) : Prop where
  text : ∀ t, '<' ∉ t → '<' ∉ (resolve nodes fuel t).1 ∧ ∀ e ∈ (resolve nodes fuel t).2, Throughout IsTidy e
  each : ∀ es, (∀ e ∈ es, Throughout IsTidy e) → ∀ e ∈ resolveEach nodes fuel es, Throughout IsTidy e
  children : ∀ es, (∀ e ∈ es, Throughout IsTidy e) → ∀ e ∈ resolveChildren nodes fuel es, Throughout IsTidy e

lemma tidyResolving (fuel : ℕ) : TidyResolving nodes fuel := by
  induction fuel with
  | zero =>
    constructor
    case text =>
      intro t ht
      rw [resolve]
      exact ⟨ht, by simp⟩
    case each =>
      intro es hes
      rwa [resolveEach]
    case children =>
      intro es hes
      rwa [resolveChildren]
  | succ fuel ih =>
    constructor
    case text =>
      intro t ht
      obtain ⟨hlead, helements⟩ := Emphasis.tidy_assemble (tidy_parts hnodes 0 ht)
      rw [resolve]
      exact ⟨hlead, ih.each _ helements⟩
    case each =>
      intro es hes
      cases es with
      | nil =>
        rw [resolveEach]
        · exact hes
        · simp
      | cons e es =>
        obtain ⟨he, hrest⟩ := List.forall_mem_cons.mp hes
        obtain ⟨htext, hfound⟩ := ih.text e.text he.self.text
        rw [resolveEach]
        refine List.forall_mem_cons.mpr ⟨.mk ⟨⟨he.self.names, htext, he.self.tail⟩, he.self.kind⟩ ?_, ih.each es hrest⟩
        exact List.forall_mem_append.mpr ⟨hfound, ih.children _ he.children⟩
    case children =>
      intro es hes
      cases es with
      | nil =>
        rw [resolveChildren]
        · exact hes
        · simp
      | cons e es =>
        obtain ⟨he, hrest⟩ := List.forall_mem_cons.mp hes
        obtain ⟨htext, hfound⟩ := ih.text e.text he.self.text
        obtain ⟨htail, hbehind⟩ := ih.text e.tail he.self.tail
        rw [resolveChildren]
        refine List.forall_mem_cons.mpr ⟨.mk ⟨⟨he.self.names, htext, htail⟩, he.self.kind⟩ ?_, ?_⟩
        · exact List.forall_mem_append.mpr ⟨hfound, he.children⟩
        · exact List.forall_mem_append.mpr ⟨hbehind, ih.children es hrest⟩

end Resolving

section Reading

variable {words : Text → Prop} (references : References) {stash : Stash}

lemma tidy_inlined (hstash : TidyStash words stash) {t : Text} (ht : '<' ∉ t) :
    '<' ∉ (inlined references stash t).1.1 ∧ (∀ e ∈ (inlined references stash t).1.2, Throughout IsTidy e) ∧
      TidyStash words (inlined references stash t).2 := by
  have hmarkup : '<' ∉ (markup references stash t).1 ∧ TidyStash words (markup references stash t).2 :=
    (tidyHandling references _).text kinds stash t tidy_kinds hstash ht
  unfold inlined
  generalize markup references stash t = marked at hmarkup ⊢
  obtain ⟨htext, helements⟩ := (tidyResolving hmarkup.2.nodes _).text marked.1 hmarkup.1
  exact ⟨htext, helements, hmarkup.2⟩

lemma tidy_ownText (hstash : TidyStash words stash) {e : Element} (he : IsTidy e) :
    '<' ∉ (ownText references stash e).1.1 ∧ (∀ c ∈ (ownText references stash e).1.2, Throughout IsTidy c) ∧
      TidyStash words (ownText references stash e).2 := by
  unfold ownText
  split
  · exact ⟨he.text, by simp, hstash⟩
  · exact tidy_inlined references hstash he.text

lemma forall_pending {p : Element → Prop} {es : List Element} (times : ℕ) (h : ∀ e ∈ es, p e) :
    ∀ pending ∈ es.map (·, times), p pending.1 := by
  intro pending hpending
  obtain ⟨e, he, rfl⟩ := List.mem_map.mp hpending
  exact h e he

/-- Reading leaves trees without brackets. -/
structure TidyReading (words : Text → Prop) (fuel : ℕ) : Prop where
  children : ∀ stash es, TidyStash words stash → (∀ p ∈ es, Throughout IsTidy p.1) →
    (∀ e ∈ (readChildren references fuel stash es).1, Throughout IsTidy e) ∧
      TidyStash words (readChildren references fuel stash es).2
  again : ∀ stash times es, TidyStash words stash → (∀ p ∈ es, Throughout IsTidy p.1) →
    (∀ e ∈ (readAgain references fuel stash times es).1, Throughout IsTidy e) ∧
      TidyStash words (readAgain references fuel stash times es).2

lemma forall_firsts {p : Element → Prop} {es : List Pending} (h : ∀ pending ∈ es, p pending.1) :
    ∀ e ∈ es.map (·.1), p e := by
  intro e he
  obtain ⟨pending, hpending, rfl⟩ := List.mem_map.mp he
  exact h pending hpending

section Step

variable {fuel : ℕ} (ih : TidyReading references words fuel) {es : List Pending} (hstash : TidyStash words stash)
  (hes : ∀ p ∈ es, Throughout IsTidy p.1)
include ih hstash hes

lemma TidyReading.children_succ : (∀ e ∈ (readChildren references (fuel + 1) stash es).1, Throughout IsTidy e) ∧
    TidyStash words (readChildren references (fuel + 1) stash es).2 := by
  cases es with
  | nil =>
    rw [readChildren]
    · exact ⟨by simp, hstash⟩
    · simp
  | cons p es =>
    obtain ⟨e, times⟩ := p
    obtain ⟨he, hrest⟩ := List.forall_mem_cons.mp hes
    rw [readChildren_cons]
    extract_lets own behind after inner
    obtain ⟨htext, hfound, hfirst⟩ : '<' ∉ own.1.1 ∧ (∀ c ∈ own.1.2, Throughout IsTidy c) ∧
      TidyStash words own.2 := tidy_ownText references hstash he.self
    clear_value own
    obtain ⟨htail, hsiblings, hsecond⟩ : '<' ∉ behind.1.1 ∧ (∀ c ∈ behind.1.2, Throughout IsTidy c) ∧
      TidyStash words behind.2 := tidy_inlined references hfirst he.self.tail
    clear_value behind
    obtain ⟨hafter, hthird⟩ : (∀ c ∈ after.1, Throughout IsTidy c) ∧ TidyStash words after.2 :=
      ih.children _ _ hsecond (List.forall_mem_append.mpr ⟨forall_pending _ hsiblings, hrest⟩)
    clear_value after
    obtain ⟨hinner, hlast⟩ : (∀ c ∈ inner.1, Throughout IsTidy c) ∧ TidyStash words inner.2 :=
      ih.again _ _ _ hthird (List.forall_mem_append.mpr ⟨forall_pending _ hfound, forall_pending _ he.children⟩)
    exact ⟨List.forall_mem_cons.mpr ⟨.mk ⟨⟨he.self.names, htext, htail⟩, he.self.kind⟩ hinner, hafter⟩, hlast⟩

lemma TidyReading.again_succ (times : ℕ) :
    (∀ e ∈ (readAgain references (fuel + 1) stash times es).1, Throughout IsTidy e) ∧
      TidyStash words (readAgain references (fuel + 1) stash times es).2 := by
  cases es with
  | nil =>
    rw [readAgain]
    · exact ⟨by simp, hstash⟩
    · simp
  | cons p es =>
    cases times with
    | zero =>
      obtain ⟨e, times⟩ := p
      obtain ⟨he, hrest⟩ := List.forall_mem_cons.mp hes
      rw [readAgain]
      split
      · exact ⟨List.forall_mem_cons.mpr ⟨he, forall_firsts hrest⟩, hstash⟩
      · obtain ⟨hchildren, hnext⟩ := ih.again stash times _ hstash (forall_pending 0 he.children)
        obtain ⟨hes, hlast⟩ := ih.again _ 0 es hnext hrest
        exact ⟨List.forall_mem_cons.mpr ⟨.mk ⟨⟨he.self.names, he.self.text, he.self.tail⟩, he.self.kind⟩ hchildren,
          hes⟩, hlast⟩
    | succ times =>
      rw [readAgain]
      · obtain ⟨hread, hnext⟩ := ih.children stash (p :: es) hstash hes
        exact ih.again _ times _ hnext (forall_pending 0 hread)
      · simp

end Step

lemma tidyReading (fuel : ℕ) : TidyReading references words fuel := by
  induction fuel with
  | zero =>
    constructor
    case children =>
      intro stash es hstash hes
      rw [readChildren]
      exact ⟨forall_firsts hes, hstash⟩
    case again =>
      intro stash times es hstash hes
      rw [readAgain]
      exact ⟨forall_firsts hes, hstash⟩
  | succ fuel ih =>
    exact ⟨fun _ _ hstash hes => ih.children_succ _ hstash hes,
      fun _ times _ hstash hes => ih.again_succ _ hstash hes times⟩

/-- What is read of a tree without brackets is such a tree, and only character references are kept. -/
theorem tidy_read {kept : List Text} (hkept : ∀ html ∈ kept, Kept.Harmless words html) {root : Element}
    (h : ∀ e ∈ root.children, Throughout IsTidy e) :
    (∀ e ∈ (read references kept root).1.children, Throughout IsTidy e) ∧
      ∀ html ∈ (read references kept root).2, Kept.Harmless words html := by
  have hstart : TidyStash words { kept } := ⟨by simp, hkept⟩
  obtain ⟨hread, hlast⟩ := (tidyReading references (8 * extent root + 64)).children _ _ hstart
    (forall_pending 0 h)
  exact ⟨hread, hlast.kept⟩

end Reading

end Inline

end Sitewright.Markdown
