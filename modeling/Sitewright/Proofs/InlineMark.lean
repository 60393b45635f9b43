import Sitewright.Markdown.Block
import Sitewright.Markdown.Inline
import Sitewright.Proofs.Mark

/-!
Marks of kept HTML in inline text. No kind of markup begins with a character of a mark, so a mark
on its own stays as it is; and what is kept is only ever added to.
-/
namespace Sitewright.Markdown.Inline

section Quiet

/-- Markup of this kind begins with no character of a mark. -/
def Quiet (kind : Kind) : Prop :=
  ∀ references stash before c cs, Mark.IsPart c → kind references stash before (c :: cs) = none

lemma quiet_code : Quiet code := by
  intro references stash before c cs hc
  have hslash : c ≠ '\\' := hc.ne (by decide)
  have htick : c ≠ '`' := hc.ne (by decide)
  unfold code
  split
  · rfl
  · simp [hslash, htick, codeSpan?]

lemma quiet_escaped : Quiet escaped := by
  intro references stash before c cs hc
  have hslash : c ≠ '\\' := hc.ne (by decide)
  unfold escaped
  split
  · rename_i heq
    exact absurd (List.cons.inj heq).1 hslash
  · rfl

lemma linkStart?_eq_none (image : Bool) (before : Text) {c : Char} (cs : Text) (hc : Mark.IsPart c) :
    linkStart? image before (c :: cs) = none := by
  have hbang : c ≠ '!' := hc.ne (by decide)
  have hbracket : c ≠ '[' := hc.ne (by decide)
  unfold linkStart?
  split
  · simp [List.isPrefixOf?, hbang.symm]
  · split
    · rfl
    · simp [List.isPrefixOf?, hbracket.symm]

lemma quiet_targeted (image : Bool) : Quiet (targeted image) := by
  intro references stash before c cs hc
  rw [targeted, linkStart?_eq_none image before cs hc]
  rfl

lemma quiet_referenced (image short : Bool) : Quiet (referenced image short) := by
  intro references stash before c cs hc
  rw [referenced, linkStart?_eq_none image before cs hc]
  rfl

lemma angled?_eq_none {c : Char} (cs : Text) (hc : Mark.IsPart c) : angled? (c :: cs) = none := by
  have hangle : c ≠ '<' := hc.ne (by decide)
  unfold angled?
  split
  · rename_i heq
    exact absurd (List.cons.inj heq).1 hangle
  · rfl

lemma quiet_autolink : Quiet autolink := by
  intro references stash before c cs hc
  rw [autolink, angled?_eq_none cs hc]
  rfl

lemma quiet_mailLink : Quiet mailLink := by
  intro references stash before c cs hc
  rw [mailLink, angled?_eq_none cs hc]
  rfl

lemma quiet_lineBreak : Quiet lineBreak := by
  intro references stash before c cs hc
  have hspace : c ≠ ' ' := hc.ne (by decide)
  simp [lineBreak, List.isPrefixOf, hspace.symm]

lemma quiet_html : Quiet html := by
  intro references stash before c cs hc
  have hangle : c ≠ '<' := hc.ne (by decide)
  simp [html, hangle]

lemma quiet_entity : Quiet entity := by
  intro references stash before c cs hc
  have hamp : c ≠ '&' := hc.ne (by decide)
  unfold entity
  split
  · rename_i heq
    exact absurd (List.cons.inj heq).1 hamp
  · rfl

lemma quiet_loneDelimiters : Quiet loneDelimiters := by
  intro references stash before c cs hc
  have hstar : c ≠ '*' := hc.ne (by decide)
  have hscore : c ≠ '_' := hc.ne (by decide)
  simp [loneDelimiters, hstar, hscore]

lemma quiet_emphasis (kind : Emphasis.Kind) : Quiet (emphasis kind) := by
  intro references stash before c cs hc
  have hdelimiter : c ≠ kind.char := by cases kind <;> exact hc.ne (by decide)
  simp [emphasis, Emphasis.at?, hdelimiter]

lemma quiet_kinds : ∀ kind ∈ kinds, Quiet kind := by
  simp only [kinds, List.forall_mem_cons, List.not_mem_nil, false_imp_iff, implies_true, and_true]
  exact ⟨quiet_code, quiet_escaped, quiet_referenced _ _, quiet_targeted _, quiet_targeted _,
    quiet_referenced _ _, quiet_referenced _ _, quiet_referenced _ _, quiet_autolink,
    quiet_mailLink, quiet_lineBreak, quiet_html, quiet_entity, quiet_loneDelimiters,
    quiet_emphasis _, quiet_emphasis _⟩

lemma seek_eq_none {kind : Kind} (hkind : Quiet kind) (references : References) (stash : Stash)
    (before : Text) {t : Text} (ht : ∀ c ∈ t, Mark.IsPart c) :
    seek (kind references stash) 0 before t = none := by
  induction t generalizing before with
  | nil => rfl
  | cons c cs ih =>
    rw [seek, hkind references stash before c cs (ht c List.mem_cons_self)]
    exact ih _ fun d hd => ht d (List.mem_cons_of_mem c hd)

/-- Text made of the characters of marks holds no markup. -/
lemma handle_parts (references : References) (fuel : ℕ) {ks : List Kind} (hks : ∀ k ∈ ks, Quiet k)
    (stash : Stash) {t : Text} (ht : ∀ c ∈ t, Mark.IsPart c) :
    handle references fuel ks stash t = (t, stash) := by
  induction fuel generalizing ks with
  | zero => rw [handle]
  | succ fuel ih =>
    cases ks with
    | nil =>
      rw [handle]
      simp
    | cons k ks =>
      rw [handle, seek_eq_none (hks k List.mem_cons_self) references stash [] ht]
      exact ih fun k' hk' => hks k' (List.mem_cons_of_mem k hk')

end Quiet

section Resolving

variable (nodes : List Node)

lemma node?_of_ne {c : Char} (cs : Text) (hc : c ≠ Mark.opening) : Mark.node? (c :: cs) = none := by
  simp [Mark.node?, Mark.numbered?, List.isPrefixOf?, hc.symm]

lemma parts_of_not_mem {t : Text} (h : Mark.opening ∉ t) :
    parts nodes 0 t = t.map fun c => .plain [c] := by
  induction t with
  | nil => rfl
  | cons c cs ih =>
    rw [parts, node?_of_ne cs (List.ne_of_not_mem_cons h).symm,
      ih (List.not_mem_of_not_mem_cons h)]
    rfl

lemma assemble_plain (t : Text) :
    Emphasis.assemble (t.map fun c => .plain [c]) = (t, []) := by
  induction t with
  | nil => rfl
  | cons c cs ih =>
    rw [List.map_cons, Emphasis.assemble, ih]
    rfl

/-- A mark of kept HTML stands for no inline node. -/
lemma parts_mark (n : ℕ) : parts nodes 0 (Mark.html n) = (Mark.html n).map fun c => .plain [c] := by
  obtain ⟨t, ht, hnot⟩ := Mark.html_head n
  have hnode : Mark.node? (Mark.html n) = none := rfl
  rw [ht] at hnode ⊢
  rw [parts, hnode, parts_of_not_mem nodes hnot]
  rfl

variable (references : References) (stash : Stash)

lemma inlined_nil : inlined references stash [] = (([], []), stash) := by
  have hmarkup : markup references stash [] = ([], stash) :=
    handle_parts references _ quiet_kinds stash (by simp)
  rw [inlined, hmarkup]
  rfl

lemma inlined_mark (n : ℕ) : inlined references stash (Mark.html n) = ((Mark.html n, []), stash) := by
  have hmarkup : markup references stash (Mark.html n) = (Mark.html n, stash) :=
    handle_parts references _ quiet_kinds stash fun c hc => Mark.isPart_of_mem hc
  have hresolve : ∀ fuel, resolve stash.nodes (fuel + 1) (Mark.html n) = (Mark.html n, []) := by
    intro fuel
    rw [resolve, parts_mark, assemble_plain]
    cases fuel <;> rfl
  rw [inlined, hmarkup]
  exact congrArg (·, stash) (hresolve _)

end Resolving

section Keeping

variable (references : References)

/-- Nothing kept is given up. -/
structure KeepsAll (fuel : ℕ) : Prop where
  text : ∀ ks stash t, stash.kept <+: (handle references fuel ks stash t).2.kept
  element : ∀ k ks stash e, stash.kept <+: (handleElement references fuel k ks stash e).2.kept
  children : ∀ k ks stash es, stash.kept <+: (handleChildren references fuel k ks stash es).2.kept

lemma keepsAll (fuel : ℕ) : KeepsAll references fuel := by
  induction fuel with
  | zero =>
    constructor
    case text =>
      intro ks stash t
      simp [handle]
    case element =>
      intro k ks stash e
      simp [handleElement]
    case children =>
      intro k ks stash es
      simp [handleChildren]
  | succ fuel ih =>
    constructor
    case text =>
      intro ks stash t
      cases ks with
      | nil =>
        simp [handle]
      | cons k ks =>
        rw [handle]
        split
        · exact ih.text _ _ _
        · rename_i before found size after hseek
          rcases found with ⟨e | t⟩ | source | _
          · have helement := ih.element k ks stash e
            dsimp only
            generalize handleElement references fuel k ks stash e = handled at helement ⊢
            obtain ⟨e', stash'⟩ := handled
            exact helement.trans (ih.text (k :: ks) (stash'.add (.element e')).2 _)
          · exact ih.text (k :: ks) (stash.add (.text t)).2 _
          · have hkeep : ∀ written, stash.kept <+: (stash.keep written).2.kept := fun written =>
              List.prefix_append _ _
            exact (hkeep _).trans (ih.text (k :: ks) ((stash.keep _).2.add (.text _)).2 _)
          · exact ih.text (k :: ks) (stash.add (.text [])).2 _
    case element =>
      intro k ks stash e
      rw [handleElement]
      split
      · exact List.prefix_rfl
      · exact (ih.text _ _ _).trans (ih.children _ _ _ _)
    case children =>
      intro k ks stash es
      cases es with
      | nil =>
        simp [handleChildren]
      | cons e es =>
        rw [handleChildren]
        exact ((ih.text _ _ _).trans (ih.text _ _ _)).trans (ih.children _ _ _ _)

lemma kept_inlined (stash : Stash) (t : Text) : stash.kept <+: (inlined references stash t).2.kept := by
  unfold inlined markup
  exact (keepsAll references _).text kinds stash t

/-- The markup of the text of an element. -/
def ownText (references : References) (stash : Stash) (e : Element) : (Text × List Element) × Stash :=
  if e.verbatim then ((e.text, []), stash) else inlined references stash e.text

lemma readChildren_cons (fuel : ℕ) (stash : Stash) (e : Element) (times : ℕ) (es : List Pending) :
    readChildren references (fuel + 1) stash ((e, times) :: es) =
      let own := ownText references stash e
      let behind := inlined references own.2 e.tail
      let rest := readChildren references fuel behind.2 (behind.1.2.map (·, 0) ++ es)
      let inner := readAgain references fuel rest.2 (if e.children.isEmpty then times else times + 1)
        (own.1.2.map (·, 1) ++ e.children.map (·, 0))
      ({ e with text := own.1.1, tail := behind.1.1, children := inner.1 } :: rest.1, inner.2) := by
  have hown : (if e.verbatim then ((e.text, []), stash) else inlined references stash e.text) =
      ownText references stash e := rfl
  rw [readChildren, hown]

/-- Reading children gives up nothing kept. -/
structure ReadsKeeping (fuel : ℕ) : Prop where
  children : ∀ stash es, stash.kept <+: (readChildren references fuel stash es).2.kept
  again : ∀ stash times es, stash.kept <+: (readAgain references fuel stash times es).2.kept

lemma readsKeeping (fuel : ℕ) : ReadsKeeping references fuel := by
  induction fuel with
  | zero =>
    constructor
    case children =>
      intro stash es
      simp [readChildren]
    case again =>
      intro stash times es
      simp [readAgain]
  | succ fuel ih =>
    constructor
    case children =>
      intro stash es
      cases es with
      | nil =>
        simp [readChildren]
      | cons p es =>
        obtain ⟨e, times⟩ := p
        rw [readChildren_cons]
        have htext : stash.kept <+: (ownText references stash e).2.kept := by
          unfold ownText
          split
          · exact List.prefix_rfl
          · exact kept_inlined references stash e.text
        exact ((htext.trans (kept_inlined references _ e.tail)).trans (ih.children _ _)).trans
          (ih.again _ _ _)
    case again =>
      intro stash times es
      cases es with
      | nil =>
        simp [readAgain]
      | cons p es =>
        cases times with
        | zero =>
          obtain ⟨e, times⟩ := p
          rw [readAgain]
          split
          · exact List.prefix_rfl
          · exact (ih.again _ _ _).trans (ih.again _ _ _)
        | succ times =>
          rw [readAgain]
          · exact (ih.children _ _).trans (ih.again _ _ _)
          · simp

end Keeping

section Reading

variable (references : References)

lemma readAgain_nil (fuel : ℕ) (stash : Stash) (times : ℕ) :
    readAgain references fuel stash times [] = ([], stash) := by
  cases fuel with
  | zero => rw [readAgain, List.map_nil]
  | succ fuel =>
    rw [readAgain]
    simp

/-- With no text behind it a child is read alone, and a paragraph that holds a mark as it is. -/
lemma readChildren_cons_of_tail (fuel : ℕ) (stash : Stash) {e : Element} (times : ℕ)
    (es : List Pending) (htail : e.tail = []) : ∃ e' stash',
      (readChildren references (fuel + 1) stash ((e, times) :: es)).1 =
        e' :: (readChildren references fuel stash' es).1 ∧
      ∀ n, e = Block.paragraph (Mark.html n) → e' = e := by
  have hread := readChildren_cons references fuel stash e times es
  rw [htail] at hread
  simp only [inlined_nil, List.map_nil, List.nil_append] at hread
  refine ⟨_, _, congrArg Prod.fst hread, ?_⟩
  rintro n rfl
  have hverbatim : (Block.paragraph (Mark.html n)).verbatim = false := rfl
  have htext : (Block.paragraph (Mark.html n)).text = Mark.html n := rfl
  have hchildren : (Block.paragraph (Mark.html n)).children = [] := rfl
  have hown : ownText references stash (Block.paragraph (Mark.html n)) =
      ((Mark.html n, []), stash) := by
    rw [ownText, hverbatim, htext, if_neg Bool.false_ne_true, inlined_mark]
  simp only [hown, hchildren, List.map_nil, List.append_nil, readAgain_nil]
  rfl

/-- A paragraph that holds a mark is read as it is. -/
lemma paragraph_mem_readChildren {n fuel : ℕ} {stash : Stash} {es : List Pending}
    (hfuel : es.length ≤ fuel) (htails : ∀ p ∈ es, p.1.tail = [])
    (hmem : Block.paragraph (Mark.html n) ∈ es.map Prod.fst) :
    Block.paragraph (Mark.html n) ∈ (readChildren references fuel stash es).1 := by
  induction fuel generalizing stash es with
  | zero =>
    rw [List.length_eq_zero_iff.mp (Nat.le_zero.mp hfuel)] at hmem
    cases hmem
  | succ fuel ih =>
    cases es with
    | nil => cases hmem
    | cons p es =>
      obtain ⟨e, times⟩ := p
      obtain ⟨e', stash', hread, hsame⟩ :=
        readChildren_cons_of_tail references fuel stash times es (htails _ List.mem_cons_self)
      rw [hread]
      rcases List.mem_cons.mp hmem with heq | hmem
      · rw [hsame n heq.symm, heq]
        exact List.mem_cons_self
      · refine List.mem_cons_of_mem _ (ih ?_ (fun p hp => htails p (List.mem_cons_of_mem _ hp)) hmem)
        simpa using hfuel

lemma length_le_extents (es : List Element) : es.length ≤ extents es := by
  induction es with
  | nil => exact Nat.zero_le _
  | cons e es ih =>
    have hpos : 1 ≤ extent e := by
      cases e
      rw [extent]
      omega
    rw [extents, List.length_cons]
    omega

lemma length_le_extent (e : Element) : e.children.length ≤ extent e := by
  cases e with
  | mk tag attributes text verbatim children tail =>
    have hle := length_le_extents children
    rw [extent]
    exact Nat.le_trans hle (Nat.le_add_left _ _)

/-- A paragraph that holds a mark stays in the document, and so does what its mark stands for. -/
theorem paragraph_mem_read {n : ℕ} (kept : List Text) {root : Element}
    (htails : ∀ c ∈ root.children, c.tail = [])
    (hmem : Block.paragraph (Mark.html n) ∈ root.children) :
    Block.paragraph (Mark.html n) ∈ (read references kept root).1.children ∧
      kept <+: (read references kept root).2 := by
  have hlength := length_le_extent root
  have hkept := (readsKeeping references (8 * extent root + 64)).children ⟨[], kept⟩
    (root.children.map (·, 0))
  refine ⟨paragraph_mem_readChildren references ?_ ?_ ?_, hkept⟩
  · rw [List.length_map]
    omega
  · intro p hp
    obtain ⟨c, hc, rfl⟩ := List.mem_map.mp hp
    exact htails c hc
  · rw [List.map_map]
    exact List.mem_map.mpr ⟨_, hmem, rfl⟩

end Reading

end Sitewright.Markdown.Inline
