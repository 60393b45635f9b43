import Sitewright.Proofs.BlockRest

/-!
How the block structure of a document grows. Blocks are added behind what is there: paragraphs
already read stay, and elements keep their tag and what stands behind them.
-/
namespace Sitewright.Markdown.Block

section Yields

variable {α β : Type}

/-- A stage of the construction ends in something with a property, whatever references are defined
before it. -/
def Yields (x : Build α) (P : α → Prop) : Prop := ∀ references, P (x.run references).1

variable {P Q : α → Prop}

lemma yields_pure {a : α} (h : P a) : Yields (pure a) P := fun _ => h

lemma Yields.bind {x : Build α} {f : α → Build β} {R : β → Prop} (hx : Yields x P)
    (hf : ∀ a, P a → Yields (f a) R) : Yields (x >>= f) R :=
  fun references => hf _ (hx references) _

lemma Yields.imp {x : Build α} (hx : Yields x P) (h : ∀ a, P a → Q a) : Yields x Q :=
  fun references => h _ (hx references)

lemma yields_true (x : Build α) : Yields x fun _ => True := fun _ => trivial

end Yields

/-- An element with the tag and the attributes of another one and the same text behind it. -/
def SameOuter (e e' : Element) : Prop :=
  e'.tag = e.tag ∧ e'.attributes = e.attributes ∧ e'.tail = e.tail

lemma SameOuter.refl (e : Element) : SameOuter e e := ⟨rfl, rfl, rfl⟩

lemma SameOuter.tag {e e' : Element} (h : SameOuter e e') : e'.tag = e.tag := h.1

lemma SameOuter.tail {e e' : Element} (h : SameOuter e e') : e'.tail = e.tail := h.2.2

lemma SameOuter.trans {a b c : Element} (h : SameOuter a b) (h' : SameOuter b c) : SameOuter a c :=
  ⟨h'.tag.trans h.tag, h'.2.1.trans h.2.1, h'.tail.trans h.tail⟩

/-- An element that holds the paragraphs of another one; and no text comes to stand behind its
children. -/
structure Grows (e e' : Element) : Prop where
  outer : SameOuter e e'
  paragraphs : ∀ c ∈ e.children, c.tag = "p".toList → c ∈ e'.children
  tails : (∀ c ∈ e.children, c.tail = []) → ∀ c ∈ e'.children, c.tail = []

lemma Grows.refl (e : Element) : Grows e e := ⟨.refl e, fun _ h _ => h, fun h => h⟩

lemma Grows.trans {a b c : Element} (h : Grows a b) (h' : Grows b c) : Grows a c :=
  ⟨h.outer.trans h'.outer, fun p hp htag => h'.paragraphs p (h.paragraphs p hp htag) htag,
    fun htails => h'.tails (h.tails htails)⟩

lemma grows_push (e : Element) {child : Element} (h : child.tail = []) : Grows e (e.push child) := by
  refine ⟨.refl e, fun c hc _ => List.mem_append_left _ hc, fun htails c hc => ?_⟩
  rcases List.mem_append.mp hc with hc | hc
  · exact htails c hc
  · rw [List.mem_singleton.mp hc]
    exact h

lemma grows_setLast {e child child' : Element} (hlast : e.last? = some child)
    (htag : child.tag ≠ "p".toList) (h : SameOuter child child') : Grows e (e.setLast child') := by
  obtain ⟨front, hfront⟩ : ∃ front, e.children = front ++ [child] :=
    ⟨_, (List.dropLast_append_getLast? child hlast).symm⟩
  have hchildren : (e.setLast child').children = front ++ [child'] := by
    rw [Element.setLast, hfront, List.dropLast_concat]
  refine ⟨.refl e, fun c hc hp => ?_, fun htails c hc => ?_⟩
  · rw [hfront] at hc
    rw [hchildren]
    rcases List.mem_append.mp hc with hc | hc
    · exact List.mem_append_left _ hc
    · rw [List.mem_singleton.mp hc] at hp
      exact absurd hp htag
  · rw [hchildren] at hc
    rw [hfront] at htails
    rcases List.mem_append.mp hc with hc | hc
    · exact htails c (List.mem_append_left _ hc)
    · rw [List.mem_singleton.mp hc, h.tail]
      exact htails child (by simp)

/-- What adding to an element makes of it: an element of the same kind, which grows unless it is a
list or is read as a tight list item. -/
structure Extends (ctx : Context) (e e' : Element) : Prop where
  outer : SameOuter e e'
  grows : ctx ≠ .list → e.isList = false → Grows e e'

lemma Grows.extends {ctx : Context} {e e' : Element} (h : Grows e e') : Extends ctx e e' :=
  ⟨h.outer, fun _ _ => h⟩

lemma Extends.refl (ctx : Context) (e : Element) : Extends ctx e e := (Grows.refl e).extends

lemma SameOuter.isList {e e' : Element} (h : SameOuter e e') : e'.isList = e.isList := by
  unfold Element.isList Element.isTag
  rw [h.tag]

lemma Extends.trans {ctx : Context} {a b c : Element} (h : Extends ctx a b) (h' : Extends ctx b c) :
    Extends ctx a c :=
  ⟨h.outer.trans h'.outer, fun hctx hlist =>
    (h.grows hctx hlist).trans (h'.grows hctx (h.outer.isList.trans hlist))⟩

section Helpers

lemma ne_p_of_isTag {e : Element} {tag : String} (h : e.isTag tag = true)
    (htag : tag.toList ≠ "p".toList) : e.tag ≠ "p".toList := by
  rw [Element.isTag, beq_iff_eq] at h
  rw [h]
  exact htag

lemma ne_p_of_isList {e : Element} (h : e.isList = true) : e.tag ≠ "p".toList := by
  rw [Element.isList, Bool.or_eq_true] at h
  rcases h with h | h
  · exact ne_p_of_isTag h (by decide)
  · exact ne_p_of_isTag h (by decide)

lemma isList_of_isTag_li {e : Element} (h : e.isTag "li" = true) : e.isList = false := by
  rw [Element.isTag, beq_iff_eq] at h
  unfold Element.isList Element.isTag
  rw [h]
  decide

lemma ne_p_of_isCodeBlock {e : Element} (h : e.isCodeBlock = true) : e.tag ≠ "p".toList := by
  rw [Element.isCodeBlock, Bool.and_eq_true] at h
  exact ne_p_of_isTag h.1 (by decide)

lemma sameOuter_extendCode (pre : Element) (more : Text) : SameOuter pre (extendCode pre more) := by
  unfold extendCode
  split <;> exact .refl _

lemma grows_fillCode (parent : Element) (filler : Text) : Grows parent (fillCode parent filler) := by
  unfold fillCode
  split
  · rename_i pre hpre
    obtain ⟨hlast, hcode⟩ := Option.filter_eq_some_iff.mp hpre
    exact grows_setLast hlast (ne_p_of_isCodeBlock hcode) (sameOuter_extendCode _ _)
  · exact .refl _

lemma grows_addCode (parent : Element) (code : Text) : Grows parent (addCode parent code) := by
  unfold addCode
  split
  · rename_i pre hpre
    obtain ⟨hlast, hcode⟩ := Option.filter_eq_some_iff.mp hpre
    exact grows_setLast hlast (ne_p_of_isCodeBlock hcode) (sameOuter_extendCode _ _)
  · exact grows_push _ rfl

lemma extends_addText (ctx : Context) (parent : Element) (block : Text) :
    Extends ctx parent (addText ctx parent block) := by
  unfold addText
  split
  · exact .refl _ _
  · split
    · rename_i hctx
      split
      · exact ⟨.refl _, fun h => absurd hctx h⟩
      · exact ⟨.refl _, fun h => absurd hctx h⟩
    · exact (grows_push _ rfl).extends

lemma sameOuter_wrapText (item : Element) : SameOuter item (wrapText item) := by
  unfold wrapText
  split <;> exact .refl _

lemma grows_changeDown {change : Element → Build Element}
    (hchange : ∀ e, Yields (change e) (Grows e)) (steps : ℕ) (e : Element)
    (hlast : steps ≠ 0 → ∃ child, e.last? = some child ∧ child.tag ≠ "p".toList) :
    Yields (changeDown change steps e) (Grows e) := by
  have houter : ∀ n e, Yields (changeDown change n e) (SameOuter e) := by
    intro n
    induction n with
    | zero => exact fun e => (hchange e).imp fun _ h => h.outer
    | succ n ih =>
      intro e
      unfold changeDown
      split
      · exact (ih _).bind fun _ _ => yields_pure (.refl _)
      · exact (hchange e).imp fun _ h => h.outer
  cases steps with
  | zero => exact hchange e
  | succ n =>
    obtain ⟨child, hchild, htag⟩ := hlast (Nat.succ_ne_zero n)
    unfold changeDown
    rw [hchild]
    exact (houter n child).bind fun _ h => yields_pure (grows_setLast hchild htag h)

/-- A level below an element is reached through lists and their items only. -/
lemma listLevel_last {indent fuel level : ℕ} {e : Element}
    (h : (listLevel indent fuel level e).2 ≠ 0) :
    ∃ child, e.last? = some child ∧ child.tag ≠ "p".toList := by
  cases fuel with
  | zero => exact absurd rfl h
  | succ fuel =>
    unfold listLevel at h
    split at h
    · split at h
      · rename_i child hlast
        refine ⟨child, hlast, ?_⟩
        split at h
        · rename_i htag
          rcases Bool.or_eq_true_iff.mp htag with htag | htag
          · exact ne_p_of_isList htag
          · exact ne_p_of_isTag htag (by decide)
        · exact absurd rfl h
      · exact absurd rfl h
    · exact absurd rfl h

end Helpers

/-- What every part of the construction does to the element it adds to, and which blocks a rule
leaves. -/
structure Construction (fuel : ℕ) : Prop where
  blocks : ∀ ctx parent blocks, Yields (addBlocks fuel ctx parent blocks) (Extends ctx parent)
  block : ∀ ctx parent block, Yields (addBlock fuel ctx parent block) fun r =>
    Extends ctx parent r.1 ∧ (ctx ≠ .looseList → size r.2 ≤ block.length)
  quote : ∀ parent blocks, Yields (addQuote fuel parent blocks) (Grows parent)
  toList : ∀ ctx parent block, Yields (addToList fuel ctx parent block) (Grows parent)
  items : ∀ kind parent block, Yields (addItems fuel kind parent block) fun e =>
    SameOuter parent e ∧ (parent.isList = false → Grows parent e)
  each : ∀ list items, Yields (addEach fuel list items) (SameOuter list)

section Step

variable {fuel : ℕ} (ih : Construction fuel)
include ih

lemma Construction.blocks_succ (ctx : Context) (parent : Element) (blocks : List Text) :
    Yields (addBlocks (fuel + 1) ctx parent blocks) (Extends ctx parent) := by
  cases blocks with
  | nil =>
    rw [addBlocks]
    · exact yields_pure (.refl _ _)
    · simp
  | cons block blocks =>
    rw [addBlocks]
    exact (ih.block ctx parent block).bind fun _ hr =>
      (ih.blocks ctx _ _).imp fun _ h => hr.1.trans h

lemma Construction.block_succ (ctx : Context) (parent : Element) (block : Text) :
    Yields (addBlock (fuel + 1) ctx parent block) fun r =>
    Extends ctx parent r.1 ∧ (ctx ≠ .looseList → size r.2 ≤ block.length) := by
  rw [addBlock]
  simp only []
  split
  · refine yields_pure ⟨(grows_fillCode _ _).extends, fun _ => size_unlessEmpty fun hne => ?_⟩
    have hlength : block.length ≠ 0 := fun hnil => hne (by
      rw [List.length_eq_zero_iff.mp hnil]
      rfl)
    rw [List.length_drop]
    omega
  -- an indented block below a list, then a block of code
  split
  · exact (ih.toList _ _ _).bind fun _ h => yields_pure ⟨h.extends, fun _ => Nat.zero_le _⟩
  split
  · rename_i hindent
    exact yields_pure ⟨(grows_addCode _ _).extends, fun _ =>
      size_unlessEmpty fun hne => length_detab hindent hne⟩
  -- a table, a heading of either form, and a rule
  split
  · exact yields_pure ⟨(grows_push _ rfl).extends, fun _ => Nat.zero_le _⟩
  split
  · rename_i heading hheading
    refine (ih.blocks _ _ _).bind fun _ h => yields_pure
      ⟨h.trans (grows_push _ rfl).extends, fun hctx => ?_⟩
    rw [if_neg hctx]
    split
    · exact Nat.zero_le _
    · rw [size_singleton]
      exact (heading?_some hheading).2.2.2
  split
  · rename_i level text rest hunder
    refine yields_pure ⟨(grows_push _ rfl).extends, fun _ => ?_⟩
    split
    · exact Nat.zero_le _
    · rename_i hne
      rw [size_singleton]
      exact length_underlined hunder (by simpa using hne)
  split
  · rename_i before after hrule
    refine (ih.blocks _ _ _).bind fun _ h => yields_pure
      ⟨h.trans (grows_push _ rfl).extends, fun _ => size_unlessEmpty fun hne => ?_⟩
    have hafter : after ≠ [] := fun hnil => hne (by rw [hnil]; rfl)
    exact Nat.lt_of_le_of_lt (List.dropWhile_suffix _).length_le (length_rule hrule hafter)
  -- lists of either kind and a quote, which take the whole block
  split
  · exact (ih.items _ _ _).bind fun _ h => yields_pure
      ⟨⟨h.1, fun _ hlist => h.2 hlist⟩, fun _ => Nat.zero_le _⟩
  split
  · exact (ih.items _ _ _).bind fun _ h => yields_pure
      ⟨⟨h.1, fun _ hlist => h.2 hlist⟩, fun _ => Nat.zero_le _⟩
  split
  · exact (ih.blocks _ _ _).bind fun _ h => (ih.quote _ _).bind fun _ h' => yields_pure
      ⟨h.trans h'.extends, fun _ => Nat.zero_le _⟩
  -- a reference, which leaves the text before and after it, or else plain text
  split
  · rename_i before name reference after hfind
    refine (yields_true _).bind fun _ _ => yields_pure ⟨.refl _ _, fun _ => ?_⟩
    have hlength := length_find hfind
    have hbefore : (Text.dropEndWhile (· = '\n') before).length ≤ before.length := by
      have hreverse : before.reverse.length = before.length := List.length_reverse
      rw [Text.dropEndWhile, List.length_reverse, ← hreverse]
      exact (List.dropWhile_suffix _).length_le
    have hafter : (after.dropWhile (· = '\n')).length ≤ after.length :=
      (List.dropWhile_suffix _).length_le
    rw [size_append]
    calc _ ≤ (before.length + 1) + (after.length + 1) :=
          Nat.add_le_add (size_shortened hbefore) (size_shortened hafter)
      _ ≤ block.length := by omega
  · exact yields_pure ⟨extends_addText _ _ _, fun _ => Nat.zero_le _⟩

lemma Construction.quote_succ (parent : Element) (blocks : List Text) :
    Yields (addQuote (fuel + 1) parent blocks) (Grows parent) := by
  rw [addQuote]
  split
  · rename_i quote hquote
    obtain ⟨hlast, htag⟩ := Option.filter_eq_some_iff.mp hquote
    exact (ih.blocks _ _ _).bind fun _ h =>
      yields_pure (grows_setLast hlast (ne_p_of_isTag htag (by decide)) h.outer)
  · exact (ih.blocks _ _ _).bind fun _ h => yields_pure (grows_push _ h.outer.tail)

lemma Construction.toList_succ (ctx : Context) (parent : Element) (block : Text) :
    Yields (addToList (fuel + 1) ctx parent block) (Grows parent) := by
  rw [addToList]
  simp only []
  have hli : ∀ item block, item.isTag "li" = true →
      Yields (addBlocks fuel .detabbed item [block]) (Grows item) := fun item block hitem =>
    (ih.blocks _ _ _).imp fun _ h => h.grows (by decide) (isList_of_isTag_li hitem)
  split
  · rename_i htag
    split
    · rename_i child hlast
      split
      · rename_i hlist
        exact (ih.blocks _ _ _).bind fun _ h =>
          yields_pure (grows_setLast hlast (ne_p_of_isList hlist) h.outer)
      · exact hli _ _ htag
    · exact hli _ _ htag
  · refine grows_changeDown (fun sibling => ?_) _ _ listLevel_last
    split
    · rename_i htag
      exact hli _ _ htag
    · split
      · rename_i item hlast
        split
        · rename_i htag
          exact (ih.blocks _ _ _).bind fun _ h => yields_pure (grows_setLast hlast
            (ne_p_of_isTag htag (by decide)) ((sameOuter_wrapText item).trans h.outer))
        · exact (ih.blocks _ _ _).bind fun _ h => yields_pure (grows_push _ h.outer.tail)
      · exact (ih.blocks _ _ _).bind fun _ h => yields_pure (grows_push _ h.outer.tail)

lemma Construction.items_succ (kind : ListKind) (parent : Element) (block : Text) :
    Yields (addItems (fuel + 1) kind parent block) fun e =>
    SameOuter parent e ∧ (parent.isList = false → Grows parent e) := by
  rw [addItems]
  split
  · rename_i list hlist
    obtain ⟨hlast, htag⟩ := Option.filter_eq_some_iff.mp hlist
    have hp : list.tag ≠ "p".toList := ne_p_of_isTag htag (by cases kind <;> decide)
    refine (ih.blocks _ _ _).bind fun first _ => (ih.each _ _).bind fun list' h => yields_pure ?_
    have houter : SameOuter list list' := by
      refine SameOuter.trans ?_ h
      split
      · exact .refl list
      · exact .refl list
    exact ⟨.refl _, fun _ => grows_setLast hlast hp houter⟩
  · split
    · rename_i hlist
      refine (ih.each _ _).imp fun _ h => ⟨h, fun hno => ?_⟩
      rw [hlist] at hno
      cases hno
    · refine (ih.each _ _).bind fun list h => yields_pure ⟨.refl _, fun _ => grows_push _ ?_⟩
      exact h.tail

lemma Construction.each_succ (list : Element) (items : List Text) :
    Yields (addEach (fuel + 1) list items) (SameOuter list) := by
  cases items with
  | nil =>
    rw [addEach]
    · exact yields_pure (.refl _)
    · simp
  | cons item rest =>
    rw [addEach]
    split
    · exact (ih.blocks _ _ _).bind fun _ _ => ih.each _ _
    · exact (ih.blocks _ _ _).bind fun _ _ => ih.each _ _

end Step

lemma construction (fuel : ℕ) : Construction fuel := by
  induction fuel with
  | zero =>
    constructor
    case blocks =>
      intro ctx parent blocks
      rw [addBlocks]
      exact yields_pure (.refl _ _)
    case block =>
      intro ctx parent block
      rw [addBlock]
      exact yields_pure ⟨.refl _ _, fun _ => Nat.zero_le _⟩
    case quote =>
      intro parent blocks
      rw [addQuote]
      exact yields_pure (.refl _)
    case toList =>
      intro ctx parent block
      rw [addToList]
      exact yields_pure (.refl _)
    case items =>
      intro kind parent block
      rw [addItems]
      exact yields_pure ⟨.refl _, fun _ => .refl _⟩
    case each =>
      intro list items
      rw [addEach]
      exact yields_pure (.refl _)
  | succ fuel ih =>
    exact ⟨ih.blocks_succ, ih.block_succ, ih.quote_succ, ih.toList_succ, ih.items_succ, ih.each_succ⟩

end Sitewright.Markdown.Block
