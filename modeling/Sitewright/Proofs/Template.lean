import Sitewright.Proofs.Scan
import Sitewright.Template

/-!
Templates as what they are made of: literal text, tags, and blocks around both. Filling what such
nodes write gives the same as evaluating the nodes one by one; a value is put in once and never read
as a template.
-/
namespace Sitewright.Template
open Text (forall_of_all isBlank)

/-- A name that a tag can have. One that starts with a hash sign or a slash would look like the
opening or the closing of a block. -/
structure Name where
  text : Text
  ne_nil : text ≠ []
  plain : ∀ c ∈ text, isBlank c = false ∧ c ≠ '\x7b' ∧ c ≠ '\x7d'
  noBlock : text.head? ≠ some '#' ∧ text.head? ≠ some '/'

/-- What may stand inside a block. -/
inductive Inline
  | literal (t : Text) (plain : ∀ c ∈ t, c ≠ '\x7b' ∧ c ≠ '\x7d')
  | tag (name : Name)

inductive Node
  | inline (i : Inline)
  | block (name : Name) (body : List Inline)

/-- What stands in a template for inline nodes. -/
def Inline.written : Inline → Text
  | literal t _ => t
  | tag name => Template.written name.text

def inlinesWritten (is : List Inline) : Text := is.flatMap Inline.written

/-- What stands in a template for a node. A block has one space in front of its name. -/
def Node.written : Node → Text
  | inline i => i.written
  | block name body =>
    blockOpening ++ (' ' :: name.text) ++ closing ++ (inlinesWritten body ++ blockClosing)

def nodesWritten (ns : List Node) : Text := ns.flatMap Node.written

section Evaluation

variable (value : Text → Text)

def Inline.evaluate : Inline → Text
  | literal t _ => t
  | tag name => value name.text

/-- The tags whose values an inline node needs. -/
def Inline.used : Inline → List Text
  | literal _ _ => []
  | tag name => [name.text]

/-- What is left of a node once its tag decides it. -/
def Node.kept : Node → List Inline
  | inline i => [i]
  | block name body => if (value name.text).isEmpty then [] else body

def Node.evaluate (n : Node) : Text := (n.kept value).flatMap (Inline.evaluate value)

/-- The block of a node, none for an inline one. -/
def Node.block? : Node → Option Block
  | inline _ => none
  | block name body => some ⟨name.text, inlinesWritten body⟩

/-- The tags whose values a node needs: the one that decides it, and those in what is kept. -/
def Node.used (n : Node) : List Text :=
  (n.block?.map Block.name).toList ++ (n.kept value).flatMap Inline.used

end Evaluation

section Places

lemma Name.brace_not_mem (name : Name) : '\x7b' ∉ name.text ++ closing := by
  intro hmem
  rcases List.mem_append.mp hmem with hmem | hmem
  · exact (name.plain _ hmem).2.1 rfl
  · revert hmem; decide

/-- A text of two braces and a mark of blocks starts nowhere in an inline node. -/
lemma Inline.not_prefix {mark : Char} (hmark : mark = '#' ∨ mark = '/') {word : Text} (i : Inline)
    {u v : Text} (hsplit : i.written = u ++ v) (hv : v ≠ []) (rest : Text) :
    ¬ '\x7b' :: '\x7b' :: mark :: word <+: v ++ rest := by
  obtain ⟨c, v, rfl⟩ := List.exists_cons_of_ne_nil hv
  intro hprefix
  obtain ⟨rfl, hmore⟩ := List.cons_prefix_cons.mp hprefix
  clear hprefix
  cases i with
  | literal t plain =>
    have hmem : '\x7b' ∈ t := by
      rw [show t = u ++ '\x7b' :: v from hsplit]
      simp
    exact (plain _ hmem).1 rfl
  | tag name =>
    obtain ⟨d, ds, hname⟩ := List.exists_cons_of_ne_nil name.ne_nil
    have hd := name.brace_not_mem
    rw [hname] at hd
    replace hsplit : '\x7b' :: '\x7b' :: (d :: ds ++ closing) = u ++ '\x7b' :: v := by
      rw [← hname]
      exact hsplit
    match u with
    | [] =>
      -- The mark would be the first character of the name.
      obtain ⟨-, rfl⟩ := List.cons.inj hsplit
      obtain ⟨-, hname'⟩ := List.cons_prefix_cons.mp hmore
      obtain ⟨rfl, -⟩ := List.cons_prefix_cons.mp hname'
      have hblock := name.noBlock
      simp only [hname, List.head?_cons, ne_eq, Option.some.injEq] at hblock
      exact hmark.elim hblock.1 hblock.2
    | [_] =>
      obtain ⟨-, hsplit⟩ := List.cons.inj hsplit
      obtain ⟨-, rfl⟩ := List.cons.inj hsplit
      obtain ⟨rfl, -⟩ := List.cons_prefix_cons.mp hmore
      exact hd List.mem_cons_self
    | _ :: _ :: u =>
      obtain ⟨-, hsplit⟩ := List.cons.inj hsplit
      obtain ⟨-, hsplit⟩ := List.cons.inj hsplit
      exact hd (by rw [hsplit]; simp)

lemma not_prefix_inlines {mark : Char} (hmark : mark = '#' ∨ mark = '/') {word : Text}
    (is : List Inline) {u v : Text} (hsplit : inlinesWritten is = u ++ v) (hv : v ≠ []) (rest : Text) :
    ¬ '\x7b' :: '\x7b' :: mark :: word <+: v ++ rest := by
  induction is generalizing u with
  | nil => exact absurd (List.append_eq_nil_iff.mp hsplit.symm).2 hv
  | cons i is ih =>
    rcases List.append_eq_append_iff.mp hsplit with ⟨w, rfl, hw⟩ | ⟨w, hw, rfl⟩
    · exact ih hw
    · by_cases hne : w = []
      · subst hne
        exact ih (u := []) rfl
      · rw [List.append_assoc]
        exact i.not_prefix hmark hw hne (inlinesWritten is ++ rest)

/-- Nothing is cut off at a word that starts nowhere in a text. -/
lemma breakAt?_append {needle t rest : Text} (hneedle : needle ≠ [])
    (h : ∀ u v, t = u ++ v → v ≠ [] → ¬ needle <+: v ++ (needle ++ rest)) :
    Text.breakAt? needle (t ++ (needle ++ rest)) = some (t, rest) := by
  induction t with
  | nil =>
    obtain ⟨c, cs, rfl⟩ := List.exists_cons_of_ne_nil hneedle
    have hfound : (c :: cs).isPrefixOf? (c :: cs ++ rest) = some rest :=
      List.isPrefixOf?_eq_some_iff_append_eq.mpr rfl
    rw [List.cons_append] at hfound
    simp [Text.breakAt?, hfound]
  | cons c cs ih =>
    have hnot : needle.isPrefixOf? (c :: (cs ++ (needle ++ rest))) = none := by
      by_contra hne
      obtain ⟨more, hmore⟩ := Option.ne_none_iff_exists'.mp hne
      rw [List.isPrefixOf?_eq_some_iff_append_eq] at hmore
      exact h [] (c :: cs) rfl (by simp) ⟨more, hmore⟩
    rw [List.cons_append, Text.breakAt?, hnot]
    simp only
    rw [ih fun u v huv hv => h (c :: u) v (congrArg (c :: ·) huv) hv]
    rfl

end Places

section Finding

lemma findTag_local : findTag.Local := fun _ _ _ => rfl
lemma findBlock_local : findBlock.Local := fun _ _ _ => rfl

/-- A name is read up to the braces behind it. -/
lemma name?_append {t : Text} (hne : t ≠ []) (hplain : ∀ c ∈ t, isBlank c = false ∧ c ≠ '\x7d')
    (rest : Text) : name? (t ++ (closing ++ rest)) = some (t, rest) := by
  induction t with
  | nil => exact absurd rfl hne
  | cons c cs ih =>
    obtain ⟨hblank, -⟩ := hplain c List.mem_cons_self
    have hrest : ∀ d ∈ cs, isBlank d = false ∧ d ≠ '\x7d' := fun d hd =>
      hplain d (List.mem_cons_of_mem c hd)
    simp only [List.cons_append, name?, hblank, Bool.false_eq_true, if_false]
    cases cs with
    | nil =>
      have hclosing : closing.isPrefixOf? (closing ++ rest) = some rest :=
        List.isPrefixOf?_eq_some_iff_append_eq.mpr rfl
      simp [hclosing]
    | cons d ds =>
      have hclosing : closing.isPrefixOf? (d :: ds ++ (closing ++ rest)) = none := by
        have hd := (hrest d List.mem_cons_self).2
        simp [closing, List.isPrefixOf?, hd.symm]
      rw [hclosing, ih (by simp) hrest]
      rfl

lemma Name.read (name : Name) (rest : Text) :
    name? (name.text ++ (closing ++ rest)) = some (name.text, rest) :=
  name?_append name.ne_nil (fun c hc => ⟨(name.plain c hc).1, (name.plain c hc).2.2⟩) rest

lemma findTag_tag (name : Name) (rest : Text) :
    findTag [] (Template.written name.text ++ rest) =
      some ⟨name.text, (Template.written name.text).length⟩ := by
  have hopening : opening.isPrefixOf? (Template.written name.text ++ rest) =
      some (name.text ++ (closing ++ rest)) :=
    List.isPrefixOf?_eq_some_iff_append_eq.mpr (by simp [Template.written, opening, closing])
  rw [findTag, hopening, Option.bind_some, name.read, Option.map_some]
  simp [Template.written]
  omega

lemma findTag_literal {c : Char} (h : c ≠ '\x7b') (rest : Text) : findTag [] (c :: rest) = none := by
  simp [findTag, opening, List.isPrefixOf?, h.symm]

lemma findBlock_none {t : Text} (h : ¬ blockOpening <+: t) : findBlock [] t = none := by
  rw [findBlock, Option.bind_eq_none_iff]
  intro rest hrest
  rw [List.isPrefixOf?_eq_some_iff_append_eq] at hrest
  exact absurd ⟨rest, hrest⟩ h

lemma findBlock_block (name : Name) (body : List Inline) (rest : Text) :
    findBlock [] ((Node.block name body).written ++ rest) =
      some ⟨⟨name.text, inlinesWritten body⟩, (Node.block name body).written.length⟩ := by
  have hopening : blockOpening.isPrefixOf? ((Node.block name body).written ++ rest) =
      some (' ' :: (name.text ++ (closing ++ (inlinesWritten body ++ (blockClosing ++ rest))))) :=
    List.isPrefixOf?_eq_some_iff_append_eq.mpr (by simp [Node.written])
  have hnamed : ∀ more, (' ' :: (name.text ++ more)).dropWhile isBlank = name.text ++ more := by
    intro more
    obtain ⟨c, cs, hname⟩ := List.exists_cons_of_ne_nil name.ne_nil
    have hc := (name.plain c (by rw [hname]; exact List.mem_cons_self)).1
    have hspace : isBlank ' ' = true := by decide
    simp [hname, hspace, hc]
  have hbody : Text.breakAt? blockClosing (inlinesWritten body ++ (blockClosing ++ rest)) =
      some (inlinesWritten body, rest) :=
    breakAt?_append (by decide) fun u v huv hv => not_prefix_inlines (.inr rfl) body huv hv _
  rw [findBlock, hopening, Option.bind_some]
  simp only [hnamed]
  rw [if_neg (by simp), name.read, Option.bind_some, hbody, Option.map_some]
  simp [Node.written]
  omega

end Finding

section Passes

variable (value : Text → Text)

/-- The text of a block that is kept. -/
def keptText (b : Block) : Text := if (value b.name).isEmpty then [] else b.body

lemma Inline.findBlock_none (i : Inline) {u v : Text} (hsplit : i.written = u ++ v) (hv : v ≠ [])
    (rest : Text) : findBlock [] (v ++ rest) = none :=
  Template.findBlock_none (i.not_prefix (.inl rfl) hsplit hv rest)

lemma Node.written_ne_nil (name : Name) (body : List Inline) : (Node.block name body).written ≠ [] :=
  List.cons_ne_nil _ _

/-- The blocks of a template are those of its nodes. -/
lemma findAll_findBlock (ns : List Node) :
    Text.findAll findBlock (nodesWritten ns) = ns.filterMap Node.block? := by
  induction ns with
  | nil => rfl
  | cons n ns ih =>
    cases n with
    | inline i =>
      refine Eq.trans ?_ ih
      exact Text.findAll_plain findBlock_local _ _ fun u v huv hv => i.findBlock_none huv hv _
    | block name body =>
      rw [List.filterMap_cons, ← ih]
      exact Text.findAll_hit findBlock_local (findBlock_block name body _) rfl
        (Node.written_ne_nil name body)

/-- Deciding the blocks leaves what the kept nodes write. -/
lemma substitute_findBlock (ns : List Node) :
    Text.substitute findBlock (keptText value) (nodesWritten ns) =
      inlinesWritten (ns.flatMap (Node.kept value)) := by
  induction ns with
  | nil => rfl
  | cons n ns ih =>
    have hkept : inlinesWritten ((n :: ns).flatMap (Node.kept value)) =
        inlinesWritten (n.kept value) ++ inlinesWritten (ns.flatMap (Node.kept value)) := by
      simp [inlinesWritten]
    rw [hkept, ← ih]
    cases n with
    | inline i =>
      refine (Text.substitute_plain findBlock_local i.written (nodesWritten ns)
        fun u v huv hv => i.findBlock_none huv hv _).trans ?_
      simp [Node.kept, inlinesWritten]
    | block name body =>
      refine (Text.substitute_hit findBlock_local (findBlock_block name body (nodesWritten ns)) rfl
        (Node.written_ne_nil name body)).trans ?_
      rw [keptText, Node.kept]
      split <;> rfl

lemma written_ne_nil (name : Text) : Template.written name ≠ [] := List.cons_ne_nil _ _

lemma findTag_none {t : Text} (plain : ∀ c ∈ t, c ≠ '\x7b' ∧ c ≠ '\x7d') {u v : Text}
    (hsplit : t = u ++ v) (hv : v ≠ []) (rest : Text) : findTag [] (v ++ rest) = none := by
  obtain ⟨c, v, rfl⟩ := List.exists_cons_of_ne_nil hv
  exact findTag_literal (plain c (by rw [hsplit]; simp)).1 (v ++ rest)

/-- The tags of what inline nodes write are theirs. -/
lemma findAll_findTag (is : List Inline) :
    Text.findAll findTag (inlinesWritten is) = is.flatMap Inline.used := by
  induction is with
  | nil => rfl
  | cons i is ih =>
    rw [List.flatMap_cons, ← ih]
    cases i with
    | literal t plain =>
      exact Text.findAll_plain findTag_local t _ fun u v huv hv => findTag_none plain huv hv _
    | tag name =>
      exact Text.findAll_hit findTag_local (findTag_tag name _) rfl (written_ne_nil name.text)

/-- Writing the tags leaves the values of the nodes. What a value holds is not looked at again. -/
lemma substitute_findTag (is : List Inline) :
    Text.substitute findTag value (inlinesWritten is) = is.flatMap (Inline.evaluate value) := by
  induction is with
  | nil => rfl
  | cons i is ih =>
    rw [List.flatMap_cons, ← ih]
    cases i with
    | literal t plain =>
      exact Text.substitute_plain findTag_local t _ fun u v huv hv => findTag_none plain huv hv _
    | tag name =>
      exact Text.substitute_hit findTag_local (findTag_tag name _) rfl (written_ne_nil name.text)

end Passes

section Filling

variable {components : Components} {ctx : Context} {value : Text → Text} {ns : List Node}

lemma decideBlocks_written
    (h : ∀ b ∈ ns.filterMap Node.block?, resolve components ctx b.name = .ok (value b.name)) :
    decideBlocks components ctx (nodesWritten ns) =
      .ok (inlinesWritten (ns.flatMap (Node.kept value))) := by
  rw [← substitute_findBlock value ns]
  refine Text.substituteM_eq_ok fun b hb => ?_
  rw [findAll_findBlock] at hb
  rw [h b hb]
  rfl

/-- Filling what nodes write is evaluating the nodes. Only the tags that are needed have to have a
value. -/
theorem fill_nodesWritten
    (h : ∀ name ∈ ns.flatMap (Node.used value), resolve components ctx name = .ok (value name)) :
    fill components ctx (nodesWritten ns) = .ok (ns.flatMap (Node.evaluate value)) := by
  have hused : ∀ n ∈ ns, ∀ name ∈ n.used value, resolve components ctx name = .ok (value name) :=
    fun n hn name hname => h name (List.mem_flatMap.mpr ⟨n, hn, hname⟩)
  have hblocks : decideBlocks components ctx (nodesWritten ns) =
      .ok (inlinesWritten (ns.flatMap (Node.kept value))) := by
    refine decideBlocks_written fun b hb => ?_
    obtain ⟨n, hn, hblock⟩ := List.mem_filterMap.mp hb
    exact hused n hn b.name (by simp [Node.used, hblock])
  have htags : Text.substituteM findTag (resolve components ctx)
      (inlinesWritten (ns.flatMap (Node.kept value))) =
        .ok (Text.substitute findTag value (inlinesWritten (ns.flatMap (Node.kept value)))) := by
    refine Text.substituteM_eq_ok fun name hname => ?_
    rw [findAll_findTag, List.flatMap_assoc] at hname
    obtain ⟨n, hn, hname⟩ := List.mem_flatMap.mp hname
    exact hused n hn name (List.mem_append_right _ hname)
  rw [fill, hblocks]
  refine htags.trans ?_
  rw [substitute_findTag, List.flatMap_assoc]
  rfl

end Filling

section Sample

/-- A page whose values look like templates. -/
def braced : Context where
  title := "\x7b\x7b#if author\x7d\x7d".toList
  author := "\x7b\x7btitle\x7d\x7d".toList

def authorName : Name := ⟨"author".toList, by decide, forall_of_all (by decide), by decide⟩

def titleName : Name := ⟨"title".toList, by decide, forall_of_all (by decide), by decide⟩

def pillName : Name := ⟨"category-pill".toList, by decide, forall_of_all (by decide), by decide⟩

/-- The title, the author if there is one, and the badge of the category if there is one. -/
def heading : List Node :=
  [.inline (.tag titleName),
    .block authorName [.literal " by ".toList (forall_of_all (by decide)), .tag authorName],
    .block pillName [.tag pillName]]

/-- The values of the tags in the heading. -/
def bracedValue (name : Text) : Text :=
  if name = titleName.text then braced.title else if name = authorName.text then braced.author else []

theorem fill_nodesWritten_braced :
    (∀ name ∈ heading.flatMap (Node.used bracedValue),
      resolve Component.builtin braced name = .ok (bracedValue name)) ∧
    nodesWritten heading = ("\x7b\x7btitle\x7d\x7d\x7b\x7b#if author\x7d\x7d by " ++
      "\x7b\x7bauthor\x7d\x7d\x7b\x7b/if\x7d\x7d\x7b\x7b#if category-pill\x7d\x7d" ++
      "\x7b\x7bcategory-pill\x7d\x7d\x7b\x7b/if\x7d\x7d").toList ∧
    fill Component.builtin braced (nodesWritten heading) =
      .ok "\x7b\x7b#if author\x7d\x7d by \x7b\x7btitle\x7d\x7d".toList := by
  have h : ∀ name ∈ heading.flatMap (Node.used bracedValue),
      resolve Component.builtin braced name = .ok (bracedValue name) := by
    have hused : heading.flatMap (Node.used bracedValue) =
        [titleName.text, authorName.text, authorName.text, pillName.text] := by decide
    rw [hused]
    simp only [List.forall_mem_cons, List.not_mem_nil, false_imp_iff, implies_true, and_true]
    exact ⟨rfl, rfl, rfl, rfl⟩
  exact ⟨h, by decide, fill_nodesWritten h⟩

end Sample

end Sitewright.Template
