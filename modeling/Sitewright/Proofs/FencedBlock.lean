import Mathlib.Data.List.Infix
import Sitewright.Markdown.FencedCode
import Sitewright.Proofs.Scan

/-!
Fenced blocks of code. Behind the fence stands an attribute block or the name of a language; what a line is
read as does not change with the text behind what is read.
-/
namespace Sitewright.Markdown.FencedCode

open Text (spanWhile spanWhile_append spanWhile_cut spanWhile_stop)

/-- A run of one character is dropped up to the next character whatever stands behind that. -/
lemma exists_run {t rest : Text} {c d : Char} (h : t.dropWhile (· = c) = d :: rest) :
    ∃ run : Text, t.takeWhile (· = c) = run ∧ t = run ++ d :: rest ∧ (∀ b ∈ run, b = c) ∧
      ∀ x, (run ++ d :: x).dropWhile (· = c) = d :: x := by
  have hrun : ∀ b ∈ t.takeWhile (fun b => decide (b = c)), decide (b = c) = true :=
    fun b hb => Text.mem_spanWhile hb
  have hne : t.dropWhile (fun b => decide (b = c)) ≠ [] := by
    rw [h]
    exact List.cons_ne_nil d rest
  have hd := List.head_dropWhile_not _ hne
  simp only [h, List.head_cons] at hd
  have hsplit : t = t.takeWhile (fun b => decide (b = c)) ++ t.dropWhile (fun b => decide (b = c)) :=
    List.takeWhile_append_dropWhile.symm
  exact ⟨_, rfl, hsplit.trans (congrArg (_ ++ ·) h), fun b hb => of_decide_eq_true (hrun b hb),
    fun x => congrArg Prod.snd (spanWhile_stop hrun hd)⟩

lemma endOfLine?_append {u : Text} (hu : '\n' ∈ u) (x : Text) :
    endOfLine? (u ++ x) = (endOfLine? u).map (· ++ x) := by
  induction u with
  | nil => cases hu
  | cons c cs ih =>
    by_cases hc : c = ' '
    · subst hc
      exact ih (by simpa using hu)
    · have hdrop : ∀ t : Text, (c :: t).dropWhile (· = ' ') = c :: t := fun t => by simp [hc]
      rw [List.cons_append, endOfLine?, endOfLine?, hdrop, hdrop]
      by_cases hfeed : c = '\n'
      · subst hfeed
        rfl
      · simp [hfeed]

lemma endOfLine?_eq_some {t rest : Text} (h : endOfLine? t = some rest) :
    ∃ u, t = u ++ rest ∧ '\n' ∈ u ∧ ∀ x, endOfLine? (u ++ x) = some x := by
  rw [endOfLine?] at h
  split at h
  · rename_i rest' hdrop
    obtain rfl := Option.some.inj h
    obtain ⟨spaces, -, rfl, -, hread⟩ := exists_run hdrop
    refine ⟨spaces ++ ['\n'], by rw [List.append_assoc]; rfl, by simp, fun x => ?_⟩
    rw [List.append_assoc, List.singleton_append, endOfLine?, hread]
    rfl
  · cases h

lemma markedList?_eq_some {quote : Char} {list t marked rest : Text}
    (h : markedList? quote list t = some (marked, rest)) :
    ∃ u, t = u ++ rest ∧ '\n' ∈ u ∧ ∀ x, markedList? quote list (u ++ x) = some (marked, x) := by
  induction t generalizing list with
  | nil => cases h
  | cons c cs ih =>
    rw [markedList?] at h
    cases hend : (if c = quote then endOfLine? cs else none) with
    | some rest' =>
      rw [hend] at h
      obtain ⟨rfl, rfl⟩ := Prod.mk.inj (Option.some.inj h)
      obtain ⟨hquote, hend⟩ := Option.ite_none_right_eq_some.mp hend
      obtain ⟨u, rfl, hu, hread⟩ := endOfLine?_eq_some hend
      refine ⟨c :: u, rfl, List.mem_cons_of_mem c hu, fun x => ?_⟩
      rw [List.cons_append, markedList?, if_pos hquote, hread]
    | none =>
      rw [hend] at h
      obtain ⟨u, rfl, hu, hread⟩ := ih h
      refine ⟨c :: u, rfl, List.mem_cons_of_mem c hu, fun x => ?_⟩
      have hend' : (if c = quote then endOfLine? (u ++ x) else none) = none := by
        split at hend
        · rw [endOfLine?_append hu, Option.map_eq_none_iff] at hend
          rw [endOfLine?_append hu, hend, Option.map_none, ite_self]
        · rename_i hquote
          rw [if_neg hquote]
      rw [List.cons_append, markedList?, hend']
      exact hread x

lemma afterLanguage?_eq_some {t rest : Text} {info : Info} (h : afterLanguage? t = some (info, rest)) :
    ∃ u, t = u ++ rest ∧ '\n' ∈ u ∧ ∀ x, afterLanguage? (u ++ x) = some (info, x) := by
  obtain ⟨word, hword⟩ : ∃ word, "hl_lines=".toList = 'h' :: word := ⟨_, rfl⟩
  rw [afterLanguage?, hword] at h
  split at h
  · rename_i rest' hend
    obtain ⟨rfl, rfl⟩ := Prod.mk.inj (Option.some.inj h)
    obtain ⟨u, ht, hu, hread⟩ := endOfLine?_eq_some hend
    refine ⟨u, ht, hu, fun x => ?_⟩
    rw [afterLanguage?, hread]
  · rename_i hend
    obtain ⟨more, hlead, h⟩ := Option.bind_eq_some_iff.mp h
    rw [List.isPrefixOf?_eq_some_iff_append_eq, List.cons_append] at hlead
    split at h
    · rename_i q list
      obtain ⟨hq, h⟩ := Option.ite_none_right_eq_some.mp h
      obtain ⟨⟨marked, rest'⟩, hmarked, heq⟩ := Option.map_eq_some_iff.mp h
      obtain ⟨rfl, rfl⟩ := Prod.mk.inj heq
      obtain ⟨u, rfl, hu, hread⟩ := markedList?_eq_some hmarked
      obtain ⟨spaces, -, rfl, -, hspaces⟩ := exists_run hlead.symm
      have hcut : ∀ x, spaces ++ 'h' :: (word ++ q :: (u ++ x)) = (spaces ++ 'h' :: (word ++ q :: u)) ++ x := by
        intro x
        simp only [List.append_assoc, List.cons_append]
      have hfeed : '\n' ∈ spaces ++ 'h' :: (word ++ q :: u) := by simp [hu]
      refine ⟨_, hcut rest', hfeed, fun x => ?_⟩
      have hend' : endOfLine? ((spaces ++ 'h' :: (word ++ q :: u)) ++ x) = none := by
        rw [hcut, endOfLine?_append hfeed, Option.map_eq_none_iff] at hend
        rw [endOfLine?_append hfeed, hend, Option.map_none]
      have hlead' : ('h' :: word).isPrefixOf?
          (((spaces ++ 'h' :: (word ++ q :: u)) ++ x).dropWhile (· = ' ')) = some (q :: (u ++ x)) := by
        rw [← hcut, hspaces, List.isPrefixOf?_eq_some_iff_append_eq, List.cons_append]
      rw [afterLanguage?, hend', hword, hlead']
      dsimp only [Option.bind_some]
      rw [if_pos hq, hread]
      rfl
    · cases h

/-- The language at the start of the rest of an opening line, of the given length or shorter: the longest
one behind which the line ends as it may. -/
def nameUpTo (t : Text) : ℕ → Text
  | 0 => []
  | n + 1 => if (afterLanguage? (t.drop (n + 1))).isSome then t.take (n + 1) else nameUpTo t n

lemma nameUpTo_prefix (t : Text) (n : ℕ) : nameUpTo t n <+: t.take n := by
  induction n with
  | zero => exact List.nil_prefix
  | succ n ih =>
    rw [nameUpTo]
    split
    · exact List.prefix_rfl
    · exact ih.trans (List.take_prefix_take_left (Nat.le_succ n))

lemma nameUpTo_takeWhile (t : Text) (p : Char → Bool) : ∀ c ∈ nameUpTo t (t.takeWhile p).length, p c := by
  intro c hc
  have hlead := nameUpTo_prefix t (t.takeWhile p).length
  rw [← List.prefix_iff_eq_take.mp (List.takeWhile_prefix p)] at hlead
  exact List.mem_takeWhile_imp (hlead.subset hc)

lemma takeWhile_cut {p : Char → Bool} {w : Text} {d : Char} (hw : d ∈ w) (hd : p d = false) (x : Text) :
    (w ++ x).takeWhile p = w.takeWhile p := by
  obtain ⟨u, v, rfl⟩ := List.append_of_mem hw
  have hcut : ∀ s, (u ++ d :: s).takeWhile p = u.takeWhile p := fun s => congrArg Prod.fst (spanWhile_cut hd u s)
  rw [List.append_assoc, List.cons_append, hcut, hcut]

/-- The language is what stands in front of the rest of the line as it is read, and it stays the same if the
text ends earlier behind what is read. -/
lemma languageLine?_eq_some {t rest : Text} {n : ℕ} {info : Info} (hn : n ≤ t.length)
    (h : languageLine? t n = some (info, rest)) : ∃ u, t = nameUpTo t n ++ (u ++ rest) ∧ '\n' ∈ u ∧
      (∀ x, afterLanguage? (u ++ x) = some (info, x)) ∧
      ∀ x, x <+: rest → nameUpTo (nameUpTo t n ++ (u ++ x)) n = nameUpTo t n := by
  induction n with
  | zero =>
    obtain ⟨u, ht, hu, hread⟩ := afterLanguage?_eq_some h
    exact ⟨u, ht, hu, hread, fun _ _ => rfl⟩
  | succ n ih =>
    rw [languageLine?] at h
    rw [nameUpTo]
    cases hafter : afterLanguage? (t.drop (n + 1)) with
    | none =>
      rw [hafter] at h
      obtain ⟨u, ht, hu, hread, hname⟩ := ih (Nat.le_of_succ_le hn) h
      refine ⟨u, ht, hu, hread, fun x hx => ?_⟩
      rw [Option.isSome_none, if_neg Bool.false_ne_true]
      -- what a shorter text is read as, the longer one would be read as too
      have hnone : afterLanguage? ((nameUpTo t n ++ (u ++ x)).drop (n + 1)) = none := by
        by_contra hsome
        obtain ⟨⟨info', rest'⟩, hsome⟩ := Option.ne_none_iff_exists'.mp hsome
        obtain ⟨y, hy⟩ := hx
        have hlonger : nameUpTo t n ++ (u ++ x) <+: t :=
          ⟨y, by rw [List.append_assoc, List.append_assoc, hy, ← ht]⟩
        obtain ⟨z, hz⟩ := hlonger.drop (n + 1)
        obtain ⟨w, hw, -, hwread⟩ := afterLanguage?_eq_some hsome
        rw [← hz, hw, List.append_assoc, hwread] at hafter
        cases hafter
      rw [nameUpTo, hnone, Option.isSome_none, if_neg Bool.false_ne_true, hname x hx]
    | some found =>
      rw [hafter] at h
      obtain rfl : found = (info, rest) := Option.some.inj h
      obtain ⟨u, hdrop, hu, hread⟩ := afterLanguage?_eq_some hafter
      rw [Option.isSome_some, if_pos rfl]
      refine ⟨u, ?_, hu, hread, fun x _ => ?_⟩
      · rw [← hdrop, List.take_append_drop]
      · have hlength : (t.take (n + 1)).length = n + 1 := List.length_take_of_le hn
        rw [nameUpTo, List.drop_left' hlength, hread, Option.isSome_some, if_pos rfl, List.take_left' hlength]

/-- The text without a dot in front of it. -/
def undotted : Text → Text
  | '.' :: cs => cs
  | t => t

lemma undotted_eq {t w y : Text} (h : undotted t = w ++ y) (hw : w ≠ []) :
    ∃ dot, (dot = [] ∨ dot = ['.']) ∧ t = dot ++ (w ++ y) ∧ ∀ x, undotted (dot ++ (w ++ x)) = w ++ x := by
  rw [undotted.eq_def] at h
  split at h
  · exact ⟨['.'], .inr rfl, congrArg ('.' :: ·) h, fun _ => rfl⟩
  · rename_i hdot
    obtain ⟨d, w, rfl⟩ := List.exists_cons_of_ne_nil hw
    refine ⟨[], .inl rfl, h, fun x => undotted.eq_2 _ fun cs hcs => hdot (w ++ y) ?_⟩
    obtain rfl := (List.cons.inj hcs).1
    exact h

/-- The language that the rest of an opening line names outside of an attribute block. -/
def lineName (t : Text) : Text := nameUpTo (undotted t) ((undotted t).takeWhile isLanguageChar).length

/-- The language that the rest of an opening line names: the first class of an attribute block, or the name in
front of what else may stand there. -/
def nameIn (info : Info) : Text → Text
  | '\x7b' :: _ => info.language.getD []
  | t => lineName t

/-- A text that starts with the rest of an opening line, what the line asks for, and the language it names. -/
inductive ReadsLine : Text → Info → Text → Prop
  | attributes {attributes info} (code) (hinfo : Info.ofAttributes? attributes = some info)
      (hline : '\n' ∉ attributes) :
      ReadsLine ('\x7b' :: (attributes ++ '\x7d' :: '\n' :: code)) info (info.language.getD [])
  | name {dot language after info code} (hdot : dot = [] ∨ dot = ['.'])
      (hlanguage : ∀ c ∈ language, isLanguageChar c) (hafter : afterLanguage? after = some (info, code)) :
      ReadsLine (dot ++ (language ++ after)) info language

lemma openingLine?_eq_some {t rest : Text} {info : Info} (h : openingLine? t = some (some info, rest)) :
    ∃ u language, t = u ++ rest ∧ '\n' ∈ u ∧
      ∀ x, x <+: rest → ReadsLine (u ++ x) info language ∧ nameIn info (u ++ x) = language := by
  rw [openingLine?.eq_def] at h
  split at h
  · rename_i body
    split at h
    · rename_i line rest' hcut
      split at h
      · rename_i attributes hline
        obtain ⟨hinfo, rfl⟩ := Prod.mk.inj (Option.some.inj h)
        obtain ⟨rfl, hnot⟩ := Text.cutLine_eq_some.mp hcut
        have hline' : line = attributes.reverse ++ ['\x7d'] := by
          rw [← List.reverse_reverse line, hline, List.reverse_cons]
        rw [hline', List.mem_append, not_or] at hnot
        refine ⟨'\x7b' :: (line ++ ['\n']), info.language.getD [], ?_, by simp, fun x hx => ⟨?_, rfl⟩⟩
        · simp
        · have hreads := ReadsLine.attributes x hinfo hnot.1
          simpa [hline'] using hreads
      · cases h
    · cases h
  · rename_i hbrace
    obtain ⟨⟨info', rest'⟩, hfound, heq⟩ := Option.map_eq_some_iff.mp h
    obtain ⟨rfl, rfl⟩ : info' = info ∧ rest' = rest := by simpa using heq
    replace hfound : languageLine? (undotted t) ((undotted t).takeWhile isLanguageChar).length =
        some (info', rest') := by
      split at hfound
      · exact hfound
      · rename_i hdot
        rwa [undotted.eq_2 t hdot]
    obtain ⟨u, hline, hu, hread, hname⟩ :=
      languageLine?_eq_some (List.takeWhile_prefix isLanguageChar).length_le hfound
    have hlanguage := nameUpTo_takeWhile (undotted t) isLanguageChar
    generalize nameUpTo (undotted t) ((undotted t).takeWhile isLanguageChar).length = language at hline hname hlanguage
    rw [← List.append_assoc] at hline
    have hfeed : '\n' ∈ language ++ u := List.mem_append_right language hu
    obtain ⟨dot, hdot, rfl, hundotted⟩ := undotted_eq hline (List.ne_nil_of_mem hfeed)
    rw [hundotted, takeWhile_cut hfeed (by decide)] at hname
    refine ⟨dot ++ (language ++ u), language, (List.append_assoc _ _ _).symm, by simp [hu], fun x hx => ?_⟩
    rw [List.append_assoc]
    refine ⟨?_, ?_⟩
    · rw [List.append_assoc]
      exact .name hdot hlanguage (hread x)
    · rw [nameIn.eq_2 _ _ fun body hbody => ?_, lineName, hundotted, takeWhile_cut hfeed (by decide)]
      · rw [List.append_assoc]
        exact hname x hx
      · obtain ⟨d, w, hw⟩ := List.exists_cons_of_ne_nil (List.append_ne_nil_of_right_ne_nil dot (List.ne_nil_of_mem hfeed))
        rw [← List.append_assoc, hw] at hbody hbrace
        obtain rfl := (List.cons.inj hbody).1
        exact hbrace _ rfl

/-- What stands behind the fence and the spaces at the start of a text. -/
def behindFence : Text → Text
  | [] => []
  | c :: cs => (cs.dropWhile (· = c)).dropWhile (· = ' ')

/-- The fence and the spaces end before the next character whatever stands behind that. -/
lemma exists_fence {c d : Char} {cs rest : Text} (h : behindFence (c :: cs) = d :: rest) :
    ∃ fence spaces : Text, (c :: cs).takeWhile (· = c) = fence ∧ (∀ b ∈ fence, b = c) ∧ (∀ b ∈ spaces, b = ' ') ∧
      c :: cs = fence ++ (spaces ++ d :: rest) ∧ ∀ x, behindFence (fence ++ (spaces ++ d :: x)) = d :: x := by
  rw [behindFence] at h
  obtain ⟨spaces, -, hspaces, hblank, hdropSpaces⟩ := exists_run h
  obtain ⟨e, he⟩ : ∃ e, ∀ x, ∃ y, spaces ++ d :: x = e :: y := by
    cases spaces with
    | nil => exact ⟨d, fun x => ⟨x, rfl⟩⟩
    | cons e spaces => exact ⟨e, fun x => ⟨spaces ++ d :: x, rfl⟩⟩
  obtain ⟨y, hy⟩ := he rest
  obtain ⟨run, hrun, hcs, hsame, hdropRun⟩ := exists_run (hspaces.trans hy)
  refine ⟨c :: run, spaces, ?_, fun b hb => ?_, hblank, ?_, fun x => ?_⟩
  · rw [List.takeWhile_cons_of_pos (by simp), hrun]
  · rcases List.mem_cons.mp hb with rfl | hb
    · rfl
    · exact hsame b hb
  · rw [List.cons_append, hy, ← hcs]
  · obtain ⟨y, hy⟩ := he x
    rw [List.cons_append, behindFence, hy, hdropRun, ← hy, hdropSpaces]

/-- The language that the opening line of a block names. -/
def nameOf (block : Text × Block) : Text := nameIn block.2.info (behindFence block.1)

/-- The language of a block, `text` if its opening line names none. -/
def languageOf (block : Text × Block) : Text :=
  if (nameOf block).isEmpty then "text".toList else nameOf block

/-- A block starts with its fence, spaces, and the rest of its opening line, which names the language. -/
def Opens (block : Text × Block) (language : Text) : Prop :=
  ∃ c n spaces rest, (c = '`' ∨ c = '~') ∧ 3 ≤ n ∧ (∀ d ∈ spaces, d = ' ') ∧
    block.1 = List.replicate n c ++ (spaces ++ rest) ∧ ReadsLine rest block.2.info language

lemma find_eq_some {before after : Text} {hit : Text.Hit Block} (h : find before after = some hit) :
    ∃ c cs info body code size, after = c :: cs ∧ (c = '`' ∨ c = '~') ∧ 3 ≤ (after.takeWhile (· = c)).length ∧
      openingLine? (behindFence after) = some (some info, body) ∧
      codeUntil? (after.takeWhile (· = c)) body = some (code, size) ∧
      hit = ⟨⟨info, code⟩, after.length - body.length + size⟩ := by
  obtain ⟨-, h⟩ := Option.ite_none_right_eq_some.mp h
  split at h
  · cases h
  · rename_i c cs _
    dsimp only [spanWhile] at h
    obtain ⟨hfence, h⟩ := Option.ite_none_right_eq_some.mp h
    obtain ⟨⟨info?, body⟩, hline, h⟩ := Option.bind_eq_some_iff.mp h
    obtain ⟨⟨code, size⟩, hcode, h⟩ := Option.bind_eq_some_iff.mp h
    obtain ⟨info, rfl, rfl⟩ := Option.map_eq_some_iff.mp h
    simp only [Bool.and_eq_true, Bool.or_eq_true, decide_eq_true_eq] at hfence
    rw [List.dropWhile_cons_of_pos (by simp)] at hline
    exact ⟨c, cs, info, body, code, size, rfl, hfence.1, hfence.2, hline, hcode, rfl⟩

/-- A block that is found opens with the language that is read off it. -/
lemma find_opens {before after : Text} {hit : Text.Hit Block} (h : find before after = some hit) :
    Opens (after.take hit.size, hit.value) (nameOf (after.take hit.size, hit.value)) := by
  obtain ⟨c, cs, info, body, code, size, rfl, hchar, hcount, hline, -, rfl⟩ := find_eq_some h
  obtain ⟨u, language, hrest, hfeed, hread⟩ := openingLine?_eq_some hline
  obtain ⟨d, u, rfl⟩ := List.exists_cons_of_ne_nil (List.ne_nil_of_mem hfeed)
  obtain ⟨fence, spaces, hfence, hsame, hblank, htext, hbehind⟩ := exists_fence hrest
  obtain ⟨hreads, hname⟩ := hread _ (List.take_prefix size body)
  have htake : (c :: cs).take ((c :: cs).length - body.length + size) =
      fence ++ (spaces ++ d :: (u ++ body.take size)) := by
    have hsplit : c :: cs = (fence ++ (spaces ++ d :: u)) ++ body := by
      rw [htext]
      simp
    rw [hsplit, List.length_append, Nat.add_sub_cancel, List.take_length_add_append]
    simp
  dsimp only
  rw [nameOf, htake, hbehind]
  rw [hfence] at hcount
  refine ⟨c, fence.length, spaces, d :: (u ++ body.take size), hchar, hcount, hblank, ?_, ?_⟩
  · rw [← List.eq_replicate_of_mem hsame]
  · rwa [← hname] at hreads

lemma codeUntil?_le {fence t code : Text} {size : ℕ} (h : codeUntil? fence t = some (code, size)) :
    size ≤ t.length := by
  obtain ⟨⟨code', size'⟩, hbreak, heq⟩ := Option.map_eq_some_iff.mp h
  obtain ⟨rfl, rfl⟩ := Prod.mk.inj heq
  obtain ⟨rest, rfl, hclose, -⟩ := Text.breakAtLine_some hbreak
  obtain ⟨rest', hfence, hclose⟩ := Option.bind_eq_some_iff.mp hclose
  obtain ⟨-, hclose⟩ := Option.ite_none_right_eq_some.mp hclose
  rw [List.isPrefixOf?_eq_some_iff_append_eq] at hfence
  have hspaces := (List.takeWhile_prefix (fun c => decide (c = ' ')) (l := rest')).length_le
  obtain rfl := Option.some.inj hclose
  have hrest : fence.length + rest'.length = rest.length := by
    rw [← hfence, List.length_append]
  rw [List.length_append, ← hrest]
  exact Nat.add_le_add_left (Nat.add_le_add_left hspaces _) _

lemma exact_find : find.withSource.Exact Prod.fst := by
  refine Text.Finder.exact_withSource fun before after hit h => ?_
  obtain ⟨c, cs, info, body, code, size, rfl, -, -, hline, hcode, rfl⟩ := find_eq_some h
  obtain ⟨u, language, hrest, hfeed, -⟩ := openingLine?_eq_some hline
  obtain ⟨d, u, rfl⟩ := List.exists_cons_of_ne_nil (List.ne_nil_of_mem hfeed)
  obtain ⟨fence, spaces, -, -, -, htext, -⟩ := exists_fence hrest
  have hlength : (c :: cs).length = fence.length + (spaces.length + ((u.length + body.length) + 1)) := by
    rw [htext]
    simp
  have hsize := codeUntil?_le hcode
  dsimp only
  omega

/-- A fenced block of a text opens with the language that is read off it. -/
theorem opens_of_mem {t : Text} {block : Text × Block} (h : block ∈ Text.findAll find.withSource t) :
    Opens block (nameOf block) := by
  obtain ⟨before, after, size, hfind, htake⟩ :=
    Text.find_of_mem_withSource exact_find (Text.mem_constructs.mp h)
  have hopens := find_opens hfind
  dsimp only at hopens
  rwa [htake] at hopens

/-- What is kept of the blocks is their HTML. -/
lemma extractFrom_kept (kept : List Text) (ps : List (Text.Piece Block)) :
    (extractFrom kept ps).2 = kept ++ (Text.constructs ps).map Block.html := by
  induction ps generalizing kept with
  | nil => exact (List.append_nil kept).symm
  | cons p ps ih =>
    cases p with
    | plain t => exact ih kept
    | found b =>
      refine (ih (kept ++ [b.html])).trans ?_
      rw [List.append_assoc]
      rfl

end Sitewright.Markdown.FencedCode
