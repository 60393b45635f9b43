import Mathlib.Data.List.Forall2
import Sitewright.Proofs.Splitting
import Sitewright.Text.Digit

/-!
Reading JSON. The reader takes every JSON text, with white space between its parts, all escapes and
numbers of any form; it refuses what is none, such as a control character inside a string or half a
surrogate pair. Items between commas are read when each of them is, whatever comes behind it.
-/
namespace Sitewright

/-- What a JSON text says. A number is kept as it is written. -/
inductive Json where
  | null
  | bool (b : Bool)
  | number (t : Text)
  | string (t : Text)
  | array (items : List Json)
  | object (fields : List (Text × Json))

namespace Json

def isSpace (c : Char) : Bool := c = ' ' || c = '\t' || c = '\n' || c = '\r'

def skip (t : Text) : Text := t.dropWhile isSpace

section Strings

/-- The number that four hexadecimal digits write. -/
def unit? (t : Text) : Option (ℕ × Text) :=
  if t.length < 4 then none
  else ((t.take 4).mapM Text.hexValue?).map fun ds => (Text.natOfDigits 16 ds, t.drop 4)

/-- The character with the number that is written; two surrogates in a row write one beyond
sixteen bits. -/
def numbered? (t : Text) : Option (Char × Text) :=
  (unit? t).bind fun (n, rest) =>
    if n < 0xD800 || 0xE000 ≤ n then some (Char.ofNat n, rest)
    else match rest with
      | '\\' :: 'u' :: rest => (unit? rest).bind fun (m, rest) =>
        if n < 0xDC00 && 0xDC00 ≤ m && m < 0xE000 then
          some (Char.ofNat (0x10000 + (n - 0xD800) * 0x400 + (m - 0xDC00)), rest)
        else none
      | _ => none

/-- The character that a letter behind a backslash stands for. -/
def escaped? (c : Char) : Option Char :=
  if c = '"' || c = '\\' || c = '/' then some c
  else if c = 'b' then some (Char.ofNat 8)
  else if c = 'f' then some (Char.ofNat 12)
  else if c = 'n' then some '\n'
  else if c = 'r' then some '\r'
  else if c = 't' then some '\t'
  else none

/-- A character inside a string. -/
def char? : Text → Option (Char × Text)
  | [] => none
  | c :: rest =>
    if c = '\\' then
      match rest with
      | [] => none
      | d :: more => if d = 'u' then numbered? more else (escaped? d).map fun e => (e, more)
    else if c.toNat < 32 then none
    else some (c, rest)

/-- The characters up to the closing quote. -/
def chars? : ℕ → Text → Option (Text × Text)
  | 0, _ => none
  | n + 1, t =>
    if t.head? = some '"' then some ([], t.tail)
    else (char? t).bind fun (c, rest) => (chars? n rest).map fun (cs, rest) => (c :: cs, rest)

def string? (t : Text) : Option (Text × Text) :=
  match t with
  | '"' :: rest => chars? rest.length rest
  | _ => none

end Strings

section Numbers

/-- Digits, at least one. -/
def digits? (t : Text) : Option (Text × Text) :=
  match Text.spanWhile Char.isDigit t with
  | ([], _) => none
  | (ds, rest) => some (ds, rest)

/-- One of some characters, or nothing. -/
def mark (marks : List Char) (t : Text) : Text × Text :=
  match t with
  | c :: rest => if marks.contains c then ([c], rest) else ([], t)
  | [] => ([], [])

/-- A mark and digits behind it, which may begin with one of some signs; nothing where the mark is
absent. -/
def part? (marks signs : List Char) (t : Text) : Option (Text × Text) :=
  match mark marks t with
  | ([], _) => some ([], t)
  | (m, rest) =>
    let (sign, rest) := mark signs rest
    (digits? rest).map fun (ds, rest) => (m ++ sign ++ ds, rest)

/-- A number. Its whole part has no leading zero. -/
def number? (t : Text) : Option (Text × Text) :=
  let (sign, t) := mark ['-'] t
  (digits? t).bind fun (whole, t) =>
    if whole.head? = some '0' && whole.length ≠ 1 then none
    else (part? ['.'] [] t).bind fun (fraction, t) =>
      (part? ['e', 'E'] ['+', '-'] t).map fun (exponent, t) =>
        (sign ++ whole ++ fraction ++ exponent, t)

end Numbers

section Items

variable {α : Type}

/-- Items between commas, at least one, up to a closing character. -/
def items? (item : Text → Option (α × Text)) (close : Char) : ℕ → Text → Option (List α × Text)
  | 0, _ => none
  | n + 1, t => (item (skip t)).bind fun (a, rest) =>
    match skip rest with
    | [] => none
    | c :: rest =>
      if c = close then some ([a], rest)
      else if c = ',' then (items? item close n rest).map fun (as, rest) => (a :: as, rest)
      else none

/-- Items between commas up to a closing character, which may come at once. -/
def enclosed? (item : Text → Option (α × Text)) (close : Char) (t : Text) : Option (List α × Text) :=
  if (skip t).head? = some close then some ([], (skip t).tail) else items? item close t.length t

end Items

/-- A name, a colon and a value. -/
def field? (value : Text → Option (Json × Text)) (t : Text) : Option ((Text × Json) × Text) :=
  (string? t).bind fun (name, rest) =>
    match skip rest with
    | ':' :: rest => (value (skip rest)).map fun (v, rest) => ((name, v), rest)
    | _ => none

/-- The words that are values. -/
def words : List (Text × Json) :=
  [("null".toList, null), ("true".toList, bool true), ("false".toList, bool false)]

def word? (t : Text) : Option (Json × Text) :=
  words.findSome? fun (word, v) => (word.isPrefixOf? t).map fun rest => (v, rest)

/-- A value that is nested no deeper than so many levels. -/
def value? : ℕ → Text → Option (Json × Text)
  | 0, _ => none
  | n + 1, t =>
    match t with
    | '"' :: _ => (string? t).map fun (t, rest) => (string t, rest)
    | '[' :: rest => (enclosed? (value? n) ']' rest).map fun (vs, rest) => (array vs, rest)
    | '\x7b' :: rest =>
      (enclosed? (field? (value? n)) '\x7d' rest).map fun (fields, rest) => (object fields, rest)
    | _ => (word? t).or ((number? t).map fun (t, rest) => (number t, rest))

/-- The value of a JSON text. No text is nested deeper than it is long. -/
def read? (t : Text) : Option Json :=
  (value? t.length (skip t)).bind fun (v, rest) => if (skip rest).isEmpty then some v else none

section Reads

variable {α : Type} {item : Text → Option (α × Text)} {close : Char}

/-- A text is read as one item, whatever follows it, and nothing in front of it is passed over. -/
structure Reads (item : Text → Option (α × Text)) (t : Text) (a : α) : Prop where
  read : ∀ rest, item (t ++ rest) = some (a, rest)
  start : ∃ c ∈ t.head?, isSpace c = false ∧ c ≠ ']' ∧ c ≠ '\x7d'

lemma skip_cons {c : Char} (h : isSpace c = false) (t : Text) : skip (c :: t) = c :: t :=
  List.dropWhile_cons_of_neg (by simp [h])

lemma Reads.skip {t : Text} {a : α} (h : Reads item t a) (rest : Text) :
    skip (t ++ rest) = t ++ rest := by
  obtain ⟨c, hc, hspace, -⟩ := h.start
  obtain ⟨more, rfl⟩ := List.head?_eq_some_iff.mp hc
  exact skip_cons hspace (more ++ rest)

lemma Reads.length_pos {t : Text} {a : α} (h : Reads item t a) : 0 < t.length := by
  obtain ⟨c, hc, -⟩ := h.start
  obtain ⟨more, rfl⟩ := List.head?_eq_some_iff.mp hc
  exact Nat.succ_pos _

lemma length_le_join {ts : List Text} {as : List α} (h : List.Forall₂ (Reads item) ts as) :
    ts.length ≤ (Text.join [','] ts).length := by
  induction h with
  | nil => exact Nat.le_refl 0
  | @cons t a ts as ht hts ih =>
    have hpos := ht.length_pos
    cases ts with
    | nil => exact hpos
    | cons u us =>
      simp only [Text.join, List.length_append, List.length_cons] at ih ⊢
      omega

lemma items?_join {ts : List Text} {as : List α} (h : List.Forall₂ (Reads item) ts as)
    (hne : ts ≠ []) (hspace : isSpace close = false) (hcomma : ',' ≠ close) {n : ℕ}
    (hn : ts.length ≤ n) (rest : Text) :
    items? item close n (Text.join [','] ts ++ close :: rest) = some (as, rest) := by
  induction h generalizing n with
  | nil => exact absurd rfl hne
  | @cons t a ts as ht hts ih =>
    cases n with
    | zero => cases hn
    | succ n =>
      cases hts with
      | nil =>
        rw [Text.join, items?, ht.skip, ht.read, Option.bind_some]
        simp only [skip_cons hspace, if_true]
      | @cons u b us bs hu hus =>
        have hrest := ih (List.cons_ne_nil u us) (Nat.le_of_succ_le_succ hn)
        rw [Text.join, List.append_assoc, List.append_assoc, items?, ht.skip, ht.read,
          Option.bind_some, List.singleton_append]
        simp only [skip_cons (c := ',') (by decide), hcomma, if_false, if_true, hrest, Option.map_some]

/-- Items between commas are read in a row. -/
lemma enclosed?_join {ts : List Text} {as : List α} (h : List.Forall₂ (Reads item) ts as)
    (hclose : close = ']' ∨ close = '\x7d') (rest : Text) :
    enclosed? item close (Text.join [','] ts ++ close :: rest) = some (as, rest) := by
  have hspace : isSpace close = false := by
    rcases hclose with rfl | rfl <;> rfl
  have hcomma : ',' ≠ close := by
    rcases hclose with rfl | rfl <;> decide
  cases h with
  | nil =>
    rw [Text.join, List.nil_append, enclosed?, skip_cons hspace]
    exact if_pos rfl
  | @cons t a ts as ht hts =>
    have hall : List.Forall₂ (Reads item) (t :: ts) (a :: as) := .cons ht hts
    obtain ⟨more, hmore⟩ : ∃ more, Text.join [','] (t :: ts) ++ close :: rest = t ++ more := by
      cases ts with
      | nil => exact ⟨_, rfl⟩
      | cons u us => exact ⟨_, by rw [Text.join, List.append_assoc, List.append_assoc]⟩
    obtain ⟨c, hc, -, hbracket, hbrace⟩ := ht.start
    have hother : (t ++ more).head? ≠ some close := by
      rw [List.head?_append, Option.mem_def.mp hc]
      rcases hclose with rfl | rfl <;> simpa
    have hskip : Json.skip (Text.join [','] (t :: ts) ++ close :: rest) = t ++ more := by
      rw [hmore, ht.skip]
    have hlength := length_le_join hall
    rw [enclosed?, hskip, if_neg hother]
    apply items?_join hall (List.cons_ne_nil t ts) hspace hcomma
    rw [List.length_append]
    omega

variable {n : ℕ}

lemma reads_null : Reads (value? (n + 1)) "null".toList null :=
  ⟨fun _ => rfl, 'n', rfl, by decide⟩

lemma reads_string {t s : Text} (h : ∀ rest, string? ('"' :: t ++ rest) = some (s, rest)) :
    Reads (value? (n + 1)) ('"' :: t) (string s) := by
  refine ⟨fun rest => ?_, '"', rfl, by decide⟩
  have hread := h rest
  rw [List.cons_append] at hread ⊢
  simp only [value?, hread, Option.map_some]

lemma reads_array {ts : List Text} {vs : List Json} (h : List.Forall₂ (Reads (value? n)) ts vs) :
    Reads (value? (n + 1)) ('[' :: Text.join [','] ts ++ [']']) (array vs) := by
  refine ⟨fun rest => ?_, '[', rfl, by decide⟩
  have hread := enclosed?_join h (.inl rfl) rest
  simp only [List.cons_append, List.append_assoc, List.nil_append, value?, hread, Option.map_some]

lemma reads_object {ts : List Text} {fields : List (Text × Json)}
    (h : List.Forall₂ (Reads (field? (value? n))) ts fields) :
    Reads (value? (n + 1)) ('\x7b' :: Text.join [','] ts ++ ['\x7d']) (object fields) := by
  refine ⟨fun rest => ?_, '\x7b', rfl, by decide⟩
  have hread := enclosed?_join h (.inr rfl) rest
  simp only [List.cons_append, List.append_assoc, List.nil_append, value?, hread, Option.map_some]

lemma reads_field {t name valueText : Text} {v : Json}
    (hname : ∀ rest, string? ('"' :: t ++ rest) = some (name, rest))
    (hvalue : Reads (value? n) valueText v) :
    Reads (field? (value? n)) ('"' :: t ++ ':' :: valueText) (name, v) := by
  refine ⟨fun rest => ?_, '"', rfl, by decide⟩
  rw [List.append_assoc, field?, hname, Option.bind_some, List.cons_append]
  simp only [skip_cons (c := ':') (by decide), hvalue.skip, hvalue.read, Option.map_some]

/-- What is read whatever follows it is a JSON text by itself. -/
lemma read?_of_reads {t : Text} {v : Json} (h : Reads (value? t.length) t v) : read? t = some v := by
  have hskip := h.skip []
  have hread := h.read []
  rw [List.append_nil] at hskip hread
  rw [read?, hskip, hread]
  rfl

end Reads

end Json
end Sitewright
