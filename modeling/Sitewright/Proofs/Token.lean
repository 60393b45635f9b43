import Mathlib.Tactic.IntervalCases
import Sitewright.Proofs.Number
import Sitewright.Proofs.Scan
import Sitewright.RawBlock

/-!
Where tokens stand in a text. A token is a word, the nonce, and a number between two marks. The
nonce is hexadecimal, so no token starts inside another one, nor in text that lacks the nonce.
-/
namespace Sitewright

namespace Digest

/-- The digits that a digest is written with. -/
def digits : Text := "0123456789abcdef".toList

lemma hexDigit_mem : ∀ n < 16, hexDigit n ∈ digits := by decide

lemma mem_digits_of_mem_hex {n width : ℕ} {c : Char} (h : c ∈ hex n width) : c ∈ digits := by
  induction width with
  | zero => cases h
  | succ width ih =>
    rcases List.mem_cons.mp h with rfl | h
    · exact hexDigit_mem _ (Nat.mod_lt _ (by decide))
    · exact ih h

lemma mem_digits_of_mem_sha1 {t : Text} {c : Char} (h : c ∈ sha1 t) : c ∈ digits := by
  obtain ⟨w, -, hc⟩ := List.mem_flatMap.mp h
  exact mem_digits_of_mem_hex hc

lemma mem_digits_of_isDigit {c : Char} (h : c.isDigit = true) : c ∈ digits := by
  simp only [Char.isDigit, Bool.and_eq_true, decide_eq_true_eq, UInt32.le_iff_toNat_le] at h
  have hlow : 48 ≤ c.toNat := h.1
  have hhigh : c.toNat ≤ 57 := h.2
  rw [← Char.ofNat_toNat c]
  generalize c.toNat = k at hlow hhigh
  interval_cases k <;> decide

end Digest

namespace Text

lemma isBlank_of_mem_blankLine : ∀ c ∈ "\n\n".toList, isBlank c = true := forall_of_all (by decide)

/-- Two beginnings of one text agree as far as both reach. -/
lemma take_length_of_append_eq {a b x y : Text} (h : a ++ x = b ++ y) :
    a.take b.length = b.take a.length := by
  have htake := congrArg (List.take (min a.length b.length)) h
  rw [List.take_append_of_le_length (Nat.min_le_left ..),
    List.take_append_of_le_length (Nat.min_le_right ..)] at htake
  rcases le_total a.length b.length with hle | hle
  · rw [min_eq_left hle, List.take_length] at htake
    rw [List.take_of_length_le hle]
    exact htake
  · rw [min_eq_right hle, List.take_length] at htake
    rw [List.take_of_length_le hle]
    exact htake

/-- What lacks the first character of the rest lies before it. -/
lemma prefix_of_head_not_mem {word t rest : Text} (h : word <+: t ++ rest)
    (hrest : ∀ d ∈ rest.head?, d ∉ word) : word <+: t := by
  obtain ⟨s, hs⟩ := h
  rcases List.append_eq_append_iff.mp hs with ⟨a, rfl, -⟩ | ⟨a, rfl, rfl⟩
  · exact List.prefix_append _ _
  · cases a with
    | nil => simp
    | cons d a => exact absurd (by simp) (hrest d rfl)

end Text

namespace RawTable
open Text (spanWhile spanWhile_stop spanWhile_eq)

/-- The words that tokens start with. -/
def words : List Text := ["<!--flint-raw-".toList, "flintraw".toList]

/-- No word starts inside a word. -/
lemma words_apart : ∀ word ∈ words, ∀ word' ∈ words, ∀ n < word.length, n ≠ 0 →
    (word.drop n).take word'.length ≠ word'.take (word.drop n).length := by decide

/-- The second character of a word is in no nonce and marks no number. -/
lemma words_start : ∀ word ∈ words, ∃ c d more, word = c :: d :: more ∧ c ∈ ['<', 'f'] ∧
    d ∉ Digest.digits ∧ d ∉ ['-', 'i'] := by
  intro word hword
  simp only [words, List.mem_cons, List.not_mem_nil, or_false] at hword
  rcases hword with rfl | rfl
  · exact ⟨'<', '!', _, rfl, by decide, by decide, by decide⟩
  · exact ⟨'f', 'l', _, rfl, by decide, by decide, by decide⟩

/-- The shape that all tokens share: a word, the nonce, a mark, and a number with what closes it. -/
structure TokenLike (nonce token word number : Text) (mark : Char) : Prop where
  word_mem : word ∈ words
  mark_mem : mark ∈ ['-', 'i']
  number_mem : ∀ c ∈ number, Text.isDigit c = true ∨ c ∈ ['-', '>', 'x']
  eq : token = word ++ (nonce ++ mark :: number)

/-- A token of the nonce, whatever its number. -/
def IsToken (nonce token : Text) : Prop := ∃ word number mark, TokenLike nonce token word number mark

lemma IsToken.head {nonce token : Text} (h : IsToken nonce token) :
    ∃ c t, token = c :: t ∧ c ∈ ['<', 'f'] := by
  obtain ⟨word, number, mark, hlike⟩ := h
  obtain ⟨c, d, w, rfl, hc, -⟩ := words_start word hlike.word_mem
  exact ⟨c, _, hlike.eq, hc⟩

lemma IsToken.nonce_infix {nonce token : Text} (h : IsToken nonce token) : nonce <:+: token := by
  obtain ⟨word, number, mark, hlike⟩ := h
  exact ⟨word, mark :: number, by rw [hlike.eq, List.append_assoc]⟩

lemma isToken_of_digits {word digits close : Text} {mark : Char} (hword : word ∈ words)
    (hmark : mark ∈ ['-', 'i']) (hdigits : ∀ c ∈ digits, Text.isDigit c = true)
    (hclose : ∀ c ∈ close, c ∈ ['-', '>', 'x']) (nonce : Text) :
    IsToken nonce (word ++ (nonce ++ mark :: (digits ++ close))) := by
  refine ⟨word, _, mark, hword, hmark, fun c hc => ?_, rfl⟩
  rcases List.mem_append.mp hc with hc | hc
  · exact Or.inl (hdigits c hc)
  · exact Or.inr (hclose c hc)

lemma isToken_block (nonce : Text) {digits : Text} (h : ∀ c ∈ digits, Text.isDigit c = true) :
    IsToken nonce (blockLead nonce ++ digits ++ "-->".toList) := by
  unfold blockLead
  simp only [List.append_assoc, List.cons_append, List.nil_append]
  exact isToken_of_digits (by simp [words]) (by simp) h (by simp) nonce

lemma isToken_inline (nonce : Text) {digits : Text} (h : ∀ c ∈ digits, Text.isDigit c = true) :
    IsToken nonce (inlineLead nonce ++ digits ++ ['x']) := by
  unfold inlineLead
  simp only [List.append_assoc, List.cons_append, List.nil_append]
  exact isToken_of_digits (by simp [words]) (by simp) h (by simp) nonce

lemma isToken_blockToken (nonce : Text) (n : ℕ) : IsToken nonce (blockToken nonce n) :=
  isToken_block nonce fun _ => Text.isDigit_of_mem_ofNat

lemma isToken_inlineToken (nonce : Text) (n : ℕ) : IsToken nonce (inlineToken nonce n) :=
  isToken_inline nonce fun _ => Text.isDigit_of_mem_ofNat

lemma blockToken_injective {nonce : Text} {m n : ℕ} (h : blockToken nonce m = blockToken nonce n) :
    m = n :=
  Text.ofNat_injective (List.append_cancel_left (List.append_cancel_right h))

lemma inlineToken_injective {nonce : Text} {m n : ℕ}
    (h : inlineToken nonce m = inlineToken nonce n) : m = n :=
  Text.ofNat_injective (List.append_cancel_left (List.append_cancel_right h))

lemma blockToken_ne_inlineToken (nonce : Text) (m n : ℕ) :
    blockToken nonce m ≠ inlineToken nonce n :=
  fun h => absurd (congrArg List.head? h) (by decide : some '<' ≠ some 'f')

/-- What tokens are written with, but for the brackets of a comment. -/
def letters : Text := "flint-rawx".toList ++ Digest.digits

lemma mem_letters_of_mem_ofNat {n : ℕ} {c : Char} (h : c ∈ Text.ofNat n) : c ∈ letters :=
  List.mem_append_right _
    (Digest.mem_digits_of_isDigit (Nat.isDigit_of_mem_toDigits (by decide) (by decide) h))

section Letters

variable {nonce : Text} (hnonce : ∀ c ∈ nonce, c ∈ Digest.digits)
include hnonce

lemma mem_letters_of_mem_inlineToken {n : ℕ} {c : Char} (h : c ∈ inlineToken nonce n) :
    c ∈ letters := by
  have hword : ∀ c ∈ "flintraw".toList ++ ['i', 'x'], c ∈ "flint-rawx".toList :=
    Text.forall_of_all (by decide)
  unfold inlineToken inlineLead at h
  simp only [List.mem_append, List.mem_singleton] at h
  rcases h with (((h | h) | rfl) | h) | rfl
  · exact List.mem_append_left _ (hword c (List.mem_append_left _ h))
  · exact List.mem_append_right _ (hnonce c h)
  · exact List.mem_append_left _ (hword _ (by simp))
  · exact mem_letters_of_mem_ofNat h
  · exact List.mem_append_left _ (hword _ (by simp))

/-- The token of a fence is a comment whose content does not end in a dash. -/
lemma blockToken_eq (n : ℕ) : ∃ body, blockToken nonce n = "<!--".toList ++ (body ++ "-->".toList) ∧
    (∀ c ∈ body, c ∈ letters) ∧ body.getLast? ≠ some '-' := by
  refine ⟨"flint-raw-".toList ++ nonce ++ ['-'] ++ Text.ofNat n, ?_, ?_, ?_⟩
  · unfold blockToken blockLead
    simp
  · have hword : ∀ c ∈ "flint-raw-".toList, c ∈ "flint-rawx".toList :=
    Text.forall_of_all (by decide)
    intro c h
    simp only [List.mem_append, List.mem_singleton] at h
    rcases h with ((h | h) | rfl) | h
    · exact List.mem_append_left _ (hword c h)
    · exact List.mem_append_right _ (hnonce c h)
    · exact List.mem_append_left _ (by simp)
    · exact mem_letters_of_mem_ofNat h
  · have hne : Text.ofNat n ≠ [] := Nat.toDigits_ne_nil
    rw [List.getLast?_append_of_ne_nil _ hne, List.getLast?_eq_some_getLast hne]
    have hdigit := Nat.isDigit_of_mem_toDigits (by decide) (by decide) (List.getLast_mem hne)
    intro h
    rw [Option.some.inj h] at hdigit
    cases hdigit

lemma forall_tail_blockToken {p : Char → Prop} (hmarks : ∀ c ∈ "!->".toList, p c)
    (hletters : ∀ c ∈ letters, p c) (n : ℕ) : ∀ c ∈ (blockToken nonce n).tail, p c := by
  obtain ⟨body, htoken, hbody, -⟩ := blockToken_eq hnonce n
  have htail : (blockToken nonce n).tail = "!--".toList ++ (body ++ "-->".toList) := by
    rw [htoken]
    rfl
  have hframe : ∀ c ∈ "!--".toList ++ "-->".toList, c ∈ "!->".toList := Text.forall_of_all (by decide)
  rw [htail]
  intro c hc
  rcases List.mem_append.mp hc with hc | hc
  · exact hmarks c (hframe c (List.mem_append_left _ hc))
  · rcases List.mem_append.mp hc with hc | hc
    · exact hletters c (hbody c hc)
    · exact hmarks c (hframe c (List.mem_append_right _ hc))

end Letters

section Signs

/-- What readers can tell a placeholder by. -/
def signs : List Text := ["flint-raw".toList, "flintraw".toList]

/-- Does a text show a placeholder? -/
def ShowsPlaceholder (t : Text) : Prop := ∃ sign ∈ signs, sign <:+: t

variable {sign : Text} (h : sign ∈ signs)
include h

lemma lead_of_sign : "flint".toList <+: sign := by
  revert sign
  decide

lemma head?_of_sign : sign.head? = some 'f' := by
  obtain ⟨rest, rfl⟩ := lead_of_sign h
  rfl

lemma sign_ne_nil : sign ≠ [] := by
  rintro rfl
  exact absurd (head?_of_sign h) (by decide)

lemma sign_subset : sign ⊆ "flint-raw".toList := by
  have hletters : ∀ sign ∈ signs, sign ⊆ "flint-raw".toList := by
    simp only [signs, List.forall_mem_cons]
    exact ⟨Text.forall_of_all (by decide), Text.forall_of_all (by decide), List.forall_mem_nil _⟩
  exact hletters sign h

lemma not_mem_sign {c : Char} (hc : c ∉ "flint-raw".toList) : c ∉ sign :=
  fun hmem => hc (sign_subset h hmem)

lemma not_infix_of_not_lead {t : Text} (ht : ¬ "flint".toList <:+: t) : ¬ sign <:+: t :=
  fun hin => ht ((lead_of_sign h).isInfix.trans hin)

lemma not_sign_infix_of_not_mem {t : Text} (ht : 'f' ∉ t) : ¬ sign <:+: t :=
  fun hin => ht (hin.subset (List.mem_of_head? (head?_of_sign h)))

end Signs

/-- Behind its nonce a token holds no character that a token starts with. -/
lemma TokenLike.not_mem_number {nonce token word number : Text} {mark c : Char}
    (h : TokenLike nonce token word number mark) (hc : c ∈ ['<', 'f']) : c ∉ mark :: number := by
  have hdigit : ∀ c ∈ ['<', 'f'], Text.isDigit c = false := Text.forall_of_all (by decide)
  have hclose : ∀ c ∈ ['<', 'f'], c ∉ ['-', 'i'] ∧ c ∉ ['-', '>', 'x'] := by simp
  rintro hmem
  rcases List.mem_cons.mp hmem with rfl | hmem
  · exact (hclose c hc).1 h.mark_mem
  · rcases h.number_mem c hmem with hd | hd
    · rw [hdigit c hc] at hd
      cases hd
    · exact (hclose c hc).2 hd

section Nonce

variable {nonce : Text} (hnonce : ∀ c ∈ nonce, c ∈ Digest.digits)
include hnonce

/-- A token that overlaps the end of another one starts behind its nonce. -/
lemma TokenLike.prefix_of_overlap {token word number : Text} {mark : Char}
    (h : TokenLike nonce token word number mark) {token' : Text} (h' : IsToken nonce token')
    {u z rest : Text} (hsplit : token = u ++ z) (hu : u ≠ []) (hover : token' <+: z ++ rest) :
    word ++ nonce <+: u := by
  obtain ⟨word', number', mark', hlike'⟩ := h'
  obtain ⟨more, hmore⟩ := hover
  have hstart : z ++ rest = word' ++ (nonce ++ mark' :: number' ++ more) := by
    rw [← hmore, hlike'.eq]; simp
  -- The second text starts behind the first word, because no word starts inside a word.
  obtain ⟨a, rfl, hback⟩ : ∃ a, u = word ++ a ∧ nonce ++ mark :: number = a ++ z := by
    rcases List.append_eq_append_iff.mp (h.eq.symm.trans hsplit) with hback | ⟨a, hword, hz⟩
    · exact hback
    · cases a with
      | nil => exact ⟨[], by simpa using hword.symm, by simpa using hz.symm⟩
      | cons c a =>
        exfalso
        have hdrop : word.drop u.length = c :: a := by rw [hword, List.drop_left]
        have hcompat : (c :: a ++ (nonce ++ mark :: number)) ++ rest = word' ++ _ :=
          hz ▸ hstart
        rw [List.append_assoc] at hcompat
        refine words_apart word h.word_mem word' hlike'.word_mem u.length (by simp [hword]) ?_ ?_
        · simpa using hu
        · rw [hdrop]
          exact Text.take_length_of_append_eq hcompat
  -- It starts behind the nonce as well, because of the second character of a word.
  obtain ⟨c, d, w, rfl, -, hdigit, hmark⟩ := words_start word' hlike'.word_mem
  rcases List.append_eq_append_iff.mp hback with ⟨b, rfl, -⟩ | ⟨b, rfl, rfl⟩
  · rw [← List.append_assoc]
    exact List.prefix_append _ _
  · match b with
    | [] => simp
    | [x] =>
      obtain ⟨-, rfl, -⟩ : x = c ∧ mark = d ∧ _ := by simpa using hstart
      exact absurd h.mark_mem hmark
    | x :: y :: b =>
      obtain ⟨-, rfl, -⟩ : x = c ∧ y = d ∧ _ := by simpa using hstart
      exact absurd (hnonce y (by simp)) hdigit

/-- No token starts inside another one. -/
lemma IsToken.not_prefix_inside {token token' : Text} (h : IsToken nonce token)
    (h' : IsToken nonce token') {u z rest : Text} (hsplit : token = u ++ z) (hu : u ≠ [])
    (hz : z ≠ []) : ¬ token' <+: z ++ rest := by
  intro hover
  obtain ⟨word, number, mark, hlike⟩ := h
  obtain ⟨v, rfl⟩ := hlike.prefix_of_overlap hnonce h' hsplit hu hover
  have hback : mark :: number = v ++ z := by
    have := hlike.eq.symm.trans hsplit
    simpa using this
  obtain ⟨d, z', rfl⟩ := List.exists_cons_of_ne_nil hz
  obtain ⟨c, t, rfl, hc⟩ := h'.head
  obtain ⟨rfl, -⟩ := List.cons_prefix_cons.mp hover
  have hmem : c ∈ mark :: number := by rw [hback]; simp
  exact hlike.not_mem_number hc hmem

/-- What may follow a stretch of a masked text: nothing, a line feed, or the token of a link. -/
def Bounds (nonce rest : Text) : Prop :=
  rest = [] ∨ (∃ r, rest = '\n' :: r) ∨ ∃ n r, rest = inlineToken nonce n ++ r

/-- A token holds no line feed, opens no bracket and holds no entity. -/
lemma IsToken.not_mem {token : Text} (h : IsToken nonce token) {c : Char} (hc : c ∈ ['\n', '[', '&']) :
    c ∉ token := by
  obtain ⟨word, number, mark, hlike⟩ := h
  have hword : ∀ word ∈ words, ∀ c ∈ ['\n', '[', '&'], c ∉ word := by simp [words]
  have hdigits : ∀ c ∈ ['\n', '[', '&'], c ∉ Digest.digits := Text.forall_of_all (by decide)
  have hnumber : ∀ c ∈ ['\n', '[', '&'], c ∉ ['-', 'i'] ∧ Text.isDigit c = false ∧ c ∉ ['-', '>', 'x'] :=
    Text.forall_of_all (by decide)
  rw [hlike.eq]
  simp only [List.mem_append, List.mem_cons, not_or]
  refine ⟨hword word hlike.word_mem c hc, fun hm => hdigits c hc (hnonce c hm), ?_, fun hm => ?_⟩
  · rintro rfl
    exact (hnumber c hc).1 hlike.mark_mem
  · obtain ⟨-, hdigit, hclose⟩ := hnumber c hc
    rcases hlike.number_mem c hm with hd | hd
    · rw [hdigit] at hd
      cases hd
    · exact hclose hd

/-- No token starts in text that lacks the nonce, not even one that goes on behind it. -/
lemma IsToken.not_prefix_plain {token : Text} (h : IsToken nonce token) {t rest : Text}
    (ht : t ≠ []) (hfree : ¬ nonce <:+: t) (hrest : Bounds nonce rest) : ¬ token <+: t ++ rest := by
  rintro ⟨s, hs⟩
  rcases List.append_eq_append_iff.mp hs with ⟨a, rfl, -⟩ | ⟨a, rfl, rfl⟩
  · exact hfree (h.nonce_infix.trans (List.prefix_append _ _).isInfix)
  · by_cases hne : a = []
    · subst hne
      exact hfree (by simpa using h.nonce_infix)
    · rcases hrest with hrest | ⟨r, hrest⟩ | ⟨n, r, hrest⟩
      · exact hne (List.append_eq_nil_iff.mp hrest).1
      · obtain ⟨d, a, rfl⟩ := List.exists_cons_of_ne_nil hne
        obtain ⟨rfl, -⟩ := List.cons.inj hrest
        exact h.not_mem hnonce (List.mem_cons_self) (by simp)
      · obtain ⟨word, number, mark, hlike⟩ := h
        have hin := hlike.prefix_of_overlap hnonce (isToken_inlineToken nonce n) rfl ht
          ⟨r, hrest.symm⟩
        exact hfree ((List.suffix_append _ _).isInfix.trans hin.isInfix)

end Nonce

end RawTable
end Sitewright
