import Aquarius.Library.Extraction
import Aquarius.Library.Quoted
import Aquarius.Library.Text

/-!
# The Tokens of an SQL Statement

How a server cuts the text of a statement into tokens: blanks separate, a number is a run of
digits, a name a run of letters, digits and underscores, a string literal stands between double
quotes. The keywords `and` and `or` are taken in lower case.

`tokens_space` and `tokens_cons` unfold the lexer; the other lemmas are its rules, one for each kind
of token, with any text behind it that does not continue the token.
-/

open Decoding

namespace Sql

/-- The comparison operators. -/
inductive Comparison where
  | eq
  | lt
  | le
  | gt
  | ge
  deriving DecidableEq, Repr

/-- The tokens. -/
inductive Token where
  | name (s : Bytes)
  | number (n : ℕ)
  | text (s : Bytes)
  | compare (op : Comparison)
  | minus
  | comma
  | lparen
  | rparen
  | and
  | or
  deriving DecidableEq, Repr

/-- The bytes a name starts with. -/
def isNameStart (b : UInt8) : Bool :=
  (97 ≤ b && b ≤ 122) || (65 ≤ b && b ≤ 90) || b == 95 || 128 ≤ b

/-- The bytes of a name. -/
def isNameByte (b : UInt8) : Bool := isNameStart b || isDigit b

/-- A run of name bytes that does not start with a digit. -/
def isName : Bytes → Bool
  | [] => false
  | b :: s => isNameStart b && s.all isNameByte

/-- A word is a name, unless it is a keyword. -/
def wordToken (s : Bytes) : Token :=
  if s = textBytes "and" then .and else if s = textBytes "or" then .or else .name s

/-- The tokens of one or two bytes. -/
def symbolToken : UInt8 → Bytes → Option (Token × Bytes)
  | 60, 61 :: s => some (.compare .le, s)
  | 60, s => some (.compare .lt, s)
  | 62, 61 :: s => some (.compare .ge, s)
  | 62, s => some (.compare .gt, s)
  | 61, s => some (.compare .eq, s)
  | 45, s => some (.minus, s)
  | 44, s => some (.comma, s)
  | 40, s => some (.lparen, s)
  | 41, s => some (.rparen, s)
  | _, _ => none

/-- The token that starts with a byte that is no blank, and what follows it. -/
def nextToken (b : UInt8) (s : Bytes) : Option (Token × Bytes) :=
  if isDigit b then
    let r := readDigits 0 (b :: s)
    some (.number r.1, r.2)
  else if isNameStart b then
    some (wordToken (b :: s.takeWhile isNameByte), s.dropWhile isNameByte)
  else if b = 34 then (readQuoted s).map fun r => (.text r.1, r.2)
  else symbolToken b s

/-- The tokens of a text of at most `fuel` bytes. -/
def lex : ℕ → Bytes → Option (List Token)
  | _, [] => some []
  | 0, _ :: _ => none
  | fuel + 1, b :: s =>
      if isSpace b then lex fuel s
      else (nextToken b s).bind fun r => (lex fuel r.2).map (r.1 :: ·)

/-- The tokens of a text. -/
def tokens (s : Bytes) : Option (List Token) := lex s.length s

/-! ### Unfolding -/

private theorem length_readDigits_le (acc : ℕ) (s : Bytes) :
    (readDigits acc s).2.length ≤ s.length := by
  induction s generalizing acc with
  | nil => rfl
  | cons b s ih =>
      rw [readDigits]
      split
      · exact (ih _).trans (Nat.le_succ _)
      · exact le_rfl

private theorem length_symbolToken_le {b : UInt8} {s : Bytes} {r : Token × Bytes}
    (h : symbolToken b s = some r) : r.2.length ≤ s.length := by
  unfold symbolToken at h
  split at h <;> cases h <;> simp

/-- A token takes at least its first byte. -/
theorem length_nextToken_le {b : UInt8} {s : Bytes} {r : Token × Bytes}
    (h : nextToken b s = some r) : r.2.length ≤ s.length := by
  unfold nextToken at h
  split_ifs at h with hdigit hname hquote
  · obtain rfl := Option.some.inj h
    simp only [readDigits, if_pos hdigit]
    exact length_readDigits_le _ s
  · obtain rfl := Option.some.inj h
    exact (List.dropWhile_suffix _).length_le
  · obtain ⟨⟨v, t⟩, ht, rfl⟩ := Option.map_eq_some_iff.mp h
    exact (length_readQuoted_lt ht).le
  · exact length_symbolToken_le h

/-- Any two bounds on the number of bytes give the same tokens. -/
theorem lex_congr {f g : ℕ} {s : Bytes} (hf : s.length ≤ f) (hg : s.length ≤ g) :
    lex f s = lex g s := by
  induction f generalizing g s with
  | zero =>
      obtain rfl := List.length_eq_zero_iff.mp (Nat.le_zero.mp hf)
      cases g <;> rfl
  | succ f ih =>
      cases s with
      | nil => cases g <;> rfl
      | cons b s =>
          obtain ⟨g, rfl⟩ : ∃ k, g = k + 1 := Nat.exists_eq_succ_of_ne_zero (by
            rw [List.length_cons] at hg
            omega)
          have hf : s.length ≤ f := Nat.le_of_succ_le_succ hf
          have hg : s.length ≤ g := Nat.le_of_succ_le_succ hg
          rw [lex, lex, ih hf hg]
          cases hnext : nextToken b s with
          | none => rfl
          | some r =>
              have hr := length_nextToken_le hnext
              rw [Option.bind_some, Option.bind_some, ih (hr.trans hf) (hr.trans hg)]

/-- Blanks are skipped. -/
theorem tokens_space {b : UInt8} (hb : isSpace b = true) (s : Bytes) :
    tokens (b :: s) = tokens s := by
  rw [tokens, List.length_cons, lex, if_pos hb]
  rfl

/-- A byte that is no blank starts a token. -/
theorem tokens_cons {b : UInt8} (hb : isSpace b = false) (s : Bytes) :
    tokens (b :: s) = (nextToken b s).bind fun r => (tokens r.2).map (r.1 :: ·) := by
  rw [tokens, List.length_cons, lex, if_neg (by simp [hb])]
  cases h : nextToken b s with
  | none => rfl
  | some r =>
      rw [Option.bind_some, Option.bind_some, lex_congr (length_nextToken_le h) le_rfl, tokens]

/-! ### One rule for each kind of token -/

/-- No byte of the class starts the text. -/
def Ends (p : UInt8 → Bool) (t : Bytes) : Prop := ∀ b ∈ t.head?, p b = false

/-- The text continues no token before it: it starts with neither a byte of a name, a quote nor a
backslash. -/
def Apart (t : Bytes) : Prop := ∀ b ∈ t.head?, isNameByte b = false ∧ b ≠ 34 ∧ b ≠ 92

theorem apart_nil : Apart [] := fun _ hb => nomatch hb

theorem apart_cons {b : UInt8} (hb : isNameByte b = false ∧ b ≠ 34 ∧ b ≠ 92) (t : Bytes) :
    Apart (b :: t) := by
  intro c hc
  obtain rfl := Option.some.inj hc
  exact hb

theorem Apart.name {t : Bytes} (ht : Apart t) : Ends isNameByte t := fun b hb => (ht b hb).1

theorem Apart.digit {t : Bytes} (ht : Apart t) : Ends isDigit t :=
  fun b hb => (Bool.or_eq_false_iff.mp (ht b hb).1).2

theorem Apart.plainHead {t : Bytes} (ht : Apart t) : PlainHead t := fun b hb => (ht b hb).2

/-- What kind of byte starts a name. -/
private theorem nameStart_ne {b : UInt8} (hb : isNameStart b = true) :
    isSpace b = false ∧ isDigit b = false := by
  have hall : ∀ i : Fin 256, isNameStart (UInt8.ofNat i) = true →
      isSpace (UInt8.ofNat i) = false ∧ isDigit (UInt8.ofNat i) = false := by
    decide +kernel
  have hbyte := hall ⟨b.toNat, b.toNat_lt⟩
  rw [UInt8.ofNat_toNat] at hbyte
  exact hbyte hb

private theorem takeWhile_append_of_ends {p : UInt8 → Bool} {s t : Bytes} (hs : s.all p = true)
    (ht : Ends p t) : (s ++ t).takeWhile p = s ∧ (s ++ t).dropWhile p = t := by
  have hs := List.all_eq_true.mp hs
  have hnil : t.takeWhile p = [] ∧ t.dropWhile p = t := by
    cases t with
    | nil => exact ⟨rfl, rfl⟩
    | cons b t =>
        have hb : ¬ p b = true := by simp [ht b rfl]
        exact ⟨List.takeWhile_cons_of_neg hb, List.dropWhile_cons_of_neg hb⟩
  rw [List.takeWhile_append_of_pos hs, List.dropWhile_append_of_pos hs, hnil.1, hnil.2]
  exact ⟨List.append_nil s, rfl⟩

/-- A word is one token. -/
theorem tokens_word {s t : Bytes} (hs : isName s = true) (ht : Apart t) :
    tokens (s ++ t) = (tokens t).map (wordToken s :: ·) := by
  cases s with
  | nil => cases hs
  | cons b s =>
      obtain ⟨hb, hs⟩ := Bool.and_eq_true_iff.mp hs
      obtain ⟨hspace, hdigit⟩ := nameStart_ne hb
      obtain ⟨htake, hdrop⟩ := takeWhile_append_of_ends hs ht.name
      rw [List.cons_append, tokens_cons hspace, nextToken, if_neg (by simp [hdigit]), if_pos hb,
        htake, hdrop, Option.bind_some]

/-- A name that is no keyword. -/
def Identifier (s : Bytes) : Prop :=
  isName s = true ∧ s ≠ textBytes "and" ∧ s ≠ textBytes "or"

instance (s : Bytes) : Decidable (Identifier s) :=
  inferInstanceAs (Decidable (isName s = true ∧ s ≠ textBytes "and" ∧ s ≠ textBytes "or"))

/-- An identifier is one token. -/
theorem tokens_identifier {s t : Bytes} (hs : Identifier s) (ht : Apart t) :
    tokens (s ++ t) = (tokens t).map (.name s :: ·) := by
  rw [tokens_word hs.1 ht, wordToken, if_neg hs.2.1, if_neg hs.2.2]

/-- An identifier with a blank behind it. -/
theorem tokens_identifier_space {s : Bytes} (hs : Identifier s) (t : Bytes) :
    tokens (s ++ 32 :: t) = (tokens t).map (.name s :: ·) := by
  rw [tokens_identifier hs (apart_cons (by decide) t), tokens_space (by decide)]

/-- A numeral is one token. -/
theorem tokens_decimal (n : ℕ) {t : Bytes} (ht : Apart t) :
    tokens (decimal n ++ t) = (tokens t).map (.number n :: ·) := by
  obtain ⟨d, ds, hd⟩ := List.exists_cons_of_ne_nil (decimal_ne_nil n)
  have hdigit : isDigit d = true := isDigit_of_mem_decimal (n := n) (by simp [hd])
  have hread := readDigits_decimal n ht.digit
  rw [hd, List.cons_append] at hread
  rw [hd, List.cons_append, tokens_cons (digit_ne hdigit).1, nextToken, if_pos hdigit]
  simp only [hread, Option.bind_some]

/-- The tokens of an integer. -/
def integerTokens (v : ℤ) : List Token :=
  if v < 0 then [.minus, .number v.natAbs] else [.number v.natAbs]

/-- An integer is a numeral, with a minus in front when it is negative. -/
theorem tokens_integerText (v : ℤ) {t : Bytes} (ht : Apart t) :
    tokens (integerText v ++ t) = (tokens t).map (integerTokens v ++ ·) := by
  rw [integerText, integerTokens]
  split
  · rw [List.cons_append, tokens_cons (by decide)]
    change (some (Token.minus, decimal v.natAbs ++ t)).bind _ = _
    rw [Option.bind_some, tokens_decimal _ ht, Option.map_map]
    rfl
  · exact tokens_decimal _ ht

/-- A quote starts a literal. -/
theorem tokens_quoted (s t : Bytes) :
    tokens (quoted s ++ t) =
      (readQuoted (s ++ 34 :: t)).bind fun r => (tokens r.2).map (.text r.1 :: ·) := by
  rw [quoted, List.cons_append, List.append_assoc, List.singleton_append, tokens_cons (by decide)]
  change ((readQuoted (s ++ 34 :: t)).map _).bind _ = _
  rw [Option.bind_map]
  rfl

/-- A verbatim text between quotes is one token. -/
theorem tokens_quoted_of_verbatim {s : Bytes} (hs : verbatim s = true) {t : Bytes} (ht : Apart t) :
    tokens (quoted s ++ t) = (tokens t).map (.text s :: ·) := by
  rw [tokens_quoted, readQuoted_of_verbatim hs ht.plainHead.head?_ne, Option.bind_some]

/-- A text between quotes that is not verbatim is never the token that holds it. -/
theorem tokens_quoted_of_not_verbatim {s : Bytes} (hs : verbatim s ≠ true) {t : Bytes}
    (ht : Apart t) {ts : List Token} : tokens (quoted s ++ t) ≠ some (.text s :: ts) := by
  intro h
  rw [tokens_quoted, Option.bind_eq_some_iff] at h
  obtain ⟨⟨v, r⟩, hread, htokens⟩ := h
  obtain ⟨us, -, hus⟩ := Option.map_eq_some_iff.mp htokens
  obtain ⟨hv, -⟩ := List.cons.inj hus
  obtain rfl : v = s := Token.text.inj hv
  exact hs ((readQuoted_eq_self_iff ht.plainHead v).mp ⟨r, hread⟩)

/-- The symbols of one byte. -/
theorem tokens_comma (t : Bytes) : tokens (44 :: t) = (tokens t).map (.comma :: ·) :=
  tokens_cons (by decide) t

theorem tokens_lparen (t : Bytes) : tokens (40 :: t) = (tokens t).map (.lparen :: ·) :=
  tokens_cons (by decide) t

theorem tokens_rparen (t : Bytes) : tokens (41 :: t) = (tokens t).map (.rparen :: ·) :=
  tokens_cons (by decide) t

/-- How a comparison operator is written. -/
def Comparison.text : Comparison → Bytes
  | .eq => textBytes "="
  | .lt => textBytes "<"
  | .le => textBytes "<="
  | .gt => textBytes ">"
  | .ge => textBytes ">="

/-- A comparison operator with a blank behind it. -/
theorem tokens_compare (op : Comparison) (t : Bytes) :
    tokens (op.text ++ 32 :: t) = (tokens t).map (.compare op :: ·) := by
  have hspace : tokens (32 :: t) = tokens t := tokens_space (by decide) t
  cases op <;>
    · rw [← hspace]
      exact tokens_cons (by decide) _

/-! ### Lists -/

section List

variable {β : Type} {text : β → Bytes} {toks : β → List Token}

/-- What stands behind an item of a list continues no token. -/
theorem apart_commaTail (xs : List β) {t : Bytes} (ht : Apart t) :
    Apart (xs.flatMap (fun x => 44 :: text x) ++ t) := by
  cases xs with
  | nil => exact ht
  | cons x xs => exact apart_cons (by decide) _

/-- Behind the first item of a list, a comma stands in front of every item. -/
theorem tokens_commaTail {xs : List β}
    (hitem : ∀ x ∈ xs, ∀ t, Apart t → tokens (text x ++ t) = (tokens t).map (toks x ++ ·))
    {t : Bytes} (ht : Apart t) :
    tokens (xs.flatMap (fun x => 44 :: text x) ++ t) =
      (tokens t).map (xs.flatMap (fun x => .comma :: toks x) ++ ·) := by
  induction xs with
  | nil => simp
  | cons x xs ih =>
      rw [List.flatMap_cons, List.cons_append, List.cons_append, List.append_assoc, tokens_comma,
        hitem x List.mem_cons_self _ (apart_commaTail xs ht),
        ih fun y hy => hitem y (List.mem_cons_of_mem x hy), Option.map_map, Option.map_map,
        List.flatMap_cons]
      congr 1
      funext us
      simp

/-- Items with commas between them. -/
theorem intercalate_comma (x : β) (xs : List β) :
    [44].intercalate ((x :: xs).map text) = text x ++ xs.flatMap fun x => 44 :: text x := by
  induction xs generalizing x with
  | nil => rw [List.map_singleton, List.intercalate_singleton, List.flatMap_nil, List.append_nil]
  | cons y ys ih =>
      rw [List.map_cons, List.map_cons, List.intercalate_cons_cons, ← List.map_cons, ih y,
        List.flatMap_cons, List.append_assoc, List.singleton_append, List.cons_append]

end List

end Sql
