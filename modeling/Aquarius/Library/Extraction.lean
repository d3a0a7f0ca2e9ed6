import Aquarius.Library.Decimal
import Mathlib.Data.List.TakeWhile

/-!
# Formatted Input and Output

What `operator<<` and `operator>>` of a character stream do to integers, words and characters,
on a stream that holds one text: blanks in front are skipped, a word ends at the next blank, a
number at the first byte that is no digit, and a number that does not fit its type is the
nearest that does.

## Main results

* `extractSigned_integerText`, `extractUnsigned_decimal`: an integer survives at every width.
* `extractWord_eq_self_iff`: a text survives exactly when there is no blank in it.
-/

namespace Decoding

/-- `isspace` -/
def isSpace (b : UInt8) : Bool := b == 32 || (9 ≤ b && b ≤ 13)

/-- An optional sign in front of a number, and whether it is a minus. -/
def readSign : Bytes → Bool × Bytes
  | 43 :: s => (false, s)
  | 45 :: s => (true, s)
  | s => (false, s)

/-- A sign is at the front, whatever follows the text. -/
theorem readSign_append {s : Bytes} (hs : s ≠ []) (t : Bytes) :
    readSign (s ++ t) = ((readSign s).1, (readSign s).2 ++ t) := by
  obtain ⟨b, s, rfl⟩ := List.exists_cons_of_ne_nil hs
  by_cases hplus : b = 43
  · subst hplus
    rfl
  by_cases hminus : b = 45
  · subst hminus
    rfl
  have hnone : ∀ s, readSign (b :: s) = (false, b :: s) := by
    intro s
    rw [readSign]
    · rintro t ⟨rfl, -⟩
      exact hplus rfl
    · rintro t ⟨rfl, -⟩
      exact hminus rfl
  rw [List.cons_append, hnone, hnone, List.cons_append]

/-- A digit is neither a blank nor a sign. -/
theorem digit_ne {b : UInt8} (hb : isDigit b = true) :
    isSpace b = false ∧ b ≠ 43 ∧ b ≠ 45 := by
  have hall : ∀ i : Fin 256, isDigit (UInt8.ofNat i) = true →
      isSpace (UInt8.ofNat i) = false ∧ UInt8.ofNat i ≠ 43 ∧ UInt8.ofNat i ≠ 45 := by
    decide +kernel
  have hbyte := hall ⟨b.toNat, b.toNat_lt⟩
  rw [UInt8.ofNat_toNat] at hbyte
  exact hbyte hb

/-- A numeral starts neither with a blank nor with a sign. -/
theorem readSign_decimal (n : ℕ) (s : Bytes) :
    readSign ((decimal n ++ s).dropWhile isSpace) = (false, decimal n ++ s) := by
  obtain ⟨d, ds, hd⟩ := List.exists_cons_of_ne_nil (decimal_ne_nil n)
  have hdigit : isDigit d = true := isDigit_of_mem_decimal (n := n) (by simp [hd])
  obtain ⟨hspace, hplus, hminus⟩ := digit_ne hdigit
  rw [hd, List.cons_append, List.dropWhile_cons_of_neg (by simp [hspace]), readSign]
  · rintro t ⟨rfl, -⟩
    exact hplus rfl
  · rintro t ⟨rfl, -⟩
    exact hminus rfl

/-! ### Integers -/

/-- `ss << v` -/
def integerText (v : ℤ) : Bytes :=
  if v < 0 then 45 :: decimal v.natAbs else decimal v.natAbs

/-- The number at the front of a text, behind blanks; zero when there is none. -/
def leadingInteger (s : Bytes) : ℤ :=
  let signed := readSign (s.dropWhile isSpace)
  let n := (readDigits 0 signed.2).1
  if signed.1 then -n else n

/-- `ss >> value` for a signed type of `w` bits: the nearest value that fits. -/
def extractSigned (w : ℕ) (s : Bytes) : ℤ :=
  max (-2 ^ (w - 1)) (min (leadingInteger s) (2 ^ (w - 1) - 1))

/-- `ss >> value` for an unsigned type of `w` bits: a minus negates, a number that does not fit
is the largest one. -/
def extractUnsigned (w : ℕ) (s : Bytes) : ℕ :=
  let v := leadingInteger s
  if 2 ^ w ≤ v.natAbs then 2 ^ w - 1 else (v % 2 ^ w).toNat

/-- The number in front of a numeral is that of the numeral. -/
theorem leadingInteger_decimal (n : ℕ) : leadingInteger (decimal n) = n := by
  have hsign := readSign_decimal n []
  have hdigits := readDigits_decimal n (s := []) (by simp)
  rw [List.append_nil] at hsign hdigits
  simp [leadingInteger, hsign, hdigits]

/-- **The number survives** its text. -/
theorem leadingInteger_integerText (v : ℤ) : leadingInteger (integerText v) = v := by
  rw [integerText]
  split
  · rename_i hneg
    have hsign : readSign ((45 :: decimal v.natAbs).dropWhile isSpace) =
        (true, decimal v.natAbs) := rfl
    have hdigits := readDigits_decimal v.natAbs (s := []) (by simp)
    rw [List.append_nil] at hdigits
    simp only [leadingInteger, hsign, hdigits, if_true]
    omega
  · rw [leadingInteger_decimal]
    omega

/-- A signed value is extracted from its text. -/
theorem extractSigned_integerText {w : ℕ} {v : ℤ} (hlo : -2 ^ (w - 1) ≤ v)
    (hhi : v < 2 ^ (w - 1)) : extractSigned w (integerText v) = v := by
  rw [extractSigned, leadingInteger_integerText]
  omega

/-- An unsigned value is extracted from its numeral. -/
theorem extractUnsigned_decimal {w n : ℕ} (hn : n < 2 ^ w) :
    extractUnsigned w (decimal n) = n := by
  have hn' : (n : ℤ) < 2 ^ w := by exact_mod_cast hn
  rw [extractUnsigned, leadingInteger_decimal]
  simp only [Int.natAbs_natCast]
  rw [if_neg (by omega), Int.emod_eq_of_lt (by omega) hn', Int.toNat_natCast]

/-! ### Words and characters -/

/-- `ss >> value` for a string: the first word -/
def extractWord (s : Bytes) : Bytes := (s.dropWhile isSpace).takeWhile fun b => !isSpace b

/-- `ss >> value` for a character: the first that is no blank, or zero -/
def extractChar (s : Bytes) : UInt8 := (s.dropWhile isSpace).headD 0

/-- **A text survives** exactly when there is no blank in it. -/
theorem extractWord_eq_self_iff (s : Bytes) :
    extractWord s = s ↔ ∀ b ∈ s, isSpace b = false := by
  constructor
  · intro h b hb
    rw [← h, extractWord] at hb
    simpa using List.mem_takeWhile_imp hb
  · intro h
    have hdrop : s.dropWhile isSpace = s := by
      cases s with
      | nil => rfl
      | cons b s =>
          have hb : ¬ isSpace b = true := by simp [h b (List.mem_cons_self ..)]
          exact List.dropWhile_cons_of_neg hb
    rw [extractWord, hdrop, List.takeWhile_eq_self_iff]
    intro b hb
    simp [h b hb]

end Decoding
