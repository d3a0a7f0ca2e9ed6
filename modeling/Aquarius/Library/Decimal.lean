import Aquarius.Library.Decoder
import Mathlib.Tactic.Ring

/-!
# Decimal Numerals

The decimal numeral of a natural number as ASCII bytes, and the reader that accumulates the
run of digits at the front of a byte string. `readDigits_decimal` is the round trip: the
reader stops where the numeral does, provided no digit follows it.
-/

namespace Decoding

/-- The ASCII digits. -/
def isDigit (b : UInt8) : Bool := 48 ≤ b && b ≤ 57

/-- The ASCII code of a digit. -/
def digitByte (d : ℕ) : UInt8 := UInt8.ofNat (48 + d)

/-- The digits of `n`, most significant first; `fuel` bounds their number. -/
def decimalFuel : ℕ → ℕ → Bytes
  | 0, _ => []
  | fuel + 1, n =>
      if n < 10 then [digitByte n]
      else decimalFuel fuel (n / 10) ++ [digitByte (n % 10)]

/-- The decimal numeral of `n`. -/
def decimal (n : ℕ) : Bytes := decimalFuel (n + 1) n

/-- Accumulate the digits at the front of a byte string. -/
def readDigits : ℕ → Bytes → ℕ × Bytes
  | acc, [] => (acc, [])
  | acc, b :: bs =>
      if isDigit b then readDigits (acc * 10 + (b.toNat - 48)) bs else (acc, b :: bs)

/-- The value of the code of a digit. -/
private theorem toNat_digitByte {d : ℕ} (hd : d < 10) : (digitByte d).toNat = 48 + d := by
  rw [digitByte, UInt8.toNat_ofNat']
  omega

/-- The code of a digit is one. -/
theorem isDigit_digitByte {d : ℕ} (hd : d < 10) : isDigit (digitByte d) = true := by
  have hval := toNat_digitByte hd
  rw [isDigit, Bool.and_eq_true_iff]
  constructor
  · rw [decide_eq_true_iff, UInt8.le_iff_toNat_le, hval]
    exact Nat.le_add_right 48 d
  · rw [decide_eq_true_iff, UInt8.le_iff_toNat_le, hval]
    change 48 + d ≤ 57
    omega

/-- One digit is accumulated. -/
private theorem readDigits_digitByte {d : ℕ} (hd : d < 10) (acc : ℕ) (s : Bytes) :
    readDigits acc (digitByte d :: s) = readDigits (acc * 10 + d) s := by
  have hval : (digitByte d).toNat - 48 = d := by
    rw [toNat_digitByte hd]
    omega
  rw [readDigits, if_pos (isDigit_digitByte hd), hval]

/-- The reader accumulates a numeral to its number. The induction is on the fuel: the last
digit of the numeral is the first of what follows its quotient. -/
private theorem readDigits_decimalFuel (fuel : ℕ) : ∀ (n : ℕ) (s : Bytes), n < fuel →
    readDigits 0 (decimalFuel fuel n ++ s) = readDigits n s := by
  induction fuel with
  | zero => exact fun n _ hn => absurd hn (Nat.not_lt_zero n)
  | succ fuel ih =>
      intro n s hn
      rw [decimalFuel]
      by_cases hsmall : n < 10
      · rw [if_pos hsmall, List.singleton_append, readDigits_digitByte hsmall]
        simp only [Nat.zero_mul, Nat.zero_add]
      · have hquot : n / 10 < fuel := by omega
        have hdigit : n % 10 < 10 := Nat.mod_lt n (by omega)
        rw [if_neg hsmall, List.append_assoc, List.singleton_append, ih _ _ hquot,
          readDigits_digitByte hdigit, Nat.div_add_mod']

/-- **Decimal round trip.** The numeral of `n` is read back, and reading stops behind it
when no digit follows. -/
theorem readDigits_decimal (n : ℕ) {s : Bytes} (hs : ∀ b ∈ s.head?, isDigit b = false) :
    readDigits 0 (decimal n ++ s) = (n, s) := by
  rw [decimal, readDigits_decimalFuel (n + 1) n s (Nat.lt_succ_self n)]
  cases s with
  | nil => rfl
  | cons b s =>
      have hb : ¬ isDigit b = true := by
        rw [hs b (by rw [List.head?_cons]; exact Option.mem_some_self b)]
        exact Bool.false_ne_true
      rw [readDigits, if_neg hb]

/-- Reading does not go beyond a byte that is no digit. -/
theorem readDigits_append_cons {b : UInt8} (hb : isDigit b = false) (s t : Bytes) (acc : ℕ) :
    readDigits acc (s ++ b :: t) = ((readDigits acc s).1, (readDigits acc s).2 ++ b :: t) := by
  induction s generalizing acc with
  | nil =>
      have hstop : readDigits acc (b :: t) = (acc, b :: t) := if_neg (by simp [hb])
      rw [List.nil_append, hstop]
      rfl
  | cons c s ih =>
      rw [List.cons_append, readDigits, readDigits]
      split
      · exact ih _
      · rfl

/-- A numeral has at least one digit. -/
theorem decimal_ne_nil (n : ℕ) : decimal n ≠ [] := by
  rw [decimal, decimalFuel]
  split
  · exact List.cons_ne_nil _ _
  · exact List.append_ne_nil_of_right_ne_nil _ (List.cons_ne_nil _ _)

/-- Every byte of a numeral is a digit. -/
theorem isDigit_of_mem_decimal {n : ℕ} {b : UInt8} : b ∈ decimal n → isDigit b = true := by
  have hfuel : ∀ fuel n, b ∈ decimalFuel fuel n → isDigit b = true := by
    intro fuel
    induction fuel with
    | zero => exact fun n hb => absurd hb (List.not_mem_nil)
    | succ fuel ih =>
        intro n hb
        rw [decimalFuel] at hb
        split at hb
        · rename_i hn
          rw [List.mem_singleton.mp hb]
          exact isDigit_digitByte hn
        · rcases List.mem_append.mp hb with hb | hb
          · exact ih _ hb
          · rw [List.mem_singleton.mp hb]
            exact isDigit_digitByte (Nat.mod_lt n (by omega))
  exact hfuel (n + 1) n

end Decoding
