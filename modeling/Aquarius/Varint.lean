import Aquarius.Library.Decoder
import Mathlib.Tactic.Ring

/-!
# Variable-Length Integers of `binary_parse`

The two integer overload sets of `binary_parse` (`serialize/binary.hpp`):

* `integer_t`, that is `uint32_t` and `uint64_t`, written as a base-128 varint
  (`toDatasInteger`) and read by the loop `fromDatasInteger`;
* `zig_zag`, that is `int16_t`, `int32_t` and `int64_t`, mapped to a `uint64_t` first
  (`toDatasZigZag`, `fromDatasZigZag`).

Both widths of the first set write the same bytes, those of `varint` on the natural number
they hold (`toDatasInteger_eq_varint`), so the reader's loop is analysed once, over that
number. The reader of `w` bits shifts by `7, 14, …`; a shift by `w` or more is undefined in
C++ and is a `Fault.undefined` here, which a canonical encoding never reaches. Other buffers
do: `shiftsInRange_iff` says which.

The zig-zag image is computed in the promoted type: `int` for the two narrow types, so that
`int16_t` has room for the doubled value and `int32_t` has not. `zigZagDecode_zigZag` is the
round trip at the widths that have room, and `zigZagDecode_zigZag_of_small` the half of the
`int32_t` range that survives. Whether or not the value does, the bytes are framed
(`reads_fromDatasZigZag`). `zigZagDocumented_iff` measures the code against the image that
`docs/virgo.md` documents.
-/

open Decoding

namespace Aquarius

/-- How a decoding routine ends when it does not return: the exception it throws, or
undefined behaviour. -/
inductive Fault where
  /-- `std::out_of_range` -/
  | outOfRange
  /-- `std::length_error`, from a container asked to grow past its largest size -/
  | lengthError
  /-- `std::runtime_error` -/
  | runtimeError
  /-- the `boost::system::system_error` that Boost.JSON throws -/
  | jsonError
  /-- undefined behaviour was reached, nothing can be said of the program any more -/
  | undefined
  deriving DecidableEq, Repr

/-! ### Unsigned integers -/

/-- `binary_parse::to_datas` for `integer_t`: seven bits a byte, low bits first, the high
bit set on every byte but the last. -/
def toDatasInteger {w : ℕ} (value : BitVec w) : Bytes :=
  if 0x80 ≤ value.toNat then
    UInt8.ofNat (value ||| 0x80#w).toNat :: toDatasInteger (value >>> 7)
  else [UInt8.ofNat value.toNat]
termination_by value.toNat
decreasing_by
  rw [BitVec.toNat_ushiftRight, Nat.shiftRight_eq_div_pow]
  omega

/-- The `for (;;)` of `binary_parse::from_datas` for `integer_t`, over the bytes of the
buffer. `bit` is `temp_bit`; shifting by the width of the type or more is undefined, so
the `int8_t` it is kept in never wraps before. -/
def fromDatasContinuation (w : ℕ) (bit : ℕ) (value : BitVec w) :
    Bytes → Except Fault (BitVec w × Bytes)
  | [] => .error .outOfRange
  | temp :: buff =>
      if w ≤ bit then .error .undefined
      else if temp &&& 0x80 = 0 then
        .ok (value + BitVec.ofNat w temp.toNat <<< bit, buff)
      else
        fromDatasContinuation w (bit + 7)
          (value + BitVec.ofNat w (temp &&& 0x7f).toNat <<< bit) buff

/-- `binary_parse::from_datas` for `integer_t`: the first byte, then the continuation loop
when its high bit is set. -/
def fromDatasInteger (w : ℕ) : Decoder Fault (BitVec w)
  | [] => .error .outOfRange
  | temp :: buff =>
      let value := BitVec.ofNat w temp.toNat
      if 0x80 ≤ value.toNat then fromDatasContinuation w 7 (value - 0x80#w) buff
      else .ok (value, buff)

/-- The base-128 varint of a natural number. -/
def varint (n : ℕ) : Bytes :=
  if 128 ≤ n then UInt8.ofNat (n % 128 + 128) :: varint (n / 128) else [UInt8.ofNat n]
termination_by n
decreasing_by omega

theorem varint_of_lt {n : ℕ} (h : n < 128) : varint n = [UInt8.ofNat n] := by
  rw [varint, if_neg (by omega)]

theorem varint_of_le {n : ℕ} (h : 128 ≤ n) :
    varint n = UInt8.ofNat (n % 128 + 128) :: varint (n / 128) := by
  rw [varint, if_pos h]

/-- Setting the high bit of the low byte, as the writer does it on the whole word. -/
private theorem ofNat_or_0x80 (n : ℕ) : UInt8.ofNat (n ||| 128) = UInt8.ofNat (n % 128 + 128) := by
  apply UInt8.toNat_inj.mp
  have hor : (n ||| 128) % 256 = n % 256 ||| 128 := Nat.or_mod_two_pow (n := 8)
  have hlow : ∀ i : Fin 256, i.val ||| 128 = i.val % 128 + 128 := by decide +kernel
  have hbyte : n % 256 ||| 128 = n % 256 % 128 + 128 := hlow ⟨n % 256, Nat.mod_lt _ (by omega)⟩
  rw [UInt8.toNat_ofNat', UInt8.toNat_ofNat', show 2 ^ 8 = 256 from rfl, hor, hbyte]
  omega

/-- Both unsigned widths write the varint of the number they hold. -/
theorem toDatasInteger_eq_varint {w : ℕ} (hw : 8 ≤ w) (value : BitVec w) :
    toDatasInteger value = varint value.toNat := by
  induction hn : value.toNat using Nat.strongRecOn generalizing value with
  | ind n ih =>
      rw [toDatasInteger, hn]
      by_cases hbig : 0x80 ≤ n
      · have hpow : 2 ^ 8 ≤ 2 ^ w := Nat.pow_le_pow_right (by omega) hw
        have hlit : (0x80#w).toNat = 128 := by
          rw [BitVec.toNat_ofNat, Nat.mod_eq_of_lt (by omega)]
        have hshift : (value >>> 7).toNat = n / 128 := by
          rw [BitVec.toNat_ushiftRight, hn, Nat.shiftRight_eq_div_pow]
        rw [if_pos hbig, varint_of_le hbig, BitVec.toNat_or, hn, hlit, ofNat_or_0x80,
          ih (n / 128) (by omega) (value >>> 7) hshift]
      · rw [if_neg hbig, varint_of_lt (by omega)]

/-! ### Reading a varint back -/

/-- The test of the reader for a last byte. -/
private theorem and_0x80_eq_zero_iff (b : UInt8) : b &&& 0x80 = 0 ↔ b.toNat < 128 := by
  have hall : ∀ i : Fin 256, i.val &&& 128 = 0 ↔ i.val < 128 := by decide +kernel
  rw [← UInt8.toNat_inj, UInt8.toNat_and]
  exact hall ⟨b.toNat, b.toNat_lt⟩

/-- The payload of a continuation byte. -/
private theorem toNat_and_0x7f (b : UInt8) : (b &&& 0x7f).toNat = b.toNat % 128 := by
  rw [UInt8.toNat_and]
  exact Nat.and_two_pow_sub_one_eq_mod b.toNat 7

private theorem toNat_ofNat_of_lt {n : ℕ} (h : n < 256) : (UInt8.ofNat n).toNat = n := by
  rw [UInt8.toNat_ofNat']
  exact Nat.mod_eq_of_lt h

private theorem ofNat_shiftLeft (w n bit : ℕ) :
    BitVec.ofNat w n <<< bit = BitVec.ofNat w (n * 2 ^ bit) := by
  apply BitVec.eq_of_toNat_eq
  rw [BitVec.toNat_shiftLeft, BitVec.toNat_ofNat, BitVec.toNat_ofNat, Nat.shiftLeft_eq,
    Nat.mod_mul_mod]

/-- **The reader's loop.** Entered at bit `bit` on the varint of a positive `n` that still
fits the width, it adds `n * 2 ^ bit` and stops behind the varint. Strong induction on `n`:
each continuation byte moves seven bits of it into the accumulator. -/
theorem fromDatasContinuation_varint {w : ℕ} (n : ℕ) (hn : 0 < n) (bit : ℕ)
    (hfit : n * 2 ^ bit < 2 ^ w) (value : BitVec w) (s : Bytes) :
    fromDatasContinuation w bit value (varint n ++ s) =
      .ok (value + BitVec.ofNat w (n * 2 ^ bit), s) := by
  induction n using Nat.strongRecOn generalizing bit value with
  | ind n ih =>
      have hbit : bit < w := by
        by_contra hle
        have h1 : 2 ^ w ≤ 2 ^ bit := Nat.pow_le_pow_right (by omega) (by omega)
        have h2 : 2 ^ bit ≤ n * 2 ^ bit := Nat.le_mul_of_pos_left _ hn
        omega
      by_cases hbig : 128 ≤ n
      · have hbyte : (UInt8.ofNat (n % 128 + 128)).toNat = n % 128 + 128 :=
          toNat_ofNat_of_lt (by omega)
        have hcont : ¬ UInt8.ofNat (n % 128 + 128) &&& 0x80 = 0 := by
          rw [and_0x80_eq_zero_iff, hbyte]
          omega
        have hsplit : n * 2 ^ bit = n % 128 * 2 ^ bit + n / 128 * 2 ^ (bit + 7) := by
          have hdiv : n = n % 128 + n / 128 * 128 := (Nat.mod_add_div' n 128).symm
          calc n * 2 ^ bit = (n % 128 + n / 128 * 128) * 2 ^ bit := by rw [← hdiv]
            _ = n % 128 * 2 ^ bit + n / 128 * 2 ^ (bit + 7) := by ring
        rw [varint_of_le hbig, List.cons_append, fromDatasContinuation, if_neg (by omega),
          if_neg hcont, ih (n / 128) (by omega) (by omega) (bit + 7) (by omega),
          toNat_and_0x7f, hbyte, show (n % 128 + 128) % 128 = n % 128 by omega,
          ofNat_shiftLeft, BitVec.add_assoc, ← BitVec.ofNat_add, ← hsplit]
      · have hbyte : (UInt8.ofNat n).toNat = n := toNat_ofNat_of_lt (by omega)
        have hlast : UInt8.ofNat n &&& 0x80 = 0 := by
          rw [and_0x80_eq_zero_iff, hbyte]
          omega
        rw [varint_of_lt (by omega), List.singleton_append, fromDatasContinuation,
          if_neg (by omega), if_pos hlast, hbyte, ofNat_shiftLeft]

/-- **Varint round trip**: a reader of `w` bits reads every number that fits them. -/
theorem fromDatasInteger_varint {w : ℕ} (hw : 8 ≤ w) {n : ℕ} (hn : n < 2 ^ w) :
    Reads (fromDatasInteger w) (varint n) (BitVec.ofNat w n) := by
  intro s
  have hpow : 2 ^ 8 ≤ 2 ^ w := Nat.pow_le_pow_right (by omega) hw
  by_cases hbig : 128 ≤ n
  · have hbyte : (UInt8.ofNat (n % 128 + 128)).toNat = n % 128 + 128 :=
      toNat_ofNat_of_lt (by omega)
    have hvalue : (BitVec.ofNat w (n % 128 + 128)).toNat = n % 128 + 128 := by
      rw [BitVec.toNat_ofNat, Nat.mod_eq_of_lt (by omega)]
    have hsub : BitVec.ofNat w (n % 128 + 128) - 0x80#w = BitVec.ofNat w (n % 128) := by
      rw [BitVec.ofNat_add, BitVec.add_sub_cancel]
    have hfit : n / 128 * 2 ^ 7 < 2 ^ w := by omega
    have hsum : n % 128 + n / 128 * 2 ^ 7 = n := by omega
    rw [varint_of_le hbig, List.cons_append]
    simp only [StateT.run, fromDatasInteger, hbyte, hvalue]
    rw [if_pos (by omega), hsub, fromDatasContinuation_varint (n / 128) (by omega) 7 hfit,
      ← BitVec.ofNat_add, hsum]
  · have hbyte : (UInt8.ofNat n).toNat = n := toNat_ofNat_of_lt (by omega)
    have hvalue : (BitVec.ofNat w n).toNat = n := by
      rw [BitVec.toNat_ofNat, Nat.mod_eq_of_lt hn]
    rw [varint_of_lt (by omega), List.singleton_append]
    simp only [StateT.run, fromDatasInteger, hbyte, hvalue]
    rw [if_neg (by omega)]

/-- The unsigned round trip of `binary_parse` at either width. -/
theorem reads_fromDatasInteger {w : ℕ} (hw : 8 ≤ w) (value : BitVec w) :
    Reads (fromDatasInteger w) (toDatasInteger value) value := by
  have h := fromDatasInteger_varint hw value.isLt
  rwa [BitVec.ofNat_toNat, BitVec.setWidth_eq, ← toDatasInteger_eq_varint hw] at h

/-! ### The range of the shifts

Nothing bounds the loop of the reader but the buffer: its counter is an `int8_t` that grows by
seven with every continuation byte. `shifts` lists the amounts by which one run shifts. -/

/-- The amounts by which the continuation loop shifts, the counter `temp_bit` being an
`int8_t` that wraps. -/
def continuationShifts (bit : BitVec 8) : Bytes → List ℤ
  | [] => []
  | temp :: buff =>
      bit.toInt :: if temp &&& 0x80 = 0 then [] else continuationShifts (bit + 7#8) buff

/-- The amounts by which `binary_parse::from_datas` for `integer_t` shifts on a buffer. -/
def shifts : Bytes → List ℤ
  | [] => []
  | temp :: buff => if 0x80 ≤ temp.toNat then continuationShifts 7#8 buff else []

/-- The buffer opens with `k` continuation bytes and goes on behind them. -/
def Overlong (k : ℕ) (b : Bytes) : Prop := k < b.length ∧ (b.take k).all (0x80 ≤ ·) = true

instance (k : ℕ) (b : Bytes) : Decidable (Overlong k b) :=
  inferInstanceAs (Decidable (k < b.length ∧ (b.take k).all (0x80 ≤ ·) = true))

theorem not_overlong_nil (k : ℕ) : ¬ Overlong k [] := fun h => absurd h.1 (Nat.not_lt_zero k)

theorem overlong_zero_cons (temp : UInt8) (buff : Bytes) : Overlong 0 (temp :: buff) :=
  ⟨Nat.succ_pos _, rfl⟩

theorem overlong_succ_cons (k : ℕ) (temp : UInt8) (buff : Bytes) :
    Overlong (k + 1) (temp :: buff) ↔ 128 ≤ temp.toNat ∧ Overlong k buff := by
  have hle : (0x80 ≤ temp) ↔ 128 ≤ temp.toNat := UInt8.le_iff_toNat_le
  simp only [Overlong, List.length_cons, List.take_succ_cons, List.all_cons, Bool.and_eq_true,
    decide_eq_true_eq, hle, Nat.add_lt_add_iff_right]
  exact and_left_comm

/-- **One run of the loop.** With room for `k` more shifts below the width, the loop reaches a
shift that is undefined on an overlong buffer, and otherwise runs out of bytes or returns behind
at most `k` of them. Induction on the buffer, the room shrinking with each continuation byte. -/
theorem fromDatasContinuation_overlong {w k bit : ℕ} (hroom : w ≤ bit + 7 * k)
    (htight : ∀ j < k, bit + 7 * j < w) (value : BitVec w) (b : Bytes) :
    (Overlong k b ∧ fromDatasContinuation w bit value b = .error .undefined) ∨
    (¬ Overlong k b ∧ (fromDatasContinuation w bit value b = .error .outOfRange ∨
      ∃ p r v, b = p ++ r ∧ p.length ≤ k ∧ fromDatasContinuation w bit value b = .ok (v, r))) := by
  induction b generalizing k bit value with
  | nil => exact .inr ⟨not_overlong_nil k, .inl rfl⟩
  | cons temp buff ih =>
      cases k with
      | zero =>
          refine .inl ⟨overlong_zero_cons temp buff, ?_⟩
          rw [fromDatasContinuation, if_pos (by omega)]
      | succ k =>
          have hbit : ¬ w ≤ bit := by
            have := htight 0 (by omega)
            omega
          rw [overlong_succ_cons, fromDatasContinuation, if_neg hbit]
          by_cases hlast : temp &&& 0x80 = 0
          · rw [if_pos hlast]
            have hsmall := (and_0x80_eq_zero_iff temp).mp hlast
            exact .inr ⟨fun h => by omega, .inr ⟨[temp], buff, _, rfl, by simp, rfl⟩⟩
          · rw [if_neg hlast]
            have hbig : 128 ≤ temp.toNat := by
              rw [and_0x80_eq_zero_iff] at hlast
              omega
            have hnext : ∀ j < k, bit + 7 + 7 * j < w := by
              intro j hj
              have := htight (j + 1) (by omega)
              omega
            rcases ih (k := k) (by omega) hnext
              (value + BitVec.ofNat w (temp &&& 0x7f).toNat <<< bit) with
              ⟨hover, hrun⟩ | ⟨hover, hrun | ⟨p, r, v, rfl, hp, hrun⟩⟩
            · exact .inl ⟨⟨hbig, hover⟩, hrun⟩
            · exact .inr ⟨fun h => hover h.2, .inl hrun⟩
            · exact .inr ⟨fun h => hover h.2, .inr ⟨temp :: p, r, v, rfl, by simpa using hp, hrun⟩⟩

/-- The counter as the loop keeps it: no wrap while it is below 128. -/
private theorem toInt_ofNat_of_lt {bit : ℕ} (h : bit < 128) : (BitVec.ofNat 8 bit).toInt = bit := by
  have hnat : (BitVec.ofNat 8 bit).toNat = bit := by
    rw [BitVec.toNat_ofNat, Nat.mod_eq_of_lt (by omega)]
  rw [BitVec.toInt_eq_toNat_of_lt (by omega), hnat]

/-- Every shift of the loop is in range, up to an overlong buffer: the counter is below 128 as
long as the shifts before it were. -/
theorem continuationShifts_overlong {w k bit : ℕ} (hw : w ≤ 121) (hfirst : bit < 128)
    (hroom : w ≤ bit + 7 * k) (htight : ∀ j < k, bit + 7 * j < w) (b : Bytes) :
    (∀ n ∈ continuationShifts (BitVec.ofNat 8 bit) b, 0 ≤ n ∧ n < w) ↔ ¬ Overlong k b := by
  induction b generalizing k bit with
  | nil =>
      refine ⟨fun _ => not_overlong_nil k, fun _ n hn => ?_⟩
      cases hn
  | cons temp buff ih =>
      have hvalue := toInt_ofNat_of_lt hfirst
      cases k with
      | zero =>
          refine ⟨fun h => absurd (h _ List.mem_cons_self) ?_,
            fun h => absurd (overlong_zero_cons temp buff) h⟩
          omega
      | succ k =>
          have hbit := htight 0 (by omega)
          have hnext : ∀ j < k, bit + 7 + 7 * j < w := by
            intro j hj
            have := htight (j + 1) (by omega)
            omega
          rw [overlong_succ_cons, continuationShifts, List.forall_mem_cons, hvalue]
          by_cases hlast : temp &&& 0x80 = 0
          · have hsmall := (and_0x80_eq_zero_iff temp).mp hlast
            rw [if_pos hlast]
            refine ⟨fun _ h => by omega, fun _ => ⟨by omega, fun n hn => ?_⟩⟩
            cases hn
          · have hbig : 128 ≤ temp.toNat := by
              rw [and_0x80_eq_zero_iff] at hlast
              omega
            rw [if_neg hlast, ← BitVec.ofNat_add, ih (k := k) (by omega) (by omega) hnext]
            refine ⟨fun h hover => h.2 hover.2, fun h => ⟨by omega, fun hover => h ⟨hbig, hover⟩⟩⟩

/-- What is promised of the reader on one buffer: every shift is by a non-negative amount below
the width, and it returns behind no more bytes than the width has groups of seven, or throws
`std::out_of_range`. -/
structure ShiftsInRange (w : ℕ) (b : Bytes) : Prop where
  /-- no shift is undefined -/
  shifts_lt : ∀ n ∈ shifts b, 0 ≤ n ∧ n < w
  /-- the two ways to end -/
  ends : (fromDatasInteger w).run b = .error .outOfRange ∨
    ∃ p r v, b = p ++ r ∧ p.length ≤ (w + 6) / 7 ∧ (fromDatasInteger w).run b = .ok (v, r)

/-- A first byte as the reader holds it. -/
private theorem toNat_ofNat_toNat {w : ℕ} (hw : 8 ≤ w) (temp : UInt8) :
    (BitVec.ofNat w temp.toNat).toNat = temp.toNat := by
  have hpow : 2 ^ 8 ≤ 2 ^ w := Nat.pow_le_pow_right (by omega) hw
  have hbyte := temp.toNat_lt
  rw [BitVec.toNat_ofNat, Nat.mod_eq_of_lt (by omega)]

/-- A first byte without the high bit is the whole number. -/
theorem fromDatasInteger_of_lt {w : ℕ} (hw : 8 ≤ w) {temp : UInt8} (h : temp.toNat < 128)
    (buff : Bytes) :
    (fromDatasInteger w).run (temp :: buff) = .ok (BitVec.ofNat w temp.toNat, buff) := by
  simp only [StateT.run, fromDatasInteger, toNat_ofNat_toNat hw, if_neg (Nat.not_le.mpr h)]

/-- A first byte with the high bit starts the loop. -/
theorem fromDatasInteger_of_le {w : ℕ} (hw : 8 ≤ w) {temp : UInt8} (h : 128 ≤ temp.toNat)
    (buff : Bytes) :
    (fromDatasInteger w).run (temp :: buff) =
      fromDatasContinuation w 7 (BitVec.ofNat w temp.toNat - 0x80#w) buff := by
  simp only [StateT.run, fromDatasInteger, toNat_ofNat_toNat hw, if_pos h]

/-- **The reader stays in range** exactly on the buffers that do not open with a full run of
continuation bytes, five of them for `uint32_t` and ten for `uint64_t`, with a byte behind. -/
theorem shiftsInRange_iff {w : ℕ} (hw : w = 32 ∨ w = 64) (b : Bytes) :
    ShiftsInRange w b ↔ ¬ Overlong ((w + 6) / 7) b := by
  obtain ⟨k, hk⟩ : ∃ k, (w + 6) / 7 = k + 1 := ⟨(w + 6) / 7 - 1, by omega⟩
  have hroom : w ≤ 7 + 7 * k := by omega
  have htight : ∀ j < k, 7 + 7 * j < w := by omega
  rw [hk]
  cases b with
  | nil =>
      refine ⟨fun _ => not_overlong_nil _, fun _ => ⟨fun n hn => ?_, .inl rfl⟩⟩
      cases hn
  | cons temp buff =>
      rw [overlong_succ_cons]
      by_cases hbig : 128 ≤ temp.toNat
      · have hlist : shifts (temp :: buff) = continuationShifts (BitVec.ofNat 8 7) buff :=
          if_pos hbig
        have hshifts := continuationShifts_overlong (by omega) (by omega) hroom htight buff
        have hrun := fromDatasInteger_of_le (w := w) (by omega) hbig buff
        refine ⟨fun h hover => hshifts.mp (hlist ▸ h.shifts_lt) hover.2, fun h => ?_⟩
        have hover : ¬ Overlong k buff := fun hover => h ⟨hbig, hover⟩
        refine ⟨hlist ▸ hshifts.mpr hover, ?_⟩
        rcases fromDatasContinuation_overlong hroom htight _ buff with
          ⟨hyes, -⟩ | ⟨-, hout | ⟨p, r, v, rfl, hp, hok⟩⟩
        · exact absurd hyes hover
        · exact .inl (hrun.trans hout)
        · refine .inr ⟨temp :: p, r, v, rfl, ?_, hrun.trans hok⟩
          rw [List.length_cons]
          omega
      · have hlist : shifts (temp :: buff) = [] := if_neg hbig
        have hrun := fromDatasInteger_of_lt (w := w) (by omega) (Nat.not_le.mp hbig) buff
        refine ⟨fun _ h => hbig h.1, fun _ => ⟨?_, .inr ⟨[temp], buff, _, rfl, ?_, hrun⟩⟩⟩
        · rw [hlist]
          intro n hn
          cases hn
        · rw [List.length_singleton]
          omega

/-- The theorem at the canonical encoding of the largest `uint32_t`, and at five continuation
bytes with nothing behind them. -/
theorem shiftsInRange_iff_five_bytes :
    ShiftsInRange 32 [0xff, 0xff, 0xff, 0xff, 0x0f] ∧
      ShiftsInRange 32 [0x80, 0x80, 0x80, 0x80, 0x80] :=
  ⟨(shiftsInRange_iff (Or.inl rfl) _).mpr (by decide),
    (shiftsInRange_iff (Or.inl rfl) _).mpr (by decide)⟩

/-- Zero written with five idle continuation bytes: the sixth byte is shifted by 35. -/
theorem not_shiftsInRange_six_bytes :
    ¬ ShiftsInRange 32 [0x80, 0x80, 0x80, 0x80, 0x80, 0x00] ∧
      shifts [0x80, 0x80, 0x80, 0x80, 0x80, 0x00] = [7, 14, 21, 28, 35] ∧
      (fromDatasInteger 32).run [0x80, 0x80, 0x80, 0x80, 0x80, 0x00] = .error .undefined := by
  have hshifts : shifts [0x80, 0x80, 0x80, 0x80, 0x80, 0x00] = [7, 14, 21, 28, 35] := by decide
  refine ⟨fun h => ?_, hshifts, by rfl⟩
  have hlast := h.shifts_lt 35 (by rw [hshifts]; decide)
  omega

/-! ### Signed integers -/

/-- The width in which C++ computes on an integer of `w` bits: that of `int` at least. -/
def promotedWidth (w : ℕ) : ℕ := max w 32

/-- The `uint64_t temp` of `binary_parse::to_datas` for `zig_zag`: the shifts and the
exclusive or are computed in the promoted signed type, the result is then converted. -/
def zigZag {w : ℕ} (value : BitVec w) : BitVec 64 :=
  let v := value.signExtend (promotedWidth w)
  (v <<< 1 ^^^ v.sshiftRight (w - 1)).signExtend 64

/-- `binary_parse::to_datas` for `zig_zag`. -/
def toDatasZigZag {w : ℕ} (value : BitVec w) : Bytes :=
  toDatasInteger (zigZag value)

/-- The value `binary_parse::from_datas` for `zig_zag` makes of the `uint64_t` it read. -/
def zigZagDecode (w : ℕ) (temp : BitVec 64) : BitVec w :=
  (temp >>> 1 ^^^ -(temp &&& 0x1#64)).setWidth w

/-- `binary_parse::from_datas` for `zig_zag`. -/
def fromDatasZigZag (w : ℕ) : Decoder Fault (BitVec w) :=
  zigZagDecode w <$> fromDatasInteger 64

/-- The sign mask of the decoder: all ones or all zeros, by the low bit. -/
private theorem getLsbD_neg_and_one (temp : BitVec 64) {i : ℕ} (hi : i < 64) :
    (-(temp &&& 0x1#64)).getLsbD i = temp.getLsbD 0 := by
  have hmask : temp &&& 0x1#64 = if temp.getLsbD 0 then 1#64 else 0#64 := by
    rw [BitVec.and_one_eq_setWidth_ofBool_getLsbD]
    cases temp.getLsbD 0 <;> rfl
  rw [hmask]
  cases h : temp.getLsbD 0 with
  | false => simp
  | true =>
      have hneg : -(1#64) = BitVec.allOnes 64 := by decide
      rw [if_pos rfl, hneg, BitVec.getLsbD_allOnes]
      exact decide_eq_true hi

/-- Bit `i` of a decoded value is bit `i + 1` of the word it was read from, flipped by its
low bit. -/
private theorem getLsbD_zigZagDecode {w : ℕ} (temp : BitVec 64) {i : ℕ} (hw : w ≤ 64)
    (hi : i < w) :
    (zigZagDecode w temp).getLsbD i = (temp.getLsbD (i + 1) ^^ temp.getLsbD 0) := by
  rw [zigZagDecode, BitVec.getLsbD_setWidth, BitVec.getLsbD_xor, BitVec.getLsbD_ushiftRight,
    getLsbD_neg_and_one temp (by omega), Nat.add_comm 1 i]
  simp [hi]

/-- From the sign bit of the value on, every bit of a sign extension is the sign. -/
private theorem getLsbD_signExtend_of_le {w p m : ℕ} (value : BitVec w) (hw : 0 < w)
    (hm : w - 1 ≤ m) (hmp : m < p) : (value.signExtend p).getLsbD m = value.msb := by
  rw [BitVec.getLsbD_signExtend, decide_eq_true hmp, Bool.true_and]
  by_cases hlast : m < w
  · rw [if_pos hlast, BitVec.msb_eq_getLsbD_last, show m = w - 1 by omega]
  · rw [if_neg hlast]

/-- The arithmetic shift by all but one bit copies the sign to every bit. -/
private theorem getLsbD_sshiftRight_signExtend {w : ℕ} (value : BitVec w) {j : ℕ} (hw : 0 < w)
    (hj : j < promotedWidth w) :
    ((value.signExtend (promotedWidth w)).sshiftRight (w - 1)).getLsbD j = value.msb := by
  have hp : w ≤ promotedWidth w := le_max_left w 32
  have hmsb : (value.signExtend (promotedWidth w)).msb = value.msb := by
    rw [BitVec.msb_eq_getLsbD_last]
    exact getLsbD_signExtend_of_le value hw (by omega) (by omega)
  rw [BitVec.getLsbD_sshiftRight, hmsb, decide_eq_false (by omega), Bool.not_false,
    Bool.true_and]
  by_cases hin : w - 1 + j < promotedWidth w
  · rw [if_pos hin, getLsbD_signExtend_of_le value hw (by omega) hin]
  · rw [if_neg hin]

/-- Below the promoted width, bit `j` of the zig-zag word is bit `j - 1` of the value,
flipped by its sign. -/
private theorem getLsbD_zigZag {w : ℕ} (value : BitVec w) {j : ℕ} (hw : 0 < w)
    (hj : j < promotedWidth w) (hj64 : j < 64) :
    (zigZag value).getLsbD j =
      ((decide (1 ≤ j) && (value.signExtend (promotedWidth w)).getLsbD (j - 1)) ^^
        value.msb) := by
  have hsign := getLsbD_sshiftRight_signExtend value hw hj
  rw [zigZag, BitVec.getLsbD_signExtend, if_pos hj, BitVec.getLsbD_xor, hsign,
    BitVec.getLsbD_shiftLeft, decide_eq_true hj64, decide_eq_true hj, Bool.true_and,
    Bool.true_and]
  by_cases hj0 : j = 0
  · subst hj0
    rfl
  · rw [decide_eq_false (by omega), decide_eq_true (by omega), Bool.not_false]

/-- What decoding does to a zig-zag word, bit by bit: every bit of the value is restored
except where the next bit of the word lies outside the promoted type. -/
private theorem getLsbD_zigZagDecode_zigZag {w : ℕ} (value : BitVec w) {i : ℕ}
    (hw : w ≤ 64) (hi : i < w) (hroom : i + 1 < promotedWidth w) (h64 : i + 1 < 64) :
    (zigZagDecode w (zigZag value)).getLsbD i = value.getLsbD i := by
  have hbit : (value.signExtend (promotedWidth w)).getLsbD i = value.getLsbD i := by
    rw [BitVec.getLsbD_signExtend, if_pos hi, decide_eq_true (by omega), Bool.true_and]
  rw [getLsbD_zigZagDecode _ hw hi, getLsbD_zigZag value (by omega) hroom h64,
    getLsbD_zigZag value (by omega) (by omega) (by omega), Nat.add_sub_cancel, hbit]
  cases value.getLsbD i <;> cases value.msb <;> rfl

/-- **Zig-zag round trip** for the types whose doubled value fits the type it is computed
in: those narrower than `int`, and `int64_t`, whose lost bit is the sign the decoder puts
back. -/
theorem zigZagDecode_zigZag {w : ℕ} (hpos : 0 < w) (hw : w < 32 ∨ w = 64) (value : BitVec w) :
    zigZagDecode w (zigZag value) = value := by
  apply BitVec.eq_of_getLsbD_eq
  intro i hi
  by_cases htop : i + 1 < 64
  · refine getLsbD_zigZagDecode_zigZag value (by omega) hi ?_ htop
    rw [promotedWidth]
    omega
  · obtain rfl : w = 64 := by omega
    obtain rfl : i = 63 := by omega
    have hout : (zigZag value).getLsbD (63 + 1) = false := BitVec.getLsbD_of_ge _ _ (by omega)
    rw [getLsbD_zigZagDecode _ (by omega) hi, hout,
      getLsbD_zigZag value (by omega) (by decide) (by omega), BitVec.msb_eq_getLsbD_last]
    simp

/-- The `int32_t` values that survive the 32-bit computation: those whose two top bits
agree, that is the range from `-2 ^ 30` to `2 ^ 30 - 1`. -/
def FitsDoubled (value : BitVec 32) : Prop := value.getLsbD 31 = value.getLsbD 30

instance (value : BitVec 32) : Decidable (FitsDoubled value) :=
  inferInstanceAs (Decidable (value.getLsbD 31 = value.getLsbD 30))

/-- Decoding an `int32_t` copies bit 30 over the sign: the wrapped doubling has lost it. -/
theorem getLsbD_zigZagDecode_zigZag_top (value : BitVec 32) :
    (zigZagDecode 32 (zigZag value)).getLsbD 31 = value.getLsbD 30 := by
  have hword : (zigZag value).getLsbD (31 + 1) = (zigZag value).getLsbD 31 := by
    rw [zigZag, BitVec.getLsbD_signExtend, BitVec.getLsbD_signExtend,
      BitVec.msb_eq_getLsbD_last]
    rfl
  have hbit : (value.signExtend (promotedWidth 32)).getLsbD (31 - 1) = value.getLsbD 30 := by
    rw [BitVec.getLsbD_signExtend]
    rfl
  rw [getLsbD_zigZagDecode _ (by omega) (by omega), hword,
    getLsbD_zigZag value (by omega) (by decide) (by omega),
    getLsbD_zigZag value (by omega) (by decide) (by omega), hbit]
  cases value.getLsbD 30 <;> cases value.msb <;> rfl

/-- The round trip of `int32_t`, where its two top bits agree. -/
theorem zigZagDecode_zigZag_of_small {value : BitVec 32} (h : FitsDoubled value) :
    zigZagDecode 32 (zigZag value) = value := by
  apply BitVec.eq_of_getLsbD_eq
  intro i hi
  by_cases htop : i + 1 < 32
  · exact getLsbD_zigZagDecode_zigZag value (by omega) hi htop (by omega)
  · obtain rfl : i = 31 := by omega
    rw [getLsbD_zigZagDecode_zigZag_top, h]

/-- A zig-zag integer is framed whatever its width and value: the reader stops behind the
word the writer put down and returns what it decodes to. -/
theorem reads_fromDatasZigZag {w : ℕ} (value : BitVec w) :
    Reads (fromDatasZigZag w) (toDatasZigZag value) (zigZagDecode w (zigZag value)) :=
  (reads_fromDatasInteger (by omega) (zigZag value)).map (zigZagDecode w)

/-- The signed round trip of `binary_parse` at the widths that have room. -/
theorem reads_fromDatasZigZag_self {w : ℕ} (hpos : 0 < w) (hw : w < 32 ∨ w = 64)
    (value : BitVec w) : Reads (fromDatasZigZag w) (toDatasZigZag value) value := by
  have h := reads_fromDatasZigZag value
  rwa [zigZagDecode_zigZag hpos hw] at h

/-- The signed round trip of `binary_parse` at `int32_t`, where it holds. -/
theorem reads_fromDatasZigZag_of_small {value : BitVec 32} (h : FitsDoubled value) :
    Reads (fromDatasZigZag 32) (toDatasZigZag value) value := by
  have hread := reads_fromDatasZigZag value
  rwa [zigZagDecode_zigZag_of_small h] at hread

/-! ### The documented image

`docs/virgo.md` gives the image of `n` as `2n` from zero on and `-2n - 1` below it. -/

/-- The documented zig-zag image of a signed number. -/
def zigZagImage (n : ℤ) : ℕ := if 0 ≤ n then (2 * n).toNat else (-2 * n - 1).toNat

/-- The image of a `w`-bit number is a `w`-bit unsigned number. -/
theorem zigZagImage_toInt_lt {w : ℕ} (value : BitVec w) : zigZagImage value.toInt < 2 ^ w := by
  have hlow := BitVec.le_two_mul_toInt (x := value)
  have hhigh := BitVec.two_mul_toInt_lt (x := value)
  have hpow : ((2 ^ w : ℕ) : ℤ) = 2 ^ w := by norm_cast
  rw [zigZagImage]
  split <;> omega

/-- The arithmetic shift by all but one bit leaves the sign mask. -/
theorem sshiftRight_signExtend {w : ℕ} (hw : 0 < w) (value : BitVec w) :
    (value.signExtend (promotedWidth w)).sshiftRight (w - 1) =
      if 0 ≤ value.toInt then 0#(promotedWidth w) else BitVec.allOnes (promotedWidth w) := by
  apply BitVec.eq_of_getLsbD_eq
  intro i hi
  rw [getLsbD_sshiftRight_signExtend value hw hi, BitVec.msb_eq_toInt]
  by_cases hneg : 0 ≤ value.toInt
  · rw [if_pos hneg, decide_eq_false (by omega), BitVec.getLsbD_zero]
  · rw [if_neg hneg, decide_eq_true (by omega), BitVec.getLsbD_allOnes, decide_eq_true hi]

/-- In the type it is computed in, the word is the documented image at every width and value:
what can go wrong is the conversion behind it. -/
theorem toNat_zigZag_promoted {w : ℕ} (hw : 0 < w) (value : BitVec w) :
    ((value.signExtend (promotedWidth w)) <<< 1 ^^^
      (value.signExtend (promotedWidth w)).sshiftRight (w - 1)).toNat =
      zigZagImage value.toInt := by
  have hp : w ≤ promotedWidth w := le_max_left w 32
  have hint : (value.signExtend (promotedWidth w)).toInt = value.toInt :=
    BitVec.toInt_signExtend_of_le hp
  have hlow := BitVec.le_two_mul_toInt (x := value.signExtend (promotedWidth w))
  have hhigh := BitVec.two_mul_toInt_lt (x := value.signExtend (promotedWidth w))
  rw [sshiftRight_signExtend hw, zigZagImage, ← hint]
  generalize value.signExtend (promotedWidth w) = v at *
  generalize promotedWidth w = p at *
  have hcond := BitVec.toInt_eq_toNat_cond v
  have hlt := v.isLt
  have hpow : ((2 ^ p : ℕ) : ℤ) = 2 ^ p := by norm_cast
  have hdouble : (v <<< 1).toNat = 2 * v.toNat % 2 ^ p := by
    rw [BitVec.toNat_shiftLeft, Nat.shiftLeft_eq, Nat.mul_comm]
  by_cases hneg : 0 ≤ v.toInt
  · have hsmall : 2 * v.toNat < 2 ^ p := by
      split at hcond <;> omega
    rw [if_pos hneg, if_pos hneg, BitVec.xor_zero, hdouble, Nat.mod_eq_of_lt hsmall]
    split at hcond <;> omega
  · have hbig : ¬ 2 * v.toNat < 2 ^ p := by
      intro hsmall
      rw [if_pos hsmall] at hcond
      omega
    rw [if_neg hbig] at hcond
    have hmod : 2 * v.toNat % 2 ^ p = 2 * v.toNat - 2 ^ p := by
      rw [Nat.mod_eq_sub_mod (by omega), Nat.mod_eq_of_lt (by omega)]
    rw [if_neg hneg, if_neg hneg, BitVec.xor_allOnes, BitVec.toNat_not, hdouble, hmod]
    omega

/-- The word the writer puts down is the documented image wherever the conversion to
`uint64_t` has no sign to extend: from the full width, or below the sign bit. -/
theorem toNat_zigZag {w : ℕ} (hw : 0 < w) (h64 : promotedWidth w ≤ 64) (value : BitVec w)
    (hroom : promotedWidth w = 64 ∨ 2 * zigZagImage value.toInt < 2 ^ promotedWidth w) :
    (zigZag value).toNat = zigZagImage value.toInt := by
  have hword := toNat_zigZag_promoted hw value
  rw [zigZag]
  generalize (value.signExtend (promotedWidth w)) <<< 1 ^^^
    (value.signExtend (promotedWidth w)).sshiftRight (w - 1) = word at *
  have hfill : (if word.msb = true then 2 ^ 64 - 2 ^ promotedWidth w else 0) = 0 := by
    rcases hroom with hp | hsmall
    · have hpow : 2 ^ 64 - 2 ^ promotedWidth w = 0 := by rw [hp, Nat.sub_self]
      rw [hpow, ite_self]
    · rw [BitVec.msb_eq_decide, if_neg]
      have hpow : 2 ^ promotedWidth w = 2 * 2 ^ (promotedWidth w - 1) := by
        rw [← pow_succ', Nat.sub_add_cancel (by rw [promotedWidth]; omega)]
      simp only [decide_eq_true_eq]
      omega
  rw [BitVec.toNat_signExtend, hfill, BitVec.toNat_setWidth_of_le h64, hword, Nat.add_zero]

/-- A number of `7 * (k + 1)` bits takes at most `k + 1` bytes. -/
theorem length_varint_le (k : ℕ) {n : ℕ} (h : n < 2 ^ (7 * (k + 1))) :
    (varint n).length ≤ k + 1 := by
  induction k generalizing n with
  | zero =>
      rw [varint_of_lt (by omega)]
      rfl
  | succ k ih =>
      by_cases hbig : 128 ≤ n
      · have hpow : 2 ^ (7 * (k + 1 + 1)) = 128 * 2 ^ (7 * (k + 1)) := by ring
        have hrest := ih (n := n / 128) (by omega)
        rw [varint_of_le hbig, List.length_cons]
        omega
      · rw [varint_of_lt (by omega), List.length_singleton]
        omega

/-- What `docs/virgo.md` says of `zig_zag` at one value: the bytes are the varint of its
image, of no more groups of seven than the width has, and they are read back as the value,
whatever follows them. -/
structure ZigZagDocumented {w : ℕ} (value : BitVec w) : Prop where
  /-- the image is a number of the same width -/
  image_lt : zigZagImage value.toInt < 2 ^ w
  /-- the bytes are its varint -/
  bytes_eq : toDatasZigZag value = varint (zigZagImage value.toInt)
  /-- `ceil (w / 7)` bytes at most -/
  length_le : (toDatasZigZag value).length ≤ (w + 6) / 7
  /-- they are read back, the rest of the buffer is left -/
  reads : Reads (fromDatasZigZag w) (toDatasZigZag value) value

/-- `FitsDoubled` as a range of numbers. -/
theorem fitsDoubled_iff (value : BitVec 32) :
    FitsDoubled value ↔ -2 ^ 30 ≤ value.toInt ∧ value.toInt < 2 ^ 30 := by
  have hlt := value.isLt
  rw [FitsDoubled, ← BitVec.testBit_toNat, ← BitVec.testBit_toNat,
    Nat.testBit_eq_decide_div_mod_eq, Nat.testBit_eq_decide_div_mod_eq,
    BitVec.toInt_eq_toNat_cond]
  simp only [decide_eq_decide]
  split <;> omega

/-- The decoder returns one value, so a documented `int32_t` is one whose sign survived. -/
theorem ZigZagDocumented.fitsDoubled {value : BitVec 32} (h : ZigZagDocumented value) :
    FitsDoubled value := by
  have hread := h.reads []
  rw [reads_fromDatasZigZag value []] at hread
  have hdecode : zigZagDecode 32 (zigZag value) = value := (Prod.mk.inj (Except.ok.inj hread)).1
  have htop := getLsbD_zigZagDecode_zigZag_top value
  rwa [hdecode] at htop

/-- Where the word is the image and the value comes back, everything documented holds. -/
theorem zigZagDocumented_of_image {w : ℕ} (hw : 0 < w) {value : BitVec w}
    (hword : (zigZag value).toNat = zigZagImage value.toInt)
    (hdecode : zigZagDecode w (zigZag value) = value) : ZigZagDocumented value := by
  have hlt := zigZagImage_toInt_lt value
  have hbytes : toDatasZigZag value = varint (zigZagImage value.toInt) := by
    rw [toDatasZigZag, toDatasInteger_eq_varint (by omega), hword]
  refine ⟨hlt, hbytes, ?_, ?_⟩
  · obtain ⟨k, hk⟩ : ∃ k, (w + 6) / 7 = k + 1 := ⟨(w + 6) / 7 - 1, by omega⟩
    have hpow : 2 ^ w ≤ 2 ^ (7 * (k + 1)) := Nat.pow_le_pow_right (by omega) (by omega)
    rw [hbytes, hk]
    exact length_varint_le k (by omega)
  · have hread := reads_fromDatasZigZag value
    rwa [hdecode] at hread

/-- **Zig-zag integers.** At the three signed widths the writer and the reader do what the
documentation says, for every value of `int16_t` and `int64_t` and for exactly those of
`int32_t` whose doubled value is still an `int`. -/
theorem zigZagDocumented_iff {w : ℕ} (hw : w = 16 ∨ w = 32 ∨ w = 64) (value : BitVec w) :
    ZigZagDocumented value ↔ (w = 32 → -2 ^ 30 ≤ value.toInt ∧ value.toInt < 2 ^ 30) := by
  have himage := zigZagImage_toInt_lt value
  have hint : promotedWidth 16 = 32 ∧ promotedWidth 32 = 32 ∧ promotedWidth 64 = 64 := by
    decide
  rcases hw with rfl | rfl | rfl
  · refine ⟨fun _ h => absurd h (by omega), fun _ => zigZagDocumented_of_image (by omega) ?_
      (zigZagDecode_zigZag (by omega) (by omega) value)⟩
    apply toNat_zigZag (by omega) (by omega) value
    rw [hint.1]
    omega
  · refine ⟨fun h _ => (fitsDoubled_iff value).mp h.fitsDoubled, fun hrange => ?_⟩
    obtain ⟨hlow, hhigh⟩ := hrange rfl
    refine zigZagDocumented_of_image (by omega) ?_
      (zigZagDecode_zigZag_of_small ((fitsDoubled_iff value).mpr ⟨hlow, hhigh⟩))
    apply toNat_zigZag (by omega) (by omega) value
    rw [hint.2.1, zigZagImage]
    split <;> omega
  · refine ⟨fun _ h => absurd h (by omega), fun _ => zigZagDocumented_of_image (by omega) ?_
      (zigZagDecode_zigZag (by omega) (by omega) value)⟩
    exact toNat_zigZag (by omega) (by omega) value (Or.inl hint.2.2)

/-- The theorem at the largest `int16_t` and at the two ends of the `int32_t` half that
survives. -/
theorem zigZagDocumented_iff_samples :
    ZigZagDocumented (0x7fff#16) ∧ ZigZagDocumented (0x3fffffff#32) ∧
      ZigZagDocumented (0xc0000000#32) :=
  ⟨(zigZagDocumented_iff (Or.inl rfl) _).mpr (by decide),
    (zigZagDocumented_iff (Or.inr (Or.inl rfl)) _).mpr (by decide),
    (zigZagDocumented_iff (Or.inr (Or.inl rfl)) _).mpr (by decide)⟩

/-- The largest `int32_t`, whose image the documentation gives as `0xfffffffe`: the sign is
extended into the `uint64_t`, ten bytes are written, and they are read back as `-1`. -/
theorem not_zigZagDocumented_int32_max :
    ¬ ZigZagDocumented (0x7fffffff#32) ∧ zigZagImage (0x7fffffff#32).toInt = 0xfffffffe ∧
      zigZag (0x7fffffff#32) = 0xfffffffffffffffe#64 ∧
      zigZagDecode 32 (zigZag (0x7fffffff#32)) = -1#32 := by
  refine ⟨fun h => ?_, by decide, by decide, by decide⟩
  have hfits : ¬ FitsDoubled (0x7fffffff#32) := by decide
  exact hfits h.fitsDoubled

end Aquarius
