import Aquarius.Varint
import Mathlib.Data.Nat.Size

/-!
# Canonical Varints

What `binary_parse::to_datas` writes of a `uint32_t` or a `uint64_t` (`serialize/binary.hpp`) is the
one shortest varint of the number, as `docs/virgo.md` has it: a byte for every seven bits, the high
bit on all of them but the last. The relays put lengths and routers into frames again from what
they have read, so that there is only one encoding of a number matters beside its being read back.

Both types write `varint`, so everything is proved of that.

## Main results

* `length_varint`: the number of bytes, from the number of bits.
* `varint_prefix_iff`: **no encoding is a prefix of another**.
* `toDatas_canonical`: all of it, for both types.
-/

open Decoding

namespace Aquarius

/-- The types of `integer_t` -/
inductive IntegerT where
  | uint32
  | uint64
  deriving DecidableEq, Repr

/-- The number of bits of a type. -/
def IntegerT.width : IntegerT → ℕ
  | uint32 => 32
  | uint64 => 64

/-- The most bytes a type takes. -/
def IntegerT.maxBytes : IntegerT → ℕ
  | uint32 => 5
  | uint64 => 10

/-- A byte holds at least one bit, so the shift of the writer is in range. -/
theorem IntegerT.width_ge (t : IntegerT) : 8 ≤ t.width := by
  cases t
  · exact Nat.le_of_ble_eq_true rfl
  · exact Nat.le_of_ble_eq_true rfl

/-! ### The number of bytes -/

/-- A varint takes at most `k + 1` bytes exactly when the number has at most `7 * (k + 1)` bits. -/
theorem length_varint_le_iff (k n : ℕ) : (varint n).length ≤ k + 1 ↔ n < 2 ^ (7 * (k + 1)) := by
  refine ⟨fun h => ?_, length_varint_le k⟩
  induction k generalizing n with
  | zero =>
      by_contra hbig
      have hrest : 0 < (varint (n / 128)).length := by
        rw [varint]
        split <;> exact Nat.succ_pos _
      rw [varint_of_le (by omega), List.length_cons] at h
      omega
  | succ k ih =>
      have hpow : 2 ^ (7 * (k + 1 + 1)) = 128 * 2 ^ (7 * (k + 1)) := by ring
      by_cases hbig : 128 ≤ n
      · rw [varint_of_le hbig, List.length_cons] at h
        have hrest := ih (n / 128) (by omega)
        omega
      · have hpos : 0 < 2 ^ (7 * (k + 1)) := Nat.two_pow_pos _
        omega

/-- There is at least one byte. -/
theorem varint_ne_nil (n : ℕ) : varint n ≠ [] := by
  rw [varint]
  split <;> exact List.cons_ne_nil _ _

/-- **The number of bytes** is the number of bits divided by seven, rounded up, and at least one. -/
theorem length_varint (n : ℕ) : (varint n).length = max 1 ((n.size + 6) / 7) := by
  have hpos : 0 < (varint n).length := List.length_pos_iff.mpr (varint_ne_nil n)
  have hsize : ∀ k, (varint n).length ≤ k + 1 ↔ n.size ≤ 7 * (k + 1) := fun k => by
    rw [length_varint_le_iff, Nat.size_le]
  have hupper := (hsize ((n.size + 6) / 7)).mpr (by omega)
  have hlower := (hsize ((varint n).length - 1)).mp (by omega)
  by_cases hzero : n.size = 0
  · have hone := (hsize 0).mpr (by omega)
    omega
  · have hexact := (hsize ((n.size + 6) / 7 - 1)).mpr (by omega)
    omega

/-! ### The bytes -/

/-- The low seven bits of a number, with the high bit of their byte set. -/
theorem toNat_continued (n : ℕ) : (UInt8.ofNat (n % 128 + 128)).toNat = n % 128 + 128 := by
  rw [UInt8.toNat_ofNat']
  omega

/-- All bytes but the last have the high bit set. -/
theorem varint_continued (n : ℕ) : ∀ b ∈ (varint n).dropLast, 0x80 ≤ b := by
  induction n using Nat.strongRecOn with
  | ind n ih =>
      intro b hb
      by_cases hbig : 128 ≤ n
      · rw [varint_of_le hbig, List.dropLast_cons_of_ne_nil (varint_ne_nil _)] at hb
        rcases List.mem_cons.mp hb with rfl | hb
        · rw [UInt8.le_iff_toNat_le, toNat_continued]
          exact Nat.le_add_left _ _
        · exact ih (n / 128) (by omega) b hb
      · rw [varint_of_lt (by omega)] at hb
        exact absurd hb List.not_mem_nil

/-- The last byte has not, and is zero for zero alone. -/
theorem varint_ended (n : ℕ) :
    ∀ b ∈ (varint n).getLast?, b < 0x80 ∧ (b = 0 → n = 0) := by
  induction n using Nat.strongRecOn with
  | ind n ih =>
      intro b hb
      by_cases hbig : 128 ≤ n
      · rw [varint_of_le hbig, List.getLast?_cons_of_ne_nil (varint_ne_nil _)] at hb
        obtain ⟨hlt, hzero⟩ := ih (n / 128) (by omega) b hb
        exact ⟨hlt, fun h => by have := hzero h; omega⟩
      · rw [varint_of_lt (by omega)] at hb
        obtain rfl : UInt8.ofNat n = b := Option.some.inj hb
        have hbyte : (UInt8.ofNat n).toNat = n := by
          rw [UInt8.toNat_ofNat']
          omega
        refine ⟨?_, fun h => ?_⟩
        · rw [UInt8.lt_iff_toNat_lt, hbyte]
          exact Nat.lt_of_not_le hbig
        · rw [← hbyte, h]
          rfl

/-- The value of the byte of a number below 128. -/
theorem toNat_last {n : ℕ} (h : n < 128) : (UInt8.ofNat n).toNat = n := by
  rw [UInt8.toNat_ofNat']
  omega

/-- **No encoding is a prefix of another.** Strong induction on the shorter one: the high bit of
the first byte says of both whether they go on, and when they do the byte holds the same seven
bits of both. -/
theorem varint_prefix_iff (m n : ℕ) : varint m <+: varint n ↔ m = n := by
  refine ⟨fun h => ?_, fun h => h ▸ List.prefix_rfl⟩
  induction m using Nat.strongRecOn generalizing n with
  | ind m ih =>
      by_cases hm : 128 ≤ m
      · by_cases hn : 128 ≤ n
        · rw [varint_of_le hm, varint_of_le hn] at h
          obtain ⟨hbyte, hrest⟩ := List.cons_prefix_cons.mp h
          have hlow := congrArg UInt8.toNat hbyte
          rw [toNat_continued, toNat_continued] at hlow
          have hhigh := ih (m / 128) (by omega) (n / 128) hrest
          omega
        · rw [varint_of_le hm, varint_of_lt (Nat.lt_of_not_le hn)] at h
          have hbyte := congrArg UInt8.toNat (List.cons_prefix_cons.mp h).1
          rw [toNat_continued, toNat_last (Nat.lt_of_not_le hn)] at hbyte
          omega
      · by_cases hn : 128 ≤ n
        · rw [varint_of_lt (Nat.lt_of_not_le hm), varint_of_le hn] at h
          have hbyte := congrArg UInt8.toNat (List.cons_prefix_cons.mp h).1
          rw [toNat_continued, toNat_last (Nat.lt_of_not_le hm)] at hbyte
          omega
        · rw [varint_of_lt (Nat.lt_of_not_le hm), varint_of_lt (Nat.lt_of_not_le hn)] at h
          have hbyte := congrArg UInt8.toNat (List.cons_prefix_cons.mp h).1
          rwa [toNat_last (Nat.lt_of_not_le hm), toNat_last (Nat.lt_of_not_le hn)] at hbyte

/-! ### What `to_datas` writes -/

/-- The bytes `to_datas` writes of a value are its canonical varint, of at most `maxBytes`. -/
structure CanonicalVarint {w : ℕ} (value : BitVec w) (maxBytes : ℕ) : Prop where
  /-- a byte for every seven bits, at least one -/
  length : (toDatasInteger value).length = max 1 ((value.toNat.size + 6) / 7)
  /-- no more than the type allows -/
  bound : (toDatasInteger value).length ≤ maxBytes
  /-- the high bit is set on all bytes but the last -/
  continued : ∀ b ∈ (toDatasInteger value).dropLast, 0x80 ≤ b
  /-- there is a last byte, without the high bit, and it is zero for zero alone -/
  ended : ∃ b ∈ (toDatasInteger value).getLast?, b < 0x80 ∧ (b = 0 → value = 0)

/-- A number of `t` has at most seven bits for each of the bytes `t` may take. -/
theorem IntegerT.toNat_lt (t : IntegerT) (value : BitVec t.width) :
    value.toNat < 2 ^ (7 * t.maxBytes) := by
  refine value.isLt.trans_le (Nat.pow_le_pow_right (by omega) ?_)
  cases t
  · exact Nat.le_of_ble_eq_true rfl
  · exact Nat.le_of_ble_eq_true rfl

/-- **The bytes of one value** are its canonical varint. -/
theorem canonicalVarint_toDatas (t : IntegerT) (value : BitVec t.width) :
    CanonicalVarint value t.maxBytes := by
  have hbytes := toDatasInteger_eq_varint t.width_ge value
  have hmost : ∃ k, t.maxBytes = k + 1 := by
    cases t
    · exact ⟨4, rfl⟩
    · exact ⟨9, rfl⟩
  refine ⟨?_, ?_, ?_, ?_⟩
  · rw [hbytes, length_varint]
  · obtain ⟨k, hk⟩ := hmost
    have hlt := t.toNat_lt value
    rw [hk] at hlt
    rw [hbytes, hk]
    exact length_varint_le k hlt
  · rw [hbytes]
    exact varint_continued _
  · rw [hbytes]
    have hlast := List.getLast?_eq_some_getLast (varint_ne_nil value.toNat)
    obtain ⟨hlt, hzero⟩ := varint_ended value.toNat _ hlast
    exact ⟨_, hlast, hlt, fun h => BitVec.eq_of_toNat_eq (hzero h)⟩

/-- **What `to_datas` writes of a `uint32_t` or a `uint64_t`** is the canonical varint of the value;
a value both types hold has the same bytes in both; and the bytes of one value, of either type, are
a prefix of those of another, of either type, only when the two are the same number. -/
theorem toDatas_canonical :
    (∀ (t : IntegerT) (value : BitVec t.width), CanonicalVarint value t.maxBytes) ∧
      (∀ value : BitVec 32, toDatasInteger value = toDatasInteger (value.setWidth 64)) ∧
      ∀ (t t' : IntegerT) (value : BitVec t.width) (value' : BitVec t'.width),
        toDatasInteger value <+: toDatasInteger value' ↔ value.toNat = value'.toNat := by
  refine ⟨canonicalVarint_toDatas, fun value => ?_, fun t t' value value' => ?_⟩
  · have hwide : (value.setWidth 64).toNat = value.toNat :=
      BitVec.toNat_setWidth_of_le (Nat.le_of_ble_eq_true rfl)
    calc toDatasInteger value = varint value.toNat :=
          toDatasInteger_eq_varint IntegerT.uint32.width_ge value
      _ = varint (value.setWidth 64).toNat := by rw [hwide]
      _ = toDatasInteger (value.setWidth 64) :=
          (toDatasInteger_eq_varint IntegerT.uint64.width_ge (value.setWidth 64)).symm
  · rw [toDatasInteger_eq_varint t.width_ge, toDatasInteger_eq_varint t'.width_ge,
      varint_prefix_iff]

end Aquarius
