import Aquarius.Library.Decoder
import Mathlib.Tactic.Ring

/-!
# Raw Images of Fixed-Width Numbers

The object representation of an unsigned number of `n` bytes: its base-256 digits, least
significant first on a little-endian machine and last on a big-endian one. `image` writes
it, `value` reads it back, and `value_image` says that a number that fits survives,
whatever the byte order, as long as both sides use the same one.
-/

namespace Decoding

/-- The byte order of a machine. -/
inductive ByteOrder where
  | little
  | big
  deriving DecidableEq, Repr

/-- The `n` low base-256 digits of a number, least significant first. -/
def digits256 : ℕ → ℕ → Bytes
  | 0, _ => []
  | n + 1, v => UInt8.ofNat v :: digits256 n (v / 256)

/-- The number whose base-256 digits, least significant first, are the given bytes. -/
def ofDigits256 : Bytes → ℕ
  | [] => 0
  | b :: bs => b.toNat + 256 * ofDigits256 bs

@[simp] theorem length_digits256 (n v : ℕ) : (digits256 n v).length = n := by
  induction n generalizing v with
  | zero => rfl
  | succ n ih => rw [digits256, List.length_cons, ih]

/-- Reading the digits back gives the number modulo the width. -/
theorem ofDigits256_digits256 (n v : ℕ) : ofDigits256 (digits256 n v) = v % 256 ^ n := by
  induction n generalizing v with
  | zero => simp [digits256, ofDigits256, Nat.mod_one]
  | succ n ih =>
      have hdigit : (UInt8.ofNat v).toNat = v % 256 := UInt8.toNat_ofNat'
      rw [digits256, ofDigits256, ih, hdigit, pow_succ', Nat.mod_mul]

namespace ByteOrder

/-- The object representation of `v` in `n` bytes. -/
def image (order : ByteOrder) (n v : ℕ) : Bytes :=
  match order with
  | little => digits256 n v
  | big => (digits256 n v).reverse

/-- The number a block of bytes represents. -/
def value (order : ByteOrder) (bs : Bytes) : ℕ :=
  match order with
  | little => ofDigits256 bs
  | big => ofDigits256 bs.reverse

@[simp] theorem length_image (order : ByteOrder) (n v : ℕ) :
    (order.image n v).length = n := by
  cases order with
  | little => exact length_digits256 n v
  | big => rw [image, List.length_reverse, length_digits256]

/-- **Raw round trip**: a number that fits its width is read back from its image. -/
theorem value_image (order : ByteOrder) {n v : ℕ} (h : v < 256 ^ n) :
    order.value (order.image n v) = v := by
  cases order with
  | little => rw [value, image, ofDigits256_digits256, Nat.mod_eq_of_lt h]
  | big => rw [value, image, List.reverse_reverse, ofDigits256_digits256, Nat.mod_eq_of_lt h]

end ByteOrder

end Decoding
