import Aquarius.Library.ByteOrder
import Aquarius.Library.OrderedMap
import Aquarius.Varint

/-!
# The Binary Format of `binary_parse`

`binary_parse::to_datas` and `from_datas` (`serialize/binary.hpp`) over the whole universe
of types its concepts admit (`concepts.hpp`). `Ty` is the syntax of that universe, `Ty.Val`
its values, and the two overload sets are one function each, by recursion on the type:
`toDatas` and `fromDatas`.

What a compiled program takes from elsewhere is explicit: the byte order of the machine,
which the plain and fixed types are copied in, and the comparator of every key type, the
`std::less` of its `std::map`s. The results hold for every choice of both.

`Ty.Val` is the type of the raw contents. A C++ object also keeps the promises of its
containers, that no size exceeds `max_size()` and that a map is in the order of its
comparator: `Ty.Ok` states them, and `Object` carries them along.

## Main results

* `reads_fromDatas`: every value that keeps those promises, and whose `int32_t`s survive
  their zig-zag image, is read back from its encoding, by induction over the type.
* `fromDatas_toDatas`: **the round trip** at every type without `int32_t`, with any bytes
  behind the encoding.
-/

open Decoding

namespace Aquarius

/-! ### The type universe -/

/-- The types with a binary codec. A `struct` is an aggregate with the types of its
members in order, as `boost::pfr` enumerates them. -/
inductive Ty where
  | uint32
  | uint64
  | int16
  | int32
  | int64
  | char
  | bool
  | float
  | double
  | fixed32
  | fixed64
  | string
  | vector (elem : Ty)
  | map (key value : Ty)
  | struct (name : String) (fields : List Ty)

mutual

/-- The contents of an object of each type. Integers and floating-point numbers are bit
patterns, a map is the sequence of its entries. -/
def Ty.Val : Ty → Type
  | .uint32 => BitVec 32
  | .uint64 => BitVec 64
  | .int16 => BitVec 16
  | .int32 => BitVec 32
  | .int64 => BitVec 64
  | .char => BitVec 8
  | .bool => Bool
  | .float => BitVec 32
  | .double => BitVec 64
  | .fixed32 => BitVec 32
  | .fixed64 => BitVec 64
  | .string => Bytes
  | .vector elem => List elem.Val
  | .map key value => List (key.Val × value.Val)
  | .struct _ fields => Ty.Fields fields

/-- The contents of the members of an aggregate. -/
def Ty.Fields : List Ty → Type
  | [] => Unit
  | t :: ts => t.Val × Ty.Fields ts

end

/-- The comparator `std::less` of every key type. -/
abbrev KeyLess := ∀ key : Ty, key.Val → key.Val → Bool

/-- The comparators of the built-in key types; an aggregate brings its own. -/
def stdLess (userLess : KeyLess) : KeyLess
  | .uint32 => BitVec.ult (n := 32)
  | .uint64 => BitVec.ult (n := 64)
  | .int16 => BitVec.slt (n := 16)
  | .int32 => BitVec.slt (n := 32)
  | .int64 => BitVec.slt (n := 64)
  | .string => fun (a b : Bytes) => decide (a < b)
  | key => userLess key

/-- The largest size a container can have (`PTRDIFF_MAX`). -/
def maxSize : ℕ := 2 ^ 63 - 1

/-! ### Writing -/

/-- `to_datas` of a `value.size()`, a `std::size_t`. -/
def toDatasSize (size : ℕ) : Bytes :=
  toDatasInteger (BitVec.ofNat 64 size)

/-- `to_datas` for `string_t`: the size, then the characters. -/
def toDatasString (value : Bytes) : Bytes :=
  toDatasSize value.length ++ value

/-- A short string carries its size in one byte. -/
theorem toDatasString_of_lt {value : Bytes} (h : value.length < 128) :
    toDatasString value = UInt8.ofNat value.length :: value := by
  have hsize : (BitVec.ofNat 64 value.length).toNat = value.length := by
    rw [BitVec.toNat_ofNat]
    omega
  rw [toDatasString, toDatasSize, toDatasInteger_eq_varint (by omega), hsize, varint_of_lt h]
  rfl

/-- `to_datas` for `repeated_t`: the size, then the elements. -/
def toDatasRepeated {α : Type} (toElem : α → Bytes) (value : List α) : Bytes :=
  toDatasSize value.length ++ value.flatMap toElem

/-- `to_datas` for `map_t`: the size, then key and value of each entry. -/
def toDatasMap {κ ν : Type} (toKey : κ → Bytes) (toValue : ν → Bytes)
    (value : List (κ × ν)) : Bytes :=
  toDatasSize value.length ++ value.flatMap fun v => toKey v.1 ++ toValue v.2

/-- `to_datas` for `pod_t` and `fixed_t`: the object representation, `n` bytes of it. -/
def toDatasRaw (order : ByteOrder) (n : ℕ) {w : ℕ} (value : BitVec w) : Bytes :=
  order.image n value.toNat

mutual

/-- `binary_parse::to_datas`. -/
def toDatas (order : ByteOrder) : (t : Ty) → t.Val → Bytes
  | .uint32, v => toDatasInteger (w := 32) v
  | .uint64, v => toDatasInteger (w := 64) v
  | .int16, v => toDatasZigZag (w := 16) v
  | .int32, v => toDatasZigZag (w := 32) v
  | .int64, v => toDatasZigZag (w := 64) v
  | .char, v => toDatasRaw order 1 (w := 8) v
  | .bool, v => toDatasRaw order 1 (BitVec.ofNat 8 (Bool.toNat v))
  | .float, v => toDatasRaw order 4 (w := 32) v
  | .double, v => toDatasRaw order 8 (w := 64) v
  | .fixed32, v => toDatasRaw order 4 (w := 32) v
  | .fixed64, v => toDatasRaw order 8 (w := 64) v
  | .string, v => toDatasString v
  | .vector elem, v => toDatasRepeated (toDatas order elem) v
  | .map key value, v => toDatasMap (toDatas order key) (toDatas order value) v
  | .struct _ fields, v => toDatasFields order fields v

/-- The comma fold of `to_datas` for `reflectable`: the members in order. -/
def toDatasFields (order : ByteOrder) : (ts : List Ty) → Ty.Fields ts → Bytes
  | [], _ => []
  | t :: ts, v => toDatas order t v.1 ++ toDatasFields order ts v.2

end

/-! ### Reading -/

/-- `std::streambuf::sgetn`: as many bytes as there are, up to `n`. -/
def sgetn (n : ℕ) : Decoder Fault Bytes := fun buff => .ok (buff.take n, buff.drop n)

/-- `resize` of a string or vector, which throws above `max_size()`. -/
def resize (size : ℕ) : Decoder Fault Unit :=
  if maxSize < size then throw .lengthError else pure ()

/-- `from_datas<std::size_t>`. -/
def fromDatasSize : Decoder Fault ℕ :=
  BitVec.toNat <$> fromDatasInteger 64

/-- `from_datas` for `string_t`. What `sgetn` does not deliver stays zero-filled. -/
def fromDatasString : Decoder Fault Bytes := do
  let size ← fromDatasSize
  resize size
  let value ← sgetn size
  pure (value ++ List.replicate (size - value.length) 0)

/-- `from_datas` for `repeated_t`. -/
def fromDatasRepeated {α : Type} (fromElem : Decoder Fault α) : Decoder Fault (List α) := do
  let size ← fromDatasSize
  resize size
  readMany fromElem size

/-- `from_datas` for `map_t`: `value[first] = second` for each entry read. -/
def fromDatasMap {κ ν : Type} (less : κ → κ → Bool) (fromKey : Decoder Fault κ)
    (fromValue : Decoder Fault ν) : Decoder Fault (List (κ × ν)) := do
  let size ← fromDatasSize
  foldRead (fun value => do
    let first ← fromKey
    let second ← fromValue
    pure (OrderedMap.assign less first second value)) size []

/-- `from_datas` for `pod_t`: the size is checked, the representation copied. -/
def fromDatasPod (order : ByteOrder) (n w : ℕ) : Decoder Fault (BitVec w) :=
  (fun bs => BitVec.ofNat w (order.value bs)) <$> readBytes .outOfRange n

/-- `from_datas<bool>`: reading a byte other than `0` and `1` as a `bool` is undefined. -/
def fromDatasBool (order : ByteOrder) : Decoder Fault Bool := do
  let byte ← fromDatasPod order 1 8
  if byte = 0 then pure false
  else if byte = 1 then pure true
  else throw .undefined

/-- `from_datas` for `fixed_t`: what was read is checked afterwards. -/
def fromDatasFixed (order : ByteOrder) (n w : ℕ) : Decoder Fault (BitVec w) := do
  let bs ← sgetn n
  if bs.length ≠ n then throw .outOfRange
  else pure (BitVec.ofNat w (order.value bs))

mutual

/-- `binary_parse::from_datas`. -/
def fromDatas (order : ByteOrder) (less : KeyLess) : (t : Ty) → Decoder Fault t.Val
  | .uint32 => fromDatasInteger 32
  | .uint64 => fromDatasInteger 64
  | .int16 => fromDatasZigZag 16
  | .int32 => fromDatasZigZag 32
  | .int64 => fromDatasZigZag 64
  | .char => fromDatasPod order 1 8
  | .bool => fromDatasBool order
  | .float => fromDatasPod order 4 32
  | .double => fromDatasPod order 8 64
  | .fixed32 => fromDatasFixed order 4 32
  | .fixed64 => fromDatasFixed order 8 64
  | .string => fromDatasString
  | .vector elem => fromDatasRepeated (fromDatas order less elem)
  | .map key value =>
      fromDatasMap (less key) (fromDatas order less key) (fromDatas order less value)
  | .struct _ fields => fromDatasFields order less fields

/-- The braced initialiser of `from_datas` for `reflectable`: the members in order. -/
def fromDatasFields (order : ByteOrder) (less : KeyLess) :
    (ts : List Ty) → Decoder Fault (Ty.Fields ts)
  | [] => pure ()
  | t :: ts => do
      let first ← fromDatas order less t
      let rest ← fromDatasFields order less ts
      pure (first, rest)

end

/-! ### What an object promises -/

/-- A sequence of admissible size whose elements all satisfy `P`. -/
def SequenceOk {α : Type} (P : α → Prop) (value : List α) : Prop :=
  value.length ≤ maxSize ∧ ∀ v ∈ value, P v

mutual

/-- The promises an object of type `t` keeps: no container is larger than `max_size()`,
every map is in the order of its comparator, and every `int32_t` satisfies `int32Ok`. -/
def Ty.Ok (int32Ok : BitVec 32 → Prop) (less : KeyLess) : (t : Ty) → t.Val → Prop
  | .int32, v => int32Ok v
  | .string, v => SequenceOk (fun _ : UInt8 => True) v
  | .vector elem, v => SequenceOk (Ty.Ok int32Ok less elem) v
  | .map key value, v =>
      OrderedMap.Ordered (less key) v ∧
        SequenceOk (fun e => Ty.Ok int32Ok less key e.1 ∧ Ty.Ok int32Ok less value e.2) v
  | .struct _ fields, v => Ty.FieldsOk int32Ok less fields v
  | _, _ => True

/-- The promises of the members of an aggregate. -/
def Ty.FieldsOk (int32Ok : BitVec 32 → Prop) (less : KeyLess) :
    (ts : List Ty) → Ty.Fields ts → Prop
  | [], _ => True
  | t :: ts, v => Ty.Ok int32Ok less t v.1 ∧ Ty.FieldsOk int32Ok less ts v.2

end

/-- An object of type `t`: contents that keep the promises of its containers. -/
structure Object (less : KeyLess) (t : Ty) where
  val : t.Val
  ok : t.Ok (fun _ => True) less val

/-- A `std::string` or string literal: its characters, of an admissible number. -/
structure StdString where
  val : Bytes
  size_le : val.length ≤ maxSize

/-! ### Round trips, overload by overload -/

/-- An admissible size is framed. -/
theorem reads_fromDatasSize {size : ℕ} (h : size ≤ maxSize) :
    Reads fromDatasSize (toDatasSize size) size := by
  have hlt : size < 2 ^ 64 := by
    rw [maxSize] at h
    omega
  have hread := (reads_fromDatasInteger (by omega) (BitVec.ofNat 64 size)).map BitVec.toNat
  rwa [BitVec.toNat_ofNat, Nat.mod_eq_of_lt hlt] at hread

/-- An admissible size passes `resize`. -/
theorem reads_resize {size : ℕ} (h : size ≤ maxSize) : Reads (resize size) [] () := by
  rw [resize, if_neg (by omega)]
  exact Reads.pure ()

/-- A string is framed. -/
theorem reads_fromDatasString {value : Bytes} (h : value.length ≤ maxSize) :
    Reads fromDatasString (toDatasString value) value := by
  have hget : Reads (sgetn value.length) value value := by
    intro s
    simp only [StateT.run, sgetn, List.take_left, List.drop_left]
  have hfill := hget.bind_pure fun bs => bs ++ List.replicate (value.length - bs.length) 0
  rw [Nat.sub_self, List.replicate_zero, List.append_nil] at hfill
  exact (reads_fromDatasSize h).bind ((reads_resize h).check hfill)

/-- A vector is framed when its elements are. -/
theorem reads_fromDatasRepeated {α : Type} {fromElem : Decoder Fault α} {toElem : α → Bytes}
    {value : List α} (h : SequenceOk (fun v => Reads fromElem (toElem v) v) value) :
    Reads (fromDatasRepeated fromElem) (toDatasRepeated toElem value) value :=
  (reads_fromDatasSize h.1).bind ((reads_resize h.1).check (Reads.readMany toElem h.2))

/-- A map in the order of its comparator is framed when its keys and values are: the
entries arrive in order, so each assignment appends. -/
theorem reads_fromDatasMap {κ ν : Type} {less : κ → κ → Bool} {fromKey : Decoder Fault κ}
    {fromValue : Decoder Fault ν} {toKey : κ → Bytes} {toValue : ν → Bytes}
    {value : List (κ × ν)} (hord : OrderedMap.Ordered less value)
    (h : SequenceOk (fun e => Reads fromKey (toKey e.1) e.1 ∧
      Reads fromValue (toValue e.2) e.2) value) :
    Reads (fromDatasMap less fromKey fromValue) (toDatasMap toKey toValue value) value := by
  have hstep : ∀ acc, ∀ e ∈ value,
      Reads (do
        let first ← fromKey
        let second ← fromValue
        pure (OrderedMap.assign less first second acc))
        (toKey e.1 ++ toValue e.2) (OrderedMap.assign less e.1 e.2 acc) := by
    intro acc e he
    obtain ⟨hkey, hvalue⟩ := h.2 e he
    exact hkey.bind (hvalue.bind_pure fun second => OrderedMap.assign less e.1 second acc)
  have hloop := Reads.foldRead (fun e : κ × ν => toKey e.1 ++ toValue e.2)
    (fun acc e => OrderedMap.assign less e.1 e.2 acc) [] hstep
  rw [OrderedMap.foldl_assign less hord] at hloop
  exact (reads_fromDatasSize h.1).bind hloop

/-- The representation of a number of `n` bytes determines it. -/
private theorem ofNat_value_toDatasRaw (order : ByteOrder) (n : ℕ) {w : ℕ} (hw : w = 8 * n)
    (value : BitVec w) : BitVec.ofNat w (order.value (toDatasRaw order n value)) = value := by
  have hlt : value.toNat < 256 ^ n := by
    have hpow : 2 ^ w = 256 ^ n := by rw [hw, pow_mul, show 2 ^ 8 = 256 from rfl]
    rw [← hpow]
    exact value.isLt
  rw [toDatasRaw, ByteOrder.value_image order hlt, BitVec.ofNat_toNat, BitVec.setWidth_eq]

/-- A plain type is framed by the size of its representation. -/
theorem reads_fromDatasPod (order : ByteOrder) (n : ℕ) {w : ℕ} (hw : w = 8 * n)
    (value : BitVec w) :
    Reads (fromDatasPod order n w) (toDatasRaw order n value) value := by
  have hlen : (toDatasRaw order n value).length = n := ByteOrder.length_image order n _
  have hread := (Reads.readBytes Fault.outOfRange (toDatasRaw order n value)).map
    fun bs => BitVec.ofNat w (order.value bs)
  rwa [hlen, ofNat_value_toDatasRaw order n hw] at hread

/-- A `bool` is framed. -/
theorem reads_fromDatasBool (order : ByteOrder) (value : Bool) :
    Reads (fromDatasBool order) (toDatasRaw order 1 (BitVec.ofNat 8 value.toNat)) value := by
  have hpod := reads_fromDatasPod order 1 rfl (BitVec.ofNat 8 value.toNat)
  rw [← List.append_nil (toDatasRaw order 1 _)]
  refine hpod.bind ?_
  cases value with
  | false => exact Reads.pure false
  | true => exact Reads.pure true

/-- A fixed-width type is framed. -/
theorem reads_fromDatasFixed (order : ByteOrder) (n : ℕ) {w : ℕ} (hw : w = 8 * n)
    (value : BitVec w) :
    Reads (fromDatasFixed order n w) (toDatasRaw order n value) value := by
  have hlen : (toDatasRaw order n value).length = n := ByteOrder.length_image order n _
  have hget : Reads (sgetn n) (toDatasRaw order n value) (toDatasRaw order n value) := by
    intro s
    simp only [StateT.run, sgetn]
    rw [List.take_left' hlen, List.drop_left' hlen]
  rw [← List.append_nil (toDatasRaw order n _)]
  refine hget.bind ?_
  rw [if_neg (not_not_intro hlen), ofNat_value_toDatasRaw order n hw]
  exact Reads.pure value

/-! ### The round trip over the universe -/

mutual

/-- **Every object is framed**, if its `int32_t`s survive their zig-zag image. The
recursion is that of the overload set over the type. -/
theorem reads_fromDatas (order : ByteOrder) (less : KeyLess) :
    (t : Ty) → (v : t.Val) → t.Ok FitsDoubled less v →
      Reads (fromDatas order less t) (toDatas order t v) v
  | .uint32, v, _ => reads_fromDatasInteger (by omega) (w := 32) v
  | .uint64, v, _ => reads_fromDatasInteger (by omega) (w := 64) v
  | .int16, v, _ => reads_fromDatasZigZag_self (by omega) (by omega) (w := 16) v
  | .int32, _, hv => reads_fromDatasZigZag_of_small hv
  | .int64, v, _ => reads_fromDatasZigZag_self (by omega) (by omega) (w := 64) v
  | .char, v, _ => reads_fromDatasPod order 1 rfl (w := 8) v
  | .bool, v, _ => reads_fromDatasBool order v
  | .float, v, _ => reads_fromDatasPod order 4 rfl (w := 32) v
  | .double, v, _ => reads_fromDatasPod order 8 rfl (w := 64) v
  | .fixed32, v, _ => reads_fromDatasFixed order 4 rfl (w := 32) v
  | .fixed64, v, _ => reads_fromDatasFixed order 8 rfl (w := 64) v
  | .string, _, hv => reads_fromDatasString hv.1
  | .vector elem, _, hv =>
      reads_fromDatasRepeated ⟨hv.1, fun e he => reads_fromDatas order less elem e (hv.2 e he)⟩
  | .map key value, _, hv =>
      reads_fromDatasMap hv.1 ⟨hv.2.1, fun e he =>
        ⟨reads_fromDatas order less key e.1 (hv.2.2 e he).1,
          reads_fromDatas order less value e.2 (hv.2.2 e he).2⟩⟩
  | .struct _ fields, v, hv => reads_fromDatasFields order less fields v hv

/-- The members of an aggregate are framed one after another. -/
theorem reads_fromDatasFields (order : ByteOrder) (less : KeyLess) :
    (ts : List Ty) → (v : Ty.Fields ts) → Ty.FieldsOk FitsDoubled less ts v →
      Reads (fromDatasFields order less ts) (toDatasFields order ts v) v
  | [], _, _ => Reads.pure ()
  | t :: ts, v, hv => by
      have hfirst := reads_fromDatas order less t v.1 hv.1
      have hrest := reads_fromDatasFields order less ts v.2 hv.2
      exact hfirst.bind (hrest.bind_pure (Prod.mk v.1))

end

/-- The element type that `std::vector` packs. -/
def Ty.isBool : Ty → Bool
  | .bool => true
  | _ => false

mutual

/-- The types without an `int32_t` in them and without a `std::vector<bool>`, which
`to_datas` does not compile for. `from_datas` asks for the constant key type of a map and does not
compile for maps keyed by `char`, `bool`, `float`, `double`, a vector, a map or an aggregate;
nothing here depends on that, so these are left in. -/
def Ty.admitted : Ty → Bool
  | .int32 => false
  | .vector elem => !elem.isBool && elem.admitted
  | .map key value => key.admitted && value.admitted
  | .struct _ fields => Ty.fieldsAdmitted fields
  | _ => true

/-- Every member of an aggregate is admitted. -/
def Ty.fieldsAdmitted : List Ty → Bool
  | [] => true
  | t :: ts => t.admitted && Ty.fieldsAdmitted ts

end

mutual

/-- Where there is no `int32_t`, nothing is asked of one. -/
theorem Ty.ok_of_admitted {P Q : BitVec 32 → Prop} {less : KeyLess} :
    (t : Ty) → t.admitted = true → (v : t.Val) → t.Ok P less v → t.Ok Q less v
  | .int32, ht, _, _ => absurd ht Bool.false_ne_true
  | .string, _, _, hv => hv
  | .vector elem, ht, _, hv => by
      obtain ⟨-, helem⟩ := Bool.and_eq_true_iff.mp ht
      exact ⟨hv.1, fun e he => Ty.ok_of_admitted elem helem e (hv.2 e he)⟩
  | .map key value, ht, _, hv => by
      obtain ⟨hkey, hvalue⟩ := Bool.and_eq_true_iff.mp ht
      exact ⟨hv.1, hv.2.1, fun e he => ⟨Ty.ok_of_admitted key hkey e.1 (hv.2.2 e he).1,
        Ty.ok_of_admitted value hvalue e.2 (hv.2.2 e he).2⟩⟩
  | .struct _ fields, ht, v, hv => Ty.fieldsOk_of_admitted fields ht v hv
  | .uint32, _, _, _ | .uint64, _, _, _ | .int16, _, _, _ | .int64, _, _, _
  | .char, _, _, _ | .bool, _, _, _ | .float, _, _, _ | .double, _, _, _
  | .fixed32, _, _, _ | .fixed64, _, _, _ => trivial

/-- The same for the members of an aggregate. -/
theorem Ty.fieldsOk_of_admitted {P Q : BitVec 32 → Prop} {less : KeyLess} :
    (ts : List Ty) → Ty.fieldsAdmitted ts = true → (v : Ty.Fields ts) →
      Ty.FieldsOk P less ts v → Ty.FieldsOk Q less ts v
  | [], _, _, _ => trivial
  | t :: ts, hts, v, hv => by
      obtain ⟨ht, hts⟩ := Bool.and_eq_true_iff.mp hts
      exact ⟨Ty.ok_of_admitted t ht v.1 hv.1, Ty.fieldsOk_of_admitted ts hts v.2 hv.2⟩

end

/-- **The binary round trip.** At every admitted type, an object is read back from its
encoding, and whatever follows the encoding is left in the buffer. -/
theorem fromDatas_toDatas (order : ByteOrder) (less : KeyLess) (t : Ty)
    (ht : t.admitted = true) (v : Object less t) (s : Bytes) :
    (fromDatas order less t).run (toDatas order t v.val ++ s) = .ok (v.val, s) :=
  reads_fromDatas order less t v.val (Ty.ok_of_admitted t ht v.val v.ok) s

/-- `std::vector<std::map<std::string, point>>` for a `point` of two members. -/
def pointTable : Ty := .vector (.map .string (.struct "point" [.int16, .double]))

/-- A table with one map of two entries. -/
def twoPoints : Object (stdLess fun _ _ _ => false) pointTable where
  val := ([[([97], (0xffff#16, 0#64, ())), ([98], (2#16, 1#64, ()))]] :
    List (List (Bytes × BitVec 16 × BitVec 64 × Unit)))
  ok := by
    refine ⟨by decide, fun m hm => ?_⟩
    obtain rfl := List.mem_singleton.mp hm
    refine ⟨?_, by decide, fun e he => ⟨⟨?_, fun _ _ => trivial⟩, trivial, trivial, trivial⟩⟩
    · exact List.pairwise_pair.mpr rfl
    · rcases List.mem_pair.mp he with rfl | rfl <;> decide

/-- The round trip of the sample table, with a byte behind it. -/
theorem fromDatas_toDatas_twoPoints :
    (fromDatas .little (stdLess fun _ _ _ => false) pointTable).run
        (toDatas .little pointTable twoPoints.val ++ [7]) = .ok (twoPoints.val, [7]) :=
  fromDatas_toDatas .little _ pointTable (by decide) twoPoints [7]

end Aquarius
