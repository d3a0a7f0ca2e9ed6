import Aquarius.Library.Decimal
import Aquarius.Binary

/-!
# Message Bodies

The `serialization` interface (`serialize/serialization.hpp`) that every message body
implements, and the implementation the code generator writes for a body with given fields
(`lazytool/cpp_generator.cpp`, for instance `login/proto/login.virgo.cpp`).

A method that reads a buffer assigns the members of its object one by one and may throw in
between; what it assigned before stays. `Reading σ` is the type of such methods: the object
afterwards, in either case, next to the buffer it leaves or the fault it ended with.

The generated methods:

* `from_binary` assigns each field from `binary_parse::from_datas`;
* `from_json` parses the whole buffer and leaves it where it is, returns at once when the
  text is not an object, and assigns each field from the member of its name;
* `from_kv` passes the field itself as second argument, so overload resolution picks the
  template with a forwarding reference, which returns `T{}` and reads nothing.

A body without fields has empty methods. `boost::json` is a parameter (`JsonApi`).

## Main results

* `Generated.binaryFramed`: a generated body is written and read back in binary, with
  anything behind it.
-/

open Decoding

namespace Aquarius

/-! ### The interface -/

/-- A method that rewrites an object of type `σ` from a buffer. -/
abbrev Reading (σ : Type) := σ → Bytes → σ × Except Fault Bytes

/-- The `serialization` interface of a body type `B`, with its default constructor. A
writing method appends bytes and may end with an exception. -/
structure Serialization (B : Type) where
  create : B
  toBinary : B → Bytes × Option Fault
  fromBinary : Reading B
  toJson : B → Bytes × Option Fault
  fromJson : Reading B
  toKv : B → Bytes × Option Fault
  fromKv : Reading B

/-- The framed round trip of the binary methods at a body: it is written without an
exception and read back from any earlier state, up to the bytes that follow it. -/
def Serialization.BinaryFramed {B : Type} (ser : Serialization B) (body : B) : Prop :=
  (ser.toBinary body).2 = none ∧
    ∀ (body₀ : B) (s : Bytes),
      ser.fromBinary body₀ ((ser.toBinary body).1 ++ s) = (body, .ok s)

/-- `enum class serialize_way` -/
inductive SerializeWay where
  | binary
  | json
  | kv
  deriving DecidableEq, Repr

/-- The branch a `switch` on `static_cast<serialize_way>(way)` takes; `none` is `default`. -/
def SerializeWay.ofWay (way : BitVec 16) : Option SerializeWay :=
  if way = 0 then some .binary
  else if way = 1 then some .json
  else if way = 2 then some .kv
  else none

/-! ### Value initialisation -/

mutual

/-- `T{}` -/
def Ty.init : (t : Ty) → t.Val
  | .uint32 => 0#32
  | .uint64 => 0#64
  | .int16 => 0#16
  | .int32 => 0#32
  | .int64 => 0#64
  | .char => 0#8
  | .bool => false
  | .float => 0#32
  | .double => 0#64
  | .fixed32 => 0#32
  | .fixed64 => 0#64
  | .string => ([] : Bytes)
  | .vector _ => []
  | .map _ _ => []
  | .struct _ fields => Ty.initFields fields

/-- The members of a value-initialised aggregate. -/
def Ty.initFields : (ts : List Ty) → Ty.Fields ts
  | [] => ()
  | t :: ts => (t.init, Ty.initFields ts)

end

/-! ### The generated bodies -/

/-- What the generated methods use of `boost::json`: `parse` throws on malformed text,
`isObject` is whether `try_as_object` has a value, and `get` is the member of a name
converted to the type of its field, which throws when the member is missing or of another
kind; `none` stands for the exception. `object` is the object built by the calls of
`emplace`. -/
structure JsonApi where
  Value : Type
  parse : Bytes → Option Value
  isObject : Value → Bool
  get : Bytes → (t : Ty) → Value → Option t.Val
  valueFrom : (t : Ty) → t.Val → Value
  object : List (Bytes × Value) → Value
  serialize : Value → Bytes

/-- The fields of a body as the generator reads them: name and type. -/
abbrev FieldList := List (Bytes × Ty)

/-- The `impl` of a generated body. -/
abbrev Body (fields : FieldList) := Ty.Fields (fields.map Prod.snd)

namespace Generated

variable (order : ByteOrder) (less : KeyLess) (api : JsonApi)

/-- `from_binary` -/
def fromBinary : (fields : FieldList) → Reading (Body fields)
  | [], body, buffer => (body, .ok buffer)
  | (_, t) :: fields, body, buffer =>
      match (fromDatas order less t).run buffer with
      | .error e => (body, .error e)
      | .ok (value, buffer) =>
          let rest := fromBinary fields body.2 buffer
          ((value, rest.1), rest.2)

/-- The calls of `emplace` in `to_json`. -/
def emplaceAll : (fields : FieldList) → Body fields → List (Bytes × api.Value)
  | [], _ => []
  | (name, t) :: fields, body => (name, api.valueFrom t body.1) :: emplaceAll fields body.2

/-- `to_json` -/
def toJson (fields : FieldList) (body : Body fields) : Bytes :=
  if fields.isEmpty then [] else api.serialize (api.object (emplaceAll api fields body))

/-- The assignments of `from_json`, from the parsed object. -/
def assignAll : (fields : FieldList) → Body fields → api.Value →
    Body fields × Except Fault Unit
  | [], body, _ => (body, .ok ())
  | (name, t) :: fields, body, object =>
      match api.get name t object with
      | none => (body, .error .jsonError)
      | some value =>
          let rest := assignAll fields body.2 object
          ((value, rest.1), rest.2)

/-- `from_json` -/
def fromJson (fields : FieldList) : Reading (Body fields) := fun body buffer =>
  if fields.isEmpty then (body, .ok buffer)
  else
    match api.parse buffer with
    | none => (body, .error .jsonError)
    | some object =>
        if api.isObject object then
          let assigned := assignAll api fields body object
          (assigned.1, assigned.2.map fun _ => buffer)
        else (body, .ok buffer)

/-- A body of one field is the member the parsed object has under its name. -/
theorem fromJson_of_get {name text : Bytes} {t : Ty} {object : api.Value} {value : t.Val}
    (hparse : api.parse text = some object) (hobject : api.isObject object = true)
    (hget : api.get name t object = some value) (body₀ : Body [(name, t)]) :
    fromJson api [(name, t)] body₀ text = ((value, ()), .ok text) := by
  have hassign : assignAll api [(name, t)] body₀ object = ((value, ()), .ok ()) := by
    rw [assignAll, hget]
    rfl
  rw [fromJson, if_neg (by simp), hparse]
  simp only [if_pos hobject, hassign]
  rfl

/-- `to_kv`: `kv_parse::to_datas` without a name writes nothing, so only the separators
are written. -/
def toKv : FieldList → Bytes
  | [] => []
  | _ :: fields => 0x3f :: List.replicate fields.length 0x3d

/-- `from_kv` -/
def fromKv (fields : FieldList) : Reading (Body fields) := fun _ buffer =>
  (Ty.initFields (fields.map Prod.snd), .ok buffer)

/-- The class generated for a body with the given fields. -/
def serialization (fields : FieldList) : Serialization (Body fields) where
  create := Ty.initFields (fields.map Prod.snd)
  toBinary body := (toDatasFields order (fields.map Prod.snd) body, none)
  fromBinary := fromBinary order less fields
  toJson body := (toJson api fields body, none)
  fromJson := fromJson api fields
  toKv _ := (toKv fields, none)
  fromKv := fromKv fields

/-- The fields are read back one after another. -/
theorem fromBinary_toDatasFields (fields : FieldList) (body : Body fields)
    (hbody : Ty.FieldsOk FitsDoubled less (fields.map Prod.snd) body) (body₀ : Body fields)
    (s : Bytes) :
    fromBinary order less fields body₀
      (toDatasFields order (fields.map Prod.snd) body ++ s) = (body, .ok s) := by
  induction fields with
  | nil => rfl
  | cons f fields ih =>
      obtain ⟨name, t⟩ := f
      have hfirst := reads_fromDatas order less t body.1 hbody.1
        (toDatasFields order (fields.map Prod.snd) body.2 ++ s)
      have hrest := ih body.2 hbody.2 body₀.2
      have hsplit : toDatasFields order (((name, t) :: fields).map Prod.snd) body =
          toDatas order t body.1 ++ toDatasFields order (fields.map Prod.snd) body.2 := rfl
      rw [hsplit, List.append_assoc, fromBinary, hfirst]
      simp only [hrest]
      rfl

/-- **Generated bodies are framed**: a body whose `int32_t`s survive their zig-zag image is
read back from its binary form, whatever the object held before. -/
theorem binaryFramed (fields : FieldList) (body : Body fields)
    (hbody : Ty.FieldsOk FitsDoubled less (fields.map Prod.snd) body) :
    (serialization order less api fields).BinaryFramed body :=
  ⟨rfl, fromBinary_toDatasFields order less fields body hbody⟩

end Generated

/-! ### Objects of one number -/

/-- The JSON values a body with one `uint32` field needs. -/
inductive NumberValue where
  | number (n : ℕ)
  | object (name : Bytes) (n : ℕ)
  deriving DecidableEq, Repr

namespace NumberValue

/-- The text `{"name":n}` of an object, and the numeral of a number. -/
def text : NumberValue → Bytes
  | number n => decimal n
  | object name n => [0x7b, 0x22] ++ name ++ [0x22, 0x3a] ++ decimal n ++ [0x7d]

/-- Parse an object of one number. -/
def ofText : Bytes → Option NumberValue
  | 0x7b :: 0x22 :: rest =>
      match rest.span (· ≠ 0x22) with
      | (name, 0x22 :: 0x3a :: rest) =>
          match readDigits 0 rest with
          | (n, [0x7d]) => some (object name n)
          | _ => none
      | _ => none
  | _ => none

/-- An object with one number named `id` is parsed from its text. -/
theorem ofText_text_id (n : ℕ) :
    ofText (text (.object [105, 100] n)) = some (.object [105, 100] n) := by
  have hdigits : readDigits 0 (decimal n ++ [0x7d]) = (n, [0x7d]) :=
    readDigits_decimal n (by
      intro b hb
      obtain rfl := Option.some.inj hb
      rfl)
  have htext : text (.object [105, 100] n) =
      0x7b :: 0x22 :: 105 :: 100 :: 0x22 :: 0x3a :: (decimal n ++ [0x7d]) := by
    simp [text]
  have hspan : List.span (fun b : UInt8 => decide (b ≠ 0x22))
      (105 :: 100 :: 0x22 :: 0x3a :: (decimal n ++ [0x7d])) =
        ([105, 100], 0x22 :: 0x3a :: (decimal n ++ [0x7d])) := rfl
  rw [htext, ofText]
  simp only [hspan, hdigits]

/-- The member of an object, by `as_int64` and a cast to `uint32`. -/
def get (name : Bytes) : (t : Ty) → NumberValue → Option t.Val
  | .uint32, object name' n =>
      if name = name' ∧ n < 2 ^ 63 then some (BitVec.ofNat 32 n) else none
  | _, _ => none

end NumberValue

/-- `boost::json` as far as objects with one `uint32` member go. -/
def numberJson : JsonApi where
  Value := NumberValue
  parse := NumberValue.ofText
  isObject
    | .number _ => false
    | .object _ _ => true
  get := NumberValue.get
  valueFrom
    | .uint32, v => .number (BitVec.toNat (w := 32) v)
    | _, _ => .number 0
  object
    | [(name, .number n)] => .object name n
    | _ => .number 0
  serialize := NumberValue.text

end Aquarius
