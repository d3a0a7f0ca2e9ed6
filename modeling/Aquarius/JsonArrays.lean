import Aquarius.GeneratedBodies

/-!
# Byte Arrays in JSON

`json_value_to_array` and `json_value_from_array` (`serialize/json.hpp`) carry the bytes of a
`bytes` field through a JSON array of integers. The generated `from_json` hands the first of them
whatever value stands under the name of the field in the body of a request, so its elements may be
of every kind. Each is asked for its integer with `try_as_int64`, whose result is dereferenced
without a look at whether it holds one; of the array itself the function does look
(`arr.has_error()`).

The results that are dereferenced are listed here (`dereferenced`), and `jsonValueToArray_eq`
connects the list with what the function returns.

## Main results

* `jsonValueToArray_eq_some_iff`: on which values the function returns, and what.
* `jsonValueToArray_fromArray`: the round trip, for a signed `char` as for an unsigned one.
* `assignArray_undefined_iff`: when a generated `from_json` reaches undefined behaviour here.
* `readsIntegers_iff`: **only integers are read exactly when the array holds nothing else**.
-/

open Decoding

namespace Aquarius.Lazytool

/-! ### What is dereferenced -/

/-- The errors of the accessors of `json::value` that do not throw. -/
inductive JsonErrorCode where
  /-- `json::error::not_array` -/
  | notArray
  /-- `json::error::not_int64` -/
  | notInt64
  deriving DecidableEq, Repr

/-- `value::try_as_array` -/
def tryAsArray : JsonValue → Except JsonErrorCode (List JsonValue)
  | .array vs => .ok vs
  | _ => .error .notArray

/-- `value::try_as_int64` -/
def tryAsInt64 : JsonValue → Except JsonErrorCode (BitVec 64)
  | .int64 v => .ok v
  | _ => .error .notInt64

/-- `has_value` of a `boost::system::result`. -/
def HasValue {α : Type} : Except JsonErrorCode α → Prop
  | .ok _ => True
  | .error _ => False

instance {α : Type} : (r : Except JsonErrorCode α) → Decidable (HasValue r)
  | .ok _ => isTrue trivial
  | .error _ => isFalse not_false

/-- The results that the `std::transform` of `json_value_to_array` dereferences, in their order:
one for each element, and none when the value is no array. -/
def dereferenced (v : JsonValue) : List (Except JsonErrorCode (BitVec 64)) :=
  match tryAsArray v with
  | .error _ => []
  | .ok arr => arr.map tryAsInt64

/-- The result of `try_as_int64` is only dereferenced when it holds a value. -/
def ReadsIntegers (v : JsonValue) : Prop := ∀ r ∈ dereferenced v, HasValue r

instance (v : JsonValue) : Decidable (ReadsIntegers v) :=
  inferInstanceAs (Decidable (∀ r ∈ dereferenced v, HasValue r))

/-- A value of kind `int64`. -/
def IsInt64 : JsonValue → Prop
  | .int64 _ => True
  | _ => False

/-- Every element is of kind `int64`, if there are elements at all. -/
def HoldsIntegers : JsonValue → Prop
  | .array vs => ∀ x ∈ vs, IsInt64 x
  | _ => True

/-- `try_as_int64` holds a value for the kind it is named after, and for no other. -/
theorem hasValue_tryAsInt64_iff (x : JsonValue) : HasValue (tryAsInt64 x) ↔ IsInt64 x := by
  cases x <;> exact Iff.rfl

/-- The kinds of the elements decide on what is read. -/
theorem readsIntegers_iff_holdsIntegers (v : JsonValue) : ReadsIntegers v ↔ HoldsIntegers v := by
  cases v with
  | array vs =>
      change (∀ r ∈ vs.map tryAsInt64, HasValue r) ↔ ∀ x ∈ vs, IsInt64 x
      rw [List.forall_mem_map]
      exact forall₂_congr fun x _ => hasValue_tryAsInt64_iff x
  | null | int64 | uint64 | double | bool | string | object =>
      exact iff_of_true (fun r hr => absurd hr List.not_mem_nil) trivial

/-! ### What is returned -/

/-- The character made of a result that is dereferenced. -/
def charOfResult : Except JsonErrorCode (BitVec 64) → Option (BitVec 8)
  | .ok n => some (n.setWidth 8)
  | .error _ => none

/-- The character of an element is that of its result. -/
theorem charOfJson_eq (x : JsonValue) : charOfJson x = charOfResult (tryAsInt64 x) := by
  cases x <;> rfl

/-- The function returns the characters of the results that it dereferences, and nothing can be
said of it when one of them holds an error. -/
theorem jsonValueToArray_eq (v : JsonValue) :
    jsonValueToArray v = (dereferenced v).mapM charOfResult := by
  cases v with
  | array vs =>
      change vs.mapM charOfJson = (vs.map tryAsInt64).mapM charOfResult
      rw [List.mapM_map]
      exact congrArg (fun f => vs.mapM f) (funext charOfJson_eq)
  | null | int64 | uint64 | double | bool | string | object => rfl

/-- The characters of a list of elements are those of its integers, when it holds nothing else. -/
theorem mapM_charOfJson_eq_some_iff (vs : List JsonValue) (vec : List (BitVec 8)) :
    vs.mapM charOfJson = some vec ↔
      ∃ ns : List (BitVec 64), vs = ns.map .int64 ∧ vec = ns.map (BitVec.setWidth 8) := by
  induction vs generalizing vec with
  | nil =>
      constructor
      · intro h
        exact ⟨[], rfl, (Option.some.inj h).symm⟩
      · rintro ⟨ns, hns, rfl⟩
        rw [List.map_eq_nil_iff.mp hns.symm]
        rfl
  | cons x vs ih =>
      rw [List.mapM_cons, Option.bind_eq_bind, Option.bind_eq_some_iff]
      constructor
      · rintro ⟨c, hc, h⟩
        rw [Option.bind_eq_bind, Option.bind_eq_some_iff] at h
        obtain ⟨rest, hrest, hvec⟩ := h
        obtain rfl : c :: rest = vec := Option.some.inj hvec
        obtain ⟨ns, rfl, rfl⟩ := (ih rest).mp hrest
        cases x with
        | int64 n =>
            obtain rfl : n.setWidth 8 = c := Option.some.inj hc
            exact ⟨n :: ns, rfl, rfl⟩
        | null | uint64 | double | bool | string | array | object => cases hc
      · rintro ⟨ns, hns, rfl⟩
        cases ns with
        | nil => cases hns
        | cons n ns =>
            obtain ⟨rfl, rfl⟩ := List.cons.inj hns
            refine ⟨n.setWidth 8, rfl, ?_⟩
            rw [(ih (ns.map (BitVec.setWidth 8))).mpr ⟨ns, rfl, rfl⟩]
            rfl

/-- **What the function returns**: the low bytes of the integers of an array that holds nothing
else, and nothing for a value that is no array. -/
theorem jsonValueToArray_eq_some_iff (v : JsonValue) (vec : List (BitVec 8)) :
    jsonValueToArray v = some vec ↔
      (tryAsArray v = .error .notArray ∧ vec = []) ∨
      ∃ ns : List (BitVec 64), v = .array (ns.map .int64) ∧ vec = ns.map (BitVec.setWidth 8) := by
  cases v with
  | array vs =>
      rw [jsonValueToArray, mapM_charOfJson_eq_some_iff]
      constructor
      · rintro ⟨ns, rfl, rfl⟩
        exact .inr ⟨ns, rfl, rfl⟩
      · rintro (⟨h, -⟩ | ⟨ns, h, rfl⟩)
        · cases h
        · exact ⟨ns, JsonValue.array.inj h, rfl⟩
  | null | int64 | uint64 | double | bool | string | object =>
      constructor
      · intro h
        exact .inl ⟨rfl, (Option.some.inj h).symm⟩
      · rintro (⟨-, rfl⟩ | ⟨ns, h, -⟩)
        · rfl
        · cases h

/-- It returns exactly when all that it reads are integers. -/
theorem jsonValueToArray_isSome_iff (v : JsonValue) :
    (jsonValueToArray v).isSome ↔ ReadsIntegers v := by
  rw [jsonValueToArray_eq, ReadsIntegers]
  induction dereferenced v with
  | nil => exact iff_of_true rfl fun r hr => absurd hr List.not_mem_nil
  | cons r rs ih =>
      rw [List.forall_mem_cons, List.mapM_cons, ← ih]
      cases r with
      | error e => exact iff_of_false Bool.false_ne_true fun h => h.1
      | ok n =>
          cases hrest : rs.mapM charOfResult with
          | none => exact iff_of_false Bool.false_ne_true fun h => Bool.false_ne_true h.2
          | some rest => exact iff_of_true rfl ⟨trivial, rfl⟩

/-! ### The round trip -/

/-- The value of a `char`, promoted on its way into a `json::value`: on some platforms the type is
signed, on others not. -/
def promoted (isSigned : Bool) (c : BitVec 8) : BitVec 64 :=
  if isSigned then c.signExtend 64 else c.setWidth 64

/-- `json_value_from_array` on either kind of platform. -/
def jsonValueFromArrayOf (isSigned : Bool) (vec : List (BitVec 8)) : JsonValue :=
  .array (vec.map fun c => .int64 (promoted isSigned c))

/-- The function as the generated bodies use it is the one for a signed `char`. -/
theorem jsonValueFromArrayOf_true (vec : List (BitVec 8)) :
    jsonValueFromArrayOf true vec = jsonValueFromArray vec := rfl

/-- The cast to `char` undoes either promotion. -/
theorem setWidth_promoted (isSigned : Bool) (c : BitVec 8) :
    (promoted isSigned c).setWidth 8 = c := by
  cases isSigned with
  | true => exact setWidth_signExtend_char c
  | false => exact BitVec.setWidth_setWidth_of_le c (Nat.le_of_ble_eq_true rfl)

/-- **The bytes come back**, whatever they are and however many. -/
theorem jsonValueToArray_fromArray (isSigned : Bool) (vec : List (BitVec 8)) :
    jsonValueToArray (jsonValueFromArrayOf isSigned vec) = some vec := by
  refine (jsonValueToArray_eq_some_iff _ _).mpr (.inr ⟨vec.map (promoted isSigned), ?_, ?_⟩)
  · rw [List.map_map]
    rfl
  · rw [List.map_map]
    exact (List.map_id'' (setWidth_promoted isSigned) vec).symm

/-! ### Values from a request -/

/-- An assignment of a generated `from_json` is undefined exactly when there is a value under the
name of the field, and it is an array with an element of another kind. -/
theorem assignArray_undefined_iff (m : Machine) (name : Bytes) :
    (assignArray m name).2 = some .undefined ↔
      ∃ v, atKey m.object name = some v ∧ ¬ HoldsIntegers v := by
  simp only [← readsIntegers_iff_holdsIntegers, ← jsonValueToArray_isSome_iff]
  cases hat : atKey m.object name with
  | none =>
      have hthrown : assignArray m name = (m, some .jsonError) := by
        simp only [assignArray, hat]
      rw [hthrown]
      refine iff_of_false (fun h => ?_) ?_
      · cases h
      · rintro ⟨v, hv, -⟩
        cases hv
  | some v =>
      cases hread : jsonValueToArray v with
      | none =>
          have hundefined : assignArray m name = (m, some .undefined) := by
            simp only [assignArray, hat, hread]
          rw [hundefined]
          refine iff_of_true rfl ⟨v, rfl, ?_⟩
          rw [hread]
          exact Bool.false_ne_true
      | some vec =>
          have hassigned : (assignArray m name).2 = none := by
            simp only [assignArray, hat, hread]
          rw [hassigned]
          refine iff_of_false (fun h => ?_) ?_
          · cases h
          · rintro ⟨w, hw, hnone⟩
            obtain rfl := Option.some.inj hw
            exact hnone (by rw [hread]; rfl)

/-- **When only integers are read.** On a JSON value the result of `try_as_int64` is only
dereferenced when it holds a value exactly when the value is no array or an array of values of kind
`int64` alone; and what `json_value_from_array` makes of any bytes, with a signed `char` or an
unsigned one, is read back as these bytes. -/
theorem readsIntegers_iff (v : JsonValue) (isSigned : Bool) (vec : List (BitVec 8)) :
    (ReadsIntegers v ↔ HoldsIntegers v) ∧
      ReadsIntegers (jsonValueFromArrayOf isSigned vec) ∧
        jsonValueToArray (jsonValueFromArrayOf isSigned vec) = some vec := by
  have hback := jsonValueToArray_fromArray isSigned vec
  refine ⟨readsIntegers_iff_holdsIntegers v, (jsonValueToArray_isSome_iff _).mp ?_, hback⟩
  rw [hback]
  rfl

/-- The body `{"data":[1,null]}`: the second result that is dereferenced holds an error. -/
theorem not_readsIntegers_null :
    dereferenced (.array [.int64 1, .null]) = [.ok 1, .error .notInt64] ∧
      ¬ ReadsIntegers (.array [.int64 1, .null]) := by
  decide

end Aquarius.Lazytool
