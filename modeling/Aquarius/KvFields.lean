import Aquarius.GeneratedBodies

/-!
# Fields as Names and Values

`kv_parse` (`serialize/kv.hpp`) and `cookie_parse` (`serialize/cookie.hpp`): a field is written as
its name, an equals sign and its value, and fields are joined by `&` and by `,`. The two differ in
the characters that end a value only.

A reader takes the key off the buffer first, up to the next equals sign, and compares it then. When
it is another one, the buffer is left behind the equals sign all the same, in front of a value that
belongs to no one: from there on no key is found any more.

## Main results

* `roundTripsFields_iff`: **exactly when a list of fields survives**: no `false` and no string of
  one character is in it.
* `not_roundTripsFields_false`: a `false` comes back as `true`.
* `readsGiven_iff`: **exactly when parameters are read by their names**: from the first one on that
  is not where it is expected, all that is given is zero.
* `not_readsGiven_swapped`: two parameters in the other order are both lost.
-/

open Decoding

namespace Aquarius

open Lazytool

/-! ### The two formats -/

/-- The reader of both formats, which end a value at different characters. -/
def pairFromDatas (separators : List UInt8) (t : Ty) (buffer name : Bytes) : t.Val × Bytes :=
  let key := getFirstRange [61] buffer
  let text := getFirstRange separators key.2
  match kvValue t text.1 with
  | none => (t.init, buffer)
  | some v => if key.1 = [] ∨ key.1 ≠ name then (t.init, key.2) else (v, text.2)

/-- `cookie_parse::to_datas`; there are overloads for numbers, `bool` and `std::string` only -/
def cookieToDatas (t : Ty) (v : t.Val) (name : Bytes) : Bytes :=
  match kvText t v with
  | some text => name ++ 61 :: text
  | none => []

/-- `cookie_parse::from_datas` -/
def cookieFromDatas (t : Ty) (buffer name : Bytes) : t.Val × Bytes :=
  pairFromDatas [44] t buffer name

/-- `kv_parse` or `cookie_parse` -/
inductive PairFormat where
  | kv
  | cookie
  deriving DecidableEq, Repr

namespace PairFormat

/-- The character fields are joined by. -/
def separator : PairFormat → UInt8
  | .kv => 38
  | .cookie => 44

/-- The characters a value ends at. -/
def separators : PairFormat → List UInt8
  | .kv => [38, 35]
  | .cookie => [44]

/-- `to_datas(value, buffer, name)` -/
def toDatas : PairFormat → (t : Ty) → t.Val → Bytes → Bytes
  | .kv, t, v, name => kvToDatas t v (some name)
  | .cookie, t, v, name => cookieToDatas t v name

/-- `from_datas<T>(buffer, name)` for a name that is a `const std::string`. With a literal or with a
string that is not constant, `kv_parse` takes the overload that reads nothing (`kvFromDatas`). -/
def fromDatas : PairFormat → (t : Ty) → Bytes → Bytes → t.Val × Bytes
  | .kv, t, buffer, name => kvFromDatas t buffer (.name name)
  | .cookie, t, buffer, name => cookieFromDatas t buffer name

/-- Both formats are read in the same way. -/
theorem fromDatas_eq (format : PairFormat) (t : Ty) (buffer name : Bytes) :
    format.fromDatas t buffer name = pairFromDatas format.separators t buffer name := by
  cases format <;> rfl

/-- Both formats are written in the same way. -/
theorem toDatas_eq {t : Ty} {v : t.Val} {text : Bytes} (h : kvText t v = some text)
    (format : PairFormat) (name : Bytes) : format.toDatas t v name = name ++ 61 :: text := by
  cases format with
  | kv => simp only [toDatas, kvToDatas, h]
  | cookie => simp only [toDatas, cookieToDatas, h]

theorem separator_mem (format : PairFormat) : format.separator ∈ format.separators := by
  cases format <;> decide

end PairFormat

/-! ### Reading up to a separator -/

/-- None of the characters is in the text. -/
def FreeOf (separators : List UInt8) (s : Bytes) : Prop := ∀ b ∈ s, b ∉ separators

/-- What stands in front of the first separator, which is taken too. -/
theorem getFirstRange_append_cons {separators : List UInt8} {p : Bytes}
    (hp : FreeOf separators p) {c : UInt8} (hc : c ∈ separators) (s : Bytes) :
    getFirstRange separators (p ++ c :: s) = (p, s) := by
  have htake : (p ++ c :: s).takeWhile (· ∉ separators) = p := by
    rw [List.takeWhile_append_of_pos (by simpa [FreeOf] using hp),
      List.takeWhile_cons_of_neg (by simpa using hc), List.append_nil]
  have hdrop : (p ++ c :: s).dropWhile (· ∉ separators) = c :: s := by
    rw [List.dropWhile_append_of_pos (by simpa [FreeOf] using hp),
      List.dropWhile_cons_of_neg (by simpa using hc)]
  rw [getFirstRange, htake, hdrop, List.tail_cons]

/-- Without a separator everything is taken. -/
theorem getFirstRange_of_forall {separators : List UInt8} {p : Bytes}
    (hp : FreeOf separators p) : getFirstRange separators p = (p, []) := by
  have htake : p.takeWhile (· ∉ separators) = p := by
    rw [List.takeWhile_eq_self_iff]
    simpa [FreeOf] using hp
  have hdrop : p.dropWhile (· ∉ separators) = [] := by
    rw [List.dropWhile_eq_nil_iff]
    simpa [FreeOf] using hp
  rw [getFirstRange, htake, hdrop, List.tail_nil]

/-- What is behind a value: the end of the buffer, or a separator in front of the rest. -/
inductive Behind (separators : List UInt8) : Bytes → Bytes → Prop
  | last : Behind separators [] []
  | more {c : UInt8} (hc : c ∈ separators) (rest : Bytes) : Behind separators (c :: rest) rest

/-- A value is read up to what is behind it. -/
theorem getFirstRange_behind {separators : List UInt8} {p tail rest : Bytes}
    (hp : FreeOf separators p) (h : Behind separators tail rest) :
    getFirstRange separators (p ++ tail) = (p, rest) := by
  cases h with
  | last => rw [List.append_nil, getFirstRange_of_forall hp]
  | more hc => exact getFirstRange_append_cons hp hc rest

/-! ### The round trip -/

/-- The values a format has a reader and a writer for: integers, `bool`, and strings without the
characters a value ends at. -/
def PairValue (separators : List UInt8) : (t : Ty) → t.Val → Prop
  | .uint32, _ | .uint64, _ | .int16, _ | .int32, _ | .int64, _ | .bool, _ => True
  | .string, v => FreeOf separators v
  | _, _ => False

/-- A field that can be written: its name is not empty and has no equals sign. -/
structure WritableField (format : PairFormat) (m : Lazytool.Member) : Prop where
  name_ne : m.name ≠ []
  equals : (61 : UInt8) ∉ m.name
  value : PairValue format.separators m.type m.value

/-- The value survives: it is not `false`, and no string of one character. -/
def ValueSurvives : (t : Ty) → t.Val → Prop
  | .bool, v => v = true
  | .string, v => List.length (α := UInt8) v ≠ 1
  | _, _ => True

/-- The fields as they are written, joined by the separator. -/
def PairFormat.joined (format : PairFormat) (fields : List Lazytool.Member) : Bytes :=
  [format.separator].intercalate (fields.map fun m => format.toDatas m.type m.value m.name)

/-- Successive `from_datas` calls with the names and types of the fields: the fields that are read,
and what is left of the buffer. -/
def PairFormat.readFields (format : PairFormat) :
    List Lazytool.Member → Bytes → List Lazytool.Member × Bytes
  | [], buffer => ([], buffer)
  | m :: fields, buffer =>
      let read := format.fromDatas m.type buffer m.name
      let rest := format.readFields fields read.2
      (⟨m.name, m.type, read.1⟩ :: rest.1, rest.2)

/-- **The round trip**: the values come back in their order, and the buffer is empty. -/
def RoundTripsFields (format : PairFormat) (fields : List Lazytool.Member) : Prop :=
  format.readFields fields (format.joined fields) = (fields, [])

/-- No character of a numeral ends a value. -/
private theorem freeOf_integerText (format : PairFormat) (v : ℤ) :
    FreeOf format.separators (integerText v) := by
  intro b hb
  have hbyte : isDigit b = true ∨ b = 45 := by
    rw [integerText] at hb
    split at hb
    · rcases List.mem_cons.mp hb with rfl | hb
      · exact .inr rfl
      · exact .inl (isDigit_of_mem_decimal hb)
    · exact .inl (isDigit_of_mem_decimal hb)
  rcases hbyte with hdigit | rfl
  · have hne : ∀ c : UInt8, isDigit c = false → b ≠ c := by
      rintro c hc rfl
      rw [hc] at hdigit
      cases hdigit
    cases format with
    | kv => simp [PairFormat.separators, hne 38 (by decide), hne 35 (by decide)]
    | cookie => simp [PairFormat.separators, hne 44 (by decide)]
  · cases format <;> decide

/-- An unsigned integer is read back. -/
private theorem extractUnsigned_toNat {w : ℕ} (v : BitVec w) :
    BitVec.ofNat w (extractUnsigned w (integerText v.toNat)) = v := by
  have htext : integerText v.toNat = decimal v.toNat := by
    rw [integerText, if_neg (by omega), Int.natAbs_natCast]
  rw [htext, extractUnsigned_decimal v.isLt, BitVec.ofNat_toNat, BitVec.setWidth_eq]

/-- A signed integer is read back. -/
private theorem extractSigned_toInt {w : ℕ} (v : BitVec w) :
    BitVec.ofInt w (extractSigned w (integerText v.toInt)) = v := by
  have hlo := BitVec.le_toInt v
  have hhi := BitVec.toInt_lt (x := v)
  rw [extractSigned_integerText hlo hhi, BitVec.ofInt_toInt]

/-- A string of one character is lost. -/
private theorem dropShort_eq_iff (v : Bytes) :
    (if v.length < 2 then ([] : Bytes) else v) = v ↔ v.length ≠ 1 := by
  split
  · rename_i hlt
    rw [eq_comm, ← List.length_eq_zero_iff]
    omega
  · exact iff_of_true rfl (by omega)

/-- **What is written of a value**: a text without the characters a value ends at, of which the
reader makes the value exactly if it survives. -/
private theorem kvText_spec {format : PairFormat} {t : Ty} {v : t.Val}
    (h : PairValue format.separators t v) :
    ∃ text v', kvText t v = some text ∧ FreeOf format.separators text ∧
      kvValue t text = some v' ∧ (v' = v ↔ ValueSurvives t v) := by
  cases t with
  | uint32 =>
      exact ⟨_, _, rfl, freeOf_integerText format _, rfl,
        iff_of_true (extractUnsigned_toNat (w := 32) v) trivial⟩
  | uint64 =>
      exact ⟨_, _, rfl, freeOf_integerText format _, rfl,
        iff_of_true (extractUnsigned_toNat (w := 64) v) trivial⟩
  | int16 =>
      exact ⟨_, _, rfl, freeOf_integerText format _, rfl,
        iff_of_true (extractSigned_toInt (w := 16) v) trivial⟩
  | int32 =>
      exact ⟨_, _, rfl, freeOf_integerText format _, rfl,
        iff_of_true (extractSigned_toInt (w := 32) v) trivial⟩
  | int64 =>
      exact ⟨_, _, rfl, freeOf_integerText format _, rfl,
        iff_of_true (extractSigned_toInt (w := 64) v) trivial⟩
  | bool =>
      refine ⟨_, _, rfl, ?_, rfl, eq_comm⟩
      cases format <;> cases v <;> simp [FreeOf, PairFormat.separators, textBytes]
  | string =>
      exact ⟨_, _, rfl, h, rfl, dropShort_eq_iff v⟩
  | char => exact h.elim
  | float => exact h.elim
  | double => exact h.elim
  | fixed32 => exact h.elim
  | fixed64 => exact h.elim
  | vector elem => exact h.elim
  | map key value => exact h.elim
  | struct name fields => exact h.elim

/-- **One field**: the buffer is left behind its separator, with whatever value. -/
private theorem fromDatas_field {format : PairFormat} {m : Lazytool.Member}
    (hm : WritableField format m) {tail rest : Bytes} (htail : Behind format.separators tail rest) :
    ∃ v, format.fromDatas m.type (format.toDatas m.type m.value m.name ++ tail) m.name = (v, rest) ∧
      (v = m.value ↔ ValueSurvives m.type m.value) := by
  obtain ⟨text, v, htext, hfree, hvalue, hiff⟩ := kvText_spec hm.value
  have hname : FreeOf [61] m.name := by
    intro b hb
    rw [List.mem_singleton]
    rintro rfl
    exact hm.equals hb
  refine ⟨v, ?_, hiff⟩
  rw [PairFormat.toDatas_eq htext, PairFormat.fromDatas_eq, pairFromDatas, List.append_assoc,
    List.cons_append, getFirstRange_append_cons hname List.mem_cons_self]
  simp only [getFirstRange_behind hfree htail, hvalue]
  rw [if_neg]
  simpa using hm.name_ne

/-- The text of the fields is that of the first one and what is behind it. -/
private theorem joined_cons (format : PairFormat) (m : Lazytool.Member)
    (fields : List Lazytool.Member) :
    ∃ tail, format.joined (m :: fields) = format.toDatas m.type m.value m.name ++ tail ∧
      Behind format.separators tail (format.joined fields) := by
  cases fields with
  | nil => exact ⟨[], by simp [PairFormat.joined], .last⟩
  | cons k fields =>
      refine ⟨format.separator :: format.joined (k :: fields), ?_, .more format.separator_mem _⟩
      rw [PairFormat.joined, List.map_cons, List.map_cons, List.intercalate_cons_cons]
      simp [PairFormat.joined]

/-- **Exactly when fields survive.** For both formats and every list of fields that can be written,
with constant strings as the names: the values come back in their order and the buffer is empty
exactly when none of them is `false` or a string of one character. -/
theorem roundTripsFields_iff {format : PairFormat} {fields : List Lazytool.Member}
    (hfields : ∀ m ∈ fields, WritableField format m) :
    RoundTripsFields format fields ↔ ∀ m ∈ fields, ValueSurvives m.type m.value := by
  rw [RoundTripsFields]
  induction fields with
  | nil => simp [PairFormat.readFields, PairFormat.joined]
  | cons m fields ih =>
      obtain ⟨tail, hjoined, htail⟩ := joined_cons format m fields
      obtain ⟨v, hread, hiff⟩ := fromDatas_field (hfields m List.mem_cons_self) htail
      have ih := ih fun k hk => hfields k (List.mem_cons_of_mem m hk)
      rw [hjoined, PairFormat.readFields, hread, List.forall_mem_cons, ← hiff, ← ih, Prod.ext_iff,
        Prod.ext_iff, List.cons.injEq]
      constructor
      · rintro ⟨⟨hhead, htail⟩, hempty⟩
        have hv := (Lazytool.Member.mk.inj hhead).2.2
        exact ⟨eq_of_heq hv, htail, hempty⟩
      · rintro ⟨rfl, htail, hempty⟩
        exact ⟨⟨rfl, htail⟩, hempty⟩

/-- A number, `true`, a text with an equals sign, and an empty text. -/
def survivingFields : List Lazytool.Member :=
  [⟨[97], .int16, (-7 : BitVec 16)⟩, ⟨[98, 38], .bool, true⟩, ⟨[99], .string, [61, 120]⟩,
   ⟨[100], .string, []⟩]

/-- The theorem at four fields, in both formats. -/
theorem roundTripsFields_surviving :
    RoundTripsFields .kv survivingFields ∧ RoundTripsFields .cookie survivingFields := by
  have hwritable : ∀ format, ∀ m ∈ survivingFields, WritableField format m := by
    intro format m hm
    simp only [survivingFields, List.mem_cons, List.not_mem_nil, or_false] at hm
    rcases hm with rfl | rfl | rfl | rfl
    · exact ⟨by simp, by decide, trivial⟩
    · exact ⟨by simp, by decide, trivial⟩
    · refine ⟨by simp, by decide, ?_⟩
      cases format <;> simp [PairValue, FreeOf, PairFormat.separators]
    · exact ⟨by simp, by decide, fun _ h => (nomatch h)⟩
  have hsurvives : ∀ m ∈ survivingFields, ValueSurvives m.type m.value := by
    intro m hm
    simp only [survivingFields, List.mem_cons, List.not_mem_nil, or_false] at hm
    rcases hm with rfl | rfl | rfl | rfl
    · trivial
    · rfl
    · exact Nat.succ_ne_self 1
    · exact Nat.zero_ne_one
  exact ⟨(roundTripsFields_iff (hwritable .kv)).mpr hsurvives,
    (roundTripsFields_iff (hwritable .cookie)).mpr hsurvives⟩

/-- **A `false` comes back as `true`**: the reader tests a literal, not the value. -/
theorem not_roundTripsFields_false :
    ¬ RoundTripsFields .kv [⟨[111, 107], .bool, false⟩] ∧
      ¬ RoundTripsFields .cookie [⟨[111, 107], .bool, false⟩] := by
  have htrue : ¬ (Lazytool.Member.mk [111, 107] .bool true) = ⟨[111, 107], .bool, false⟩ := by
    intro h
    exact absurd (eq_of_heq (Lazytool.Member.mk.inj h).2.2) Bool.true_eq_false_eq_False
  constructor
  · intro h
    exact htrue (List.cons.inj (congrArg Prod.fst h)).1
  · intro h
    exact htrue (List.cons.inj (congrArg Prod.fst h)).1

/-! ### Parameters by name -/

/-- The integer types a reader is written for. -/
inductive IntegerTy where
  | uint32
  | uint64
  | int16
  | int32
  | int64
  deriving DecidableEq, Repr

namespace IntegerTy

/-- The type of the library. -/
def ty : IntegerTy → Ty
  | .uint32 => .uint32
  | .uint64 => .uint64
  | .int16 => .int16
  | .int32 => .int32
  | .int64 => .int64

/-- The number an object holds. -/
def value : (t : IntegerTy) → t.ty.Val → ℤ
  | .uint32, v => BitVec.toNat (w := 32) v
  | .uint64, v => BitVec.toNat (w := 64) v
  | .int16, v => BitVec.toInt (n := 16) v
  | .int32, v => BitVec.toInt (n := 32) v
  | .int64, v => BitVec.toInt (n := 64) v

/-- The number can be held. -/
def Fits : IntegerTy → ℤ → Prop
  | .uint32, v => 0 ≤ v ∧ v < 2 ^ 32
  | .uint64, v => 0 ≤ v ∧ v < 2 ^ 64
  | .int16, v => -2 ^ 15 ≤ v ∧ v < 2 ^ 15
  | .int32, v => -2 ^ 31 ≤ v ∧ v < 2 ^ 31
  | .int64, v => -2 ^ 63 ≤ v ∧ v < 2 ^ 63

end IntegerTy

/-- The query: the parameters as a client writes them. -/
def queryText (params : List (Bytes × ℤ)) : Bytes :=
  [38].intercalate (params.map fun p => p.1 ++ 61 :: integerText p.2)

/-- `kv_parse::from_datas` for a list of expected names, one after the other, each of them a
`const std::string`. -/
def readNames : List (Bytes × IntegerTy) → Bytes → List ℤ
  | [], _ => []
  | e :: expected, buffer =>
      let read := kvFromDatas e.2.ty buffer (.name e.1)
      e.2.value read.1 :: readNames expected read.2

/-- What is given for a name, and the default for one that is absent. -/
def given (params : List (Bytes × ℤ)) (name : Bytes) : ℤ := (params.lookup name).getD 0

/-- **The parameters are read by their names**, in whatever order they are given. -/
def ReadsGiven (params : List (Bytes × ℤ)) (expected : List (Bytes × IntegerTy)) : Prop :=
  readNames expected (queryText params) = expected.map fun e => given params e.1

/-- A name without the characters that mean something in a query. -/
def ParameterName (name : Bytes) : Prop := FreeOf [61, 38, 35] name

/-- The first expected names are the first that are given, and of the others nothing is given but
zero. -/
def GivenInOrder (of : Bytes → ℤ) (params : List (Bytes × ℤ))
    (expected : List (Bytes × IntegerTy)) (k : ℕ) : Prop :=
  (expected.take k).map Prod.fst = (params.take k).map Prod.fst ∧
    (∀ e ∈ expected.take k, e.1 ≠ [] ∧ e.2.Fits (of e.1)) ∧
    ∀ e ∈ expected.drop k, of e.1 = 0

/-- An unsigned number is read from its numeral exactly if it fits. -/
private theorem toNat_extractUnsigned_iff {w : ℕ} (v : ℤ) :
    ((BitVec.ofNat w (extractUnsigned w (integerText v))).toNat : ℤ) = v ↔
      0 ≤ v ∧ v < 2 ^ w := by
  constructor
  · intro h
    have hlt : ((BitVec.ofNat w (extractUnsigned w (integerText v))).toNat : ℤ) < 2 ^ w := by
      exact_mod_cast (BitVec.ofNat w (extractUnsigned w (integerText v))).isLt
    rw [h] at hlt
    exact ⟨by omega, hlt⟩
  · rintro ⟨hlo, hhi⟩
    obtain ⟨n, rfl⟩ := Int.eq_ofNat_of_zero_le hlo
    have hn : n < 2 ^ w := by exact_mod_cast hhi
    have htoNat : (BitVec.ofNat w n).toNat = n := by
      rw [BitVec.toNat_ofNat, Nat.mod_eq_of_lt hn]
    have h := extractUnsigned_toNat (BitVec.ofNat w n)
    rw [htoNat] at h
    exact_mod_cast (congrArg BitVec.toNat h).trans htoNat

/-- A signed number is read from its numeral exactly if it fits. -/
private theorem toInt_extractSigned_iff {w : ℕ} (hw : 0 < w) (v : ℤ) :
    (BitVec.ofInt w (extractSigned w (integerText v))).toInt = v ↔
      -2 ^ (w - 1) ≤ v ∧ v < 2 ^ (w - 1) := by
  constructor
  · intro h
    have hlo := BitVec.le_toInt (BitVec.ofInt w (extractSigned w (integerText v)))
    have hhi := BitVec.toInt_lt (x := BitVec.ofInt w (extractSigned w (integerText v)))
    rw [h] at hlo hhi
    exact ⟨hlo, hhi⟩
  · rintro ⟨hlo, hhi⟩
    rw [extractSigned_integerText hlo hhi, BitVec.toInt_ofInt_eq_self hw hlo hhi]

/-- **What is read of a text**: of a numeral its number, exactly if that fits, and of nothing
zero. -/
private theorem kvValue_integer (t : IntegerTy) (text : Bytes) :
    ∃ w, kvValue t.ty text = some w ∧ (text = [] → t.value w = 0) ∧
      ∀ v, text = integerText v → (t.value w = v ↔ t.Fits v) := by
  cases t with
  | uint32 => exact ⟨_, rfl, by rintro rfl; rfl, by rintro v rfl; exact toNat_extractUnsigned_iff v⟩
  | uint64 => exact ⟨_, rfl, by rintro rfl; rfl, by rintro v rfl; exact toNat_extractUnsigned_iff v⟩
  | int16 =>
      exact ⟨_, rfl, by rintro rfl; rfl,
        by rintro v rfl; exact toInt_extractSigned_iff (w := 16) (by decide) v⟩
  | int32 =>
      exact ⟨_, rfl, by rintro rfl; rfl,
        by rintro v rfl; exact toInt_extractSigned_iff (w := 32) (by decide) v⟩
  | int64 =>
      exact ⟨_, rfl, by rintro rfl; rfl,
        by rintro v rfl; exact toInt_extractSigned_iff (w := 64) (by decide) v⟩

/-- The default is zero. -/
private theorem value_init (t : IntegerTy) : t.value t.ty.init = 0 := by
  cases t <;> rfl

/-- What is left behind the equals sign of a parameter: its value, and the other parameters. -/
private def valueText (v : ℤ) (params : List (Bytes × ℤ)) : Bytes :=
  integerText v ++ if params = [] then [] else 38 :: queryText params

/-- The query of the first parameter and the others. -/
private theorem queryText_cons (p : Bytes × ℤ) (params : List (Bytes × ℤ)) :
    queryText (p :: params) = p.1 ++ 61 :: valueText p.2 params := by
  cases params with
  | nil => simp [queryText, valueText]
  | cons q params =>
      rw [queryText, List.map_cons, List.map_cons, List.intercalate_cons_cons]
      simp [queryText, valueText]

/-- The value ends where the other parameters start. -/
private theorem getFirstRange_valueText (v : ℤ) (params : List (Bytes × ℤ)) :
    getFirstRange [38, 35] (valueText v params) = (integerText v, queryText params) := by
  refine getFirstRange_behind (freeOf_integerText .kv v) ?_
  split
  · rename_i hnil
    rw [hnil]
    exact .last
  · exact .more List.mem_cons_self _

/-- There is no equals sign in the name of a parameter. -/
private theorem ParameterName.freeOf_equals {name : Bytes} (h : ParameterName name) :
    FreeOf [61] name := by
  intro b hb hmem
  rw [List.mem_singleton] at hmem
  exact h b hb (by simp [hmem])

/-- There is no equals sign in a numeral. -/
private theorem freeOf_equals_integerText (v : ℤ) : FreeOf [61] (integerText v) := by
  intro b hb hmem
  rw [List.mem_singleton] at hmem
  subst hmem
  rw [integerText] at hb
  split at hb
  · rcases List.mem_cons.mp hb with h | hb
    · exact absurd h (by decide)
    · exact absurd (isDigit_of_mem_decimal hb) (by decide)
  · exact absurd (isDigit_of_mem_decimal hb) (by decide)

/-- **Reading the first parameter**: its value when its name is expected, and else nothing, with the
buffer behind its equals sign. -/
private theorem kvFromDatas_queryText {p : Bytes × ℤ} (hp : ParameterName p.1)
    (params : List (Bytes × ℤ)) (e : Bytes × IntegerTy) :
    ((p.1 = e.1 ∧ e.1 ≠ []) ∧
      ∃ w, kvFromDatas e.2.ty (queryText (p :: params)) (.name e.1) = (w, queryText params) ∧
        (e.2.value w = p.2 ↔ e.2.Fits p.2)) ∨
    ¬ (p.1 = e.1 ∧ e.1 ≠ []) ∧ kvFromDatas e.2.ty (queryText (p :: params)) (.name e.1) =
      (e.2.ty.init, valueText p.2 params) := by
  obtain ⟨w, hw, -, hfits⟩ := kvValue_integer e.2 (integerText p.2)
  have hkey : getFirstRange [61] (queryText (p :: params)) = (p.1, valueText p.2 params) := by
    rw [queryText_cons, getFirstRange_append_cons hp.freeOf_equals List.mem_cons_self]
  have hread : kvFromDatas e.2.ty (queryText (p :: params)) (.name e.1) =
      if p.1 = [] ∨ p.1 ≠ e.1 then (e.2.ty.init, valueText p.2 params)
      else (w, queryText params) := by
    simp only [kvFromDatas, hkey, getFirstRange_valueText, hw]
  rw [hread]
  by_cases hother : p.1 = [] ∨ p.1 ≠ e.1
  · rw [if_pos hother]
    refine .inr ⟨?_, rfl⟩
    rintro ⟨hname, hne⟩
    rcases hother with hnil | hother
    · exact hne (hname ▸ hnil)
    · exact hother hname
  · rw [if_neg hother]
    rw [not_or, not_not] at hother
    exact .inl ⟨⟨hother.2, hother.2 ▸ hother.1⟩, w, rfl, hfits p.2 rfl⟩

/-- In front of a value the key is that value with the next name. -/
private theorem key_valueText_cons (v : ℤ) {p : Bytes × ℤ} (hp : ParameterName p.1)
    (params : List (Bytes × ℤ)) :
    getFirstRange [61] (valueText v (p :: params)) =
      (integerText v ++ 38 :: p.1, valueText p.2 params) := by
  have hfree : FreeOf [61] (integerText v ++ 38 :: p.1) := by
    intro b hb
    rcases List.mem_append.mp hb with hb | hb
    · exact freeOf_equals_integerText v b hb
    · rcases List.mem_cons.mp hb with rfl | hb
      · decide
      · exact hp.freeOf_equals b hb
  have htext : valueText v (p :: params) =
      (integerText v ++ 38 :: p.1) ++ 61 :: valueText p.2 params := by
    rw [valueText, if_neg (List.cons_ne_nil p params), queryText_cons, List.append_assoc,
      List.cons_append]
  rw [htext, getFirstRange_append_cons hfree List.mem_cons_self]

/-- **A value that belongs to no one** swallows the next name: zero is read, and the buffer is in
front of a value again, or empty. -/
private theorem kvFromDatas_valueText (v : ℤ) {params : List (Bytes × ℤ)}
    (hparams : ∀ p ∈ params, ParameterName p.1) {e : Bytes × IntegerTy} (he : ParameterName e.1) :
    ∃ w, e.2.value w = 0 ∧ kvFromDatas e.2.ty (valueText v params) (.name e.1) =
      (w, match params with
        | [] => []
        | p :: params => valueText p.2 params) := by
  cases params with
  | nil =>
      have hkey : getFirstRange [61] (valueText v []) = (integerText v, []) := by
        rw [valueText, if_pos rfl, List.append_nil,
          getFirstRange_of_forall (freeOf_equals_integerText v)]
      obtain ⟨w, hw, hzero, -⟩ := kvValue_integer e.2 []
      have htext : getFirstRange [38, 35] [] = ([], []) := rfl
      simp only [kvFromDatas, hkey, htext, hw]
      split
      · exact ⟨_, value_init e.2, rfl⟩
      · exact ⟨w, hzero rfl, rfl⟩
  | cons p params =>
      have hkey := key_valueText_cons v (hparams p List.mem_cons_self) params
      -- the ampersand in the key is in no name
      have hother : integerText v ++ 38 :: p.1 ≠ e.1 := by
        intro h
        have hmem : (38 : UInt8) ∈ e.1 := by
          rw [← h]
          simp
        exact he 38 hmem (by decide)
      obtain ⟨w, hw, -⟩ := kvValue_integer e.2 (getFirstRange [38, 35] (valueText p.2 params)).1
      refine ⟨_, value_init e.2, ?_⟩
      simp only [kvFromDatas, hkey, hw]
      rw [if_pos (.inr hother)]

/-- Nothing is read from an empty buffer. -/
private theorem kvFromDatas_nil (e : Bytes × IntegerTy) :
    kvFromDatas e.2.ty [] (.name e.1) = (e.2.ty.init, []) := by
  obtain ⟨w, hw, -⟩ := kvValue_integer e.2 []
  have hkey : ∀ separators, getFirstRange separators [] = ([], []) := fun _ => rfl
  simp only [kvFromDatas, hkey, hw, true_or, if_true]

/-- All that is read from an empty buffer are defaults. -/
private theorem readNames_nil (expected : List (Bytes × IntegerTy)) :
    readNames expected [] = expected.map fun _ => 0 := by
  induction expected with
  | nil => rfl
  | cons e expected ih => rw [readNames, kvFromDatas_nil, value_init, ih, List.map_cons]

/-- **After a mismatch** everything is read as zero. -/
private theorem readNames_valueText {expected : List (Bytes × IntegerTy)}
    (hexpected : ∀ e ∈ expected, ParameterName e.1) :
    ∀ (v : ℤ) {params : List (Bytes × ℤ)}, (∀ p ∈ params, ParameterName p.1) →
      readNames expected (valueText v params) = expected.map fun _ => 0 := by
  induction expected with
  | nil => exact fun _ _ _ => rfl
  | cons e expected ih =>
      intro v params hparams
      have ih := ih fun e he => hexpected e (List.mem_cons_of_mem _ he)
      obtain ⟨w, hzero, hread⟩ :=
        kvFromDatas_valueText v hparams (hexpected e List.mem_cons_self)
      rw [readNames, hread, List.map_cons]
      simp only [hzero]
      cases params with
      | nil => rw [readNames_nil]
      | cons p params => rw [ih p.2 fun q hq => hparams q (List.mem_cons_of_mem p hq)]

/-- When everything is read as zero, nothing else may be given. -/
private theorem map_zero_eq_iff (of : Bytes → ℤ) (expected : List (Bytes × IntegerTy)) :
    (expected.map fun _ => (0 : ℤ)) = expected.map (fun e => of e.1) ↔
      ∀ e ∈ expected, of e.1 = 0 := by
  rw [List.map_inj_left]
  exact forall₂_congr fun _ _ => eq_comm

/-- Nothing is given in order when the first names differ, but zeros. -/
private theorem exists_givenInOrder_of_mismatch {of : Bytes → ℤ} {p : Bytes × ℤ}
    {e : Bytes × IntegerTy} (hne : ¬ (p.1 = e.1 ∧ e.1 ≠ [])) (params : List (Bytes × ℤ))
    (expected : List (Bytes × IntegerTy)) :
    (∃ k, GivenInOrder of (p :: params) (e :: expected) k) ↔ ∀ e' ∈ e :: expected, of e'.1 = 0 := by
  constructor
  · rintro ⟨_ | k, hnames, hfits, hzero⟩
    · exact hzero
    · simp only [List.take_succ_cons, List.map_cons, List.cons.injEq] at hnames
      exact absurd ⟨hnames.1.symm, (hfits e List.mem_cons_self).1⟩ hne
  · exact fun hzero => ⟨0, rfl, fun _ h => (nomatch h), hzero⟩

/-- A first name that is expected there is passed over, if its value fits. -/
private theorem exists_givenInOrder_of_match {of : Bytes → ℤ} {p : Bytes × ℤ}
    {e : Bytes × IntegerTy} (hname : p.1 = e.1 ∧ e.1 ≠ []) (params : List (Bytes × ℤ))
    (expected : List (Bytes × IntegerTy)) (hfits : of e.1 = 0 → e.2.Fits (of e.1)) :
    (∃ k, GivenInOrder of (p :: params) (e :: expected) k) ↔
      e.2.Fits (of e.1) ∧ ∃ k, GivenInOrder of params expected k := by
  constructor
  · rintro ⟨_ | k, hnames, hall, hzero⟩
    · exact ⟨hfits (hzero e List.mem_cons_self), 0, rfl, fun _ h => (nomatch h),
        fun e' he' => hzero e' (List.mem_cons_of_mem e he')⟩
    · simp only [List.take_succ_cons, List.map_cons, List.cons.injEq] at hnames
      exact ⟨(hall e List.mem_cons_self).2, k, hnames.2,
        fun e' he' => hall e' (List.mem_cons_of_mem e he'), hzero⟩
  · rintro ⟨hfit, k, hnames, hall, hzero⟩
    refine ⟨k + 1, ?_, List.forall_mem_cons.mpr ⟨⟨hname.2, hfit⟩, hall⟩, hzero⟩
    rw [List.take_succ_cons, List.take_succ_cons, List.map_cons, List.map_cons, hnames, hname.1]

/-- Zero fits every type. -/
private theorem fits_zero (t : IntegerTy) : t.Fits 0 := by
  cases t <;> simp [IntegerTy.Fits]

/-- The names are read as given exactly if they are given in order. `of` is what is given in the
whole query, of which `params` are the parameters not read yet. -/
private theorem readNames_eq_iff {of : Bytes → ℤ} {expected : List (Bytes × IntegerTy)}
    (hexpected : ∀ e ∈ expected, ParameterName e.1) :
    ∀ {params : List (Bytes × ℤ)}, (∀ p ∈ params, ParameterName p.1) →
      (∀ p ∈ params, of p.1 = p.2) →
      (readNames expected (queryText params) = expected.map (fun e => of e.1) ↔
        ∃ k, GivenInOrder of params expected k) := by
  induction expected with
  | nil =>
      intro params _ _
      exact iff_of_true rfl ⟨0, rfl, fun _ h => (nomatch h), fun _ h => (nomatch h)⟩
  | cons e expected ih =>
      intro params hparams hof
      have hexpected' := fun e' he' => hexpected e' (List.mem_cons_of_mem e he')
      cases params with
      | nil =>
          have hnil : queryText [] = [] := rfl
          rw [hnil, readNames_nil, map_zero_eq_iff]
          constructor
          · exact fun hzero => ⟨0, rfl, fun _ h => (nomatch h), hzero⟩
          · rintro ⟨_ | k, hnames, -, hzero⟩
            · exact hzero
            · simp at hnames
      | cons p params =>
          have hparams' := fun q hq => hparams q (List.mem_cons_of_mem p hq)
          have hof' := fun q hq => hof q (List.mem_cons_of_mem p hq)
          rcases kvFromDatas_queryText (hparams p List.mem_cons_self) params e with
            ⟨hname, w, hread, hfits⟩ | ⟨hne, hread⟩
          · have hgiven : of e.1 = p.2 := by rw [← hname.1, hof p List.mem_cons_self]
            rw [exists_givenInOrder_of_match hname params expected
              (fun hzero => hzero ▸ fits_zero e.2), ← ih hexpected' hparams' hof', readNames, hread,
              List.map_cons, List.cons.injEq, hgiven, hfits]
          · rw [exists_givenInOrder_of_mismatch hne params expected, ← map_zero_eq_iff, readNames,
              hread, value_init, readNames_valueText hexpected' p.2 hparams', List.map_cons,
              List.map_cons]

/-- **Exactly when parameters are read by their names.** For every list of parameters with distinct
names, in any order and with any of the expected names missing or others added, and every list of
expected names, given as constant strings: the given values and the defaults are read exactly when, for some `k`, the first `k`
expected names are the first `k` that are given (none of them empty, and their values fit), and of
all others nothing is given but zero. -/
theorem readsGiven_iff {params : List (Bytes × ℤ)} {expected : List (Bytes × IntegerTy)}
    (hparams : ∀ p ∈ params, ParameterName p.1) (hdistinct : (params.map Prod.fst).Nodup)
    (hexpected : ∀ e ∈ expected, ParameterName e.1) :
    ReadsGiven params expected ↔ ∃ k, GivenInOrder (given params) params expected k := by
  have hgiven : ∀ p ∈ params, given params p.1 = p.2 := by
    intro p hp
    rw [given, OrderedMap.lookup_of_mem hdistinct hp]
    rfl
  exact readNames_eq_iff hexpected hparams hgiven

/-- The parameters `a` and `b`, and a third one that is not expected. -/
def threeParams : List (Bytes × ℤ) := [([97], 5), ([98], -3), ([99], 8)]

/-- In the order they are expected in they are read, and the one that is absent is zero. -/
theorem readsGiven_threeParams :
    ReadsGiven threeParams [([97], .uint32), ([98], .int16), ([100], .int64)] := by
  have hname : ∀ p ∈ threeParams, ParameterName p.1 := by
    simp [threeParams, ParameterName, FreeOf]
  have hexpected : ∀ e ∈ [([97], IntegerTy.uint32), ([98], .int16), ([100], .int64)],
      ParameterName e.1 := by
    simp [ParameterName, FreeOf]
  refine (readsGiven_iff hname (by decide) hexpected).mpr ⟨2, by decide, ?_, by decide⟩
  simp [threeParams, given, IntegerTy.Fits, List.lookup_cons]

/-- **In the other order both are lost**: `a=5&b=7` read for `b` and then for `a`. -/
theorem not_readsGiven_swapped :
    readNames [([98], .uint32), ([97], .uint32)] (queryText [([97], 5), ([98], 7)]) = [0, 0] ∧
      ¬ ReadsGiven [([97], 5), ([98], 7)] [([98], .uint32), ([97], .uint32)] := by
  have hread : readNames [([98], .uint32), ([97], .uint32)] (queryText [([97], 5), ([98], 7)]) =
      [0, 0] := by
    decide +kernel
  refine ⟨hread, ?_⟩
  rw [ReadsGiven, hread]
  decide

end Aquarius
