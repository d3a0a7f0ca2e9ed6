import Aquarius.Library.Extraction
import Aquarius.CppGenerator
import Aquarius.Serialization

/-!
# What the Generated Methods Do

The six methods that `cpp_generator` writes for a message body, executed statement by statement
(`exec`) on the members of its `impl`. A statement knows a member and a type by their names
only. What a name means is decided here: the aliases of `serialize/scalar_type.hpp`, the
structures declared earlier in the schema, and `std::vector` (`resolve`). The encoder takes the
type of the member it writes, the decoder the type named in the schema.

* `binary_parse` is `toDatas` and `fromDatas`.
* `kv_parse` is overloaded, and the calls written here have two arguments
  (`kvToDatas`, `kvFromDatas`).
* `boost::json` is a parameter, up to what its values are.

A statement on a name that means nothing does not compile; no body with an `Impl` has one.

## Main results

* `fromBinary_toBinary`: **binary bodies round trip**, for every list of fields.
* `fromJson_toJson_iff`: JSON bodies do exactly when no 64-bit field is in the upper half.
* `fromKv_toKv_iff`: key-value bodies do exactly when everything they hold is zero.
-/

open Decoding

namespace Aquarius.Lazytool

/-! ### What type names mean -/

/-- The aliases of `scalar_type.hpp`, and the built-in types. -/
def scalarTypes : List (Bytes × Ty) :=
  [(textBytes "int32", .uint32), (textBytes "uint32", .uint32), (textBytes "sint32", .int32),
   (textBytes "int64", .uint64), (textBytes "uint64", .uint64), (textBytes "sint64", .int64),
   (textBytes "fixed32", .fixed32), (textBytes "fixed64", .fixed64), (textBytes "bool", .bool),
   (textBytes "float", .float), (textBytes "double", .double), (textBytes "string", .string),
   (textBytes "bytes", .vector .char)]

/-- The type of a name, where `env` has the structures declared so far. -/
def resolveName (env : List (Bytes × Ty)) (name : Bytes) : Option Ty :=
  ((scalarTypes ++ env).find? (·.1 = name)).map Prod.snd

/-- The `T` of `std::vector<T>`. -/
def vectorElement (type : Bytes) : Option Bytes :=
  if (textBytes "std::vector<").isPrefixOf type && type.getLast? = some 62 then
    some (type.drop 12).dropLast
  else none

/-- The type a field is declared with. -/
def resolve (env : List (Bytes × Ty)) (type : Bytes) : Option Ty :=
  match vectorElement type with
  | some elem => (resolveName env elem).map .vector
  | none => resolveName env type

/-- The aggregate a structure is compiled to. -/
def structType (env : List (Bytes × Ty)) (f : FieldBase) : Option Ty :=
  (f.fields.mapM fun p => resolve env p.1).map
    (.struct (String.ofList (f.name.map fun b => Char.ofNat b.toNat)))

/-- The structures of a schema: the members of one may be of those declared before it. -/
def userTypes : List SchemaField → List (Bytes × Ty) → List (Bytes × Ty)
  | [], env => env
  | .message _ :: fields, env => userTypes fields env
  | .field f :: fields, env =>
      match structType env f with
      | some t => userTypes fields (env ++ [(f.name, t)])
      | none => userTypes fields env

/-! ### Bodies -/

/-- A member of the `impl` of a body. -/
structure Member where
  name : Bytes
  type : Ty
  value : type.Val

/-- The member a statement names. -/
def findMember (members : List Member) (name : Bytes) : Option Member :=
  members.find? (·.name = name)

/-- Assignment to the member of a name. -/
def assignMember (members : List Member) (name : Bytes) (t : Ty) (v : t.Val) : List Member :=
  members.map fun m => if m.name = name then ⟨name, t, v⟩ else m

/-- The `impl` of a body with the given fields: one member for each, of the type its name
means, with contents that keep the promises of their containers. -/
structure Impl (less : KeyLess) (env : List (Bytes × Ty)) (fields : List (Bytes × Bytes)) where
  members : List Member
  declared : members.map (fun m => (some m.type, m.name)) =
    fields.map fun f => (resolve env f.1, f.2)
  ok : ∀ m ∈ members, m.type.Ok (fun _ => True) less m.value

/-! ### JSON values -/

/-- `json::value`. The two kinds of integers are told apart by `as_int64`. -/
inductive JsonValue where
  | null
  | int64 (v : BitVec 64)
  | uint64 (v : BitVec 64)
  | double (v : BitVec 64)
  | bool (v : Bool)
  | string (v : Bytes)
  | array (vs : List JsonValue)
  | object (members : List (Bytes × JsonValue))

mutual

/-- The value that the text of a value is parsed to: an integer that fits is of kind `int64`. -/
def JsonValue.reparsed : JsonValue → JsonValue
  | .uint64 v => if v.toNat < 2 ^ 63 then .int64 v else .uint64 v
  | .array vs => .array (JsonValue.reparsedAll vs)
  | .object members => .object (JsonValue.reparsedMembers members)
  | v => v

/-- The elements of an array. -/
def JsonValue.reparsedAll : List JsonValue → List JsonValue
  | [] => []
  | v :: vs => v.reparsed :: JsonValue.reparsedAll vs

/-- The members of an object. -/
def JsonValue.reparsedMembers : List (Bytes × JsonValue) → List (Bytes × JsonValue)
  | [] => []
  | (key, v) :: members => (key, v.reparsed) :: JsonValue.reparsedMembers members

end

/-- What the generated code uses of `boost::json` beyond its values: `parse` throws on malformed
text, `valueTo` on a value of another shape, and `none` stands for the exception. `value_from` and
`value_to` are there for numbers, `bool`, strings, vectors and maps of these, and for aggregates
with a conversion of their own, but not for `fixed32` and `fixed64`, at which the two functions here
stand for nothing. The last two conversions are those between `float` and `double`. -/
structure BoostJson where
  serialize : JsonValue → Bytes
  parse : Bytes → Option JsonValue
  valueFrom : (t : Ty) → t.Val → JsonValue
  valueTo : (t : Ty) → JsonValue → Option t.Val
  toDouble : BitVec 32 → BitVec 64
  toFloat : BitVec 64 → BitVec 32

/-- `object::emplace`: a key that is already there keeps its value. -/
def emplaceValue (object : List (Bytes × JsonValue)) (key : Bytes) (v : JsonValue) :
    List (Bytes × JsonValue) :=
  if object.any (·.1 = key) then object else object ++ [(key, v)]

/-- `object::at`, which throws when there is no such key. -/
def atKey (object : List (Bytes × JsonValue)) (key : Bytes) : Option JsonValue :=
  (object.find? (·.1 = key)).map Prod.snd

section Execution

variable (order : ByteOrder) (less : KeyLess) (env : List (Bytes × Ty)) (json : BoostJson)

/-- The constructor of `json::value` that a member selects. `emplace` is written for these
types only. -/
def jsonOf : (t : Ty) → t.Val → JsonValue
  | .uint32, v => .uint64 (BitVec.setWidth 64 (v : BitVec 32))
  | .uint64, v => .uint64 v
  | .bool, v => .bool v
  | .float, v => .double (json.toDouble v)
  | .double, v => .double v
  | .string, v => .string v
  | _, _ => .null

/-- `json_value_from_array`: a `char` is signed. -/
def jsonValueFromArray (vec : List (BitVec 8)) : JsonValue :=
  .array (vec.map fun c => .int64 (c.signExtend 64))

/-- `static_cast<char>(*v.try_as_int64())`; there is nothing to dereference in a value of
another kind. -/
def charOfJson : JsonValue → Option (BitVec 8)
  | .int64 v => some (v.setWidth 8)
  | _ => none

/-- `json_value_to_array`: a value that is no array gives no characters. -/
def jsonValueToArray : JsonValue → Option (List (BitVec 8))
  | .array vs => vs.mapM charOfJson
  | _ => some []

/-- An accessor, and the conversion of its result to the type it is assigned to; `none` when
the value is of another kind, where the accessor throws. -/
def castJson : JsonAccessor → (t : Ty) → JsonValue → Option t.Val
  | .int64, .uint32, .int64 v => some (BitVec.setWidth 32 v)
  | .int64, .uint64, .int64 v => some v
  | .double, .float, .double v => some (json.toFloat v)
  | .double, .double, .double v => some v
  | .bool, .bool, .bool v => some v
  | .string, .string, .string v => some v
  | _, _, _ => none

/-! ### The overloads of `kv_parse` -/

/-- The text the constrained overloads of `to_datas` put behind the equals sign: numbers,
`bool` and `std::string`. Other types have none. -/
def kvText : (t : Ty) → t.Val → Option Bytes
  | .uint32, v => some (integerText (BitVec.toNat (v : BitVec 32)))
  | .uint64, v => some (integerText (BitVec.toNat (v : BitVec 64)))
  | .int16, v => some (integerText (BitVec.toInt (v : BitVec 16)))
  | .int32, v => some (integerText (BitVec.toInt (v : BitVec 32)))
  | .int64, v => some (integerText (BitVec.toInt (v : BitVec 64)))
  | .bool, v => some (textBytes (cond v "true" "false"))
  | .string, v => some v
  | _, _ => none

/-- `kv_parse::to_datas`. The overloads that write something take the name as a third argument;
with two arguments only the unconstrained one is viable, which writes nothing. -/
def kvToDatas (t : Ty) (v : t.Val) (name : Option Bytes) : Bytes :=
  match name, kvText t v with
  | some name, some text => name ++ 61 :: text
  | _, _ => []

/-- `get_first_range`: the characters up to the first separator, which is taken too. -/
def getFirstRange (separators : List UInt8) (buffer : Bytes) : Bytes × Bytes :=
  (buffer.takeWhile (· ∉ separators), (buffer.dropWhile (· ∉ separators)).tail)

/-- The value the constrained overloads of `from_datas` make of a text: an overload for `bool`
tests a literal, and one for strings drops a single character. -/
def kvValue : (t : Ty) → Bytes → Option t.Val
  | .uint32, text => some (BitVec.ofNat 32 (extractUnsigned 32 text))
  | .uint64, text => some (BitVec.ofNat 64 (extractUnsigned 64 text))
  | .int16, text => some (BitVec.ofInt 16 (extractSigned 16 text))
  | .int32, text => some (BitVec.ofInt 32 (extractSigned 32 text))
  | .int64, text => some (BitVec.ofInt 64 (extractSigned 64 text))
  | .bool, _ => some true
  | .string, text => some (if text.length < 2 then ([] : Bytes) else text)
  | _, _ => none

/-- The second argument of `kv_parse::from_datas`: a constant string, or a member, which is not
constant. -/
inductive KvArgument where
  | name (name : Bytes)
  | member (name : Bytes)
  deriving DecidableEq, Repr

/-- `kv_parse::from_datas`. The overloads that read take a `const std::string&`. A member binds
to the forwarding reference of the last overload without a conversion, so that one is chosen
whatever the type: it returns `T{}` and reads nothing. -/
def kvFromDatas (t : Ty) (buffer : Bytes) : KvArgument → t.Val × Bytes
  | .member _ => (t.init, buffer)
  | .name name =>
      let key := getFirstRange [61] buffer
      let text := getFirstRange [38, 35] key.2
      match kvValue t text.1 with
      | none => (t.init, buffer)
      | some v => if key.1 = [] ∨ key.1 ≠ name then (t.init, key.2) else (v, text.2)

/-! ### Execution -/

/-- What a method works on: the members of its object, the buffer, and the JSON object it
builds or reads. -/
structure Machine where
  members : List Member
  buffer : Bytes
  object : List (Bytes × JsonValue) := []

/-- What a method has done when it ends, and the exception it ended with. -/
abbrev Outcome := Machine × Option Fault

/-- The value an assignment takes from the JSON object. -/
def assignJson (m : Machine) (name : Bytes) (t : Ty) (read : JsonValue → Option t.Val) :
    Outcome :=
  match (atKey m.object name).bind read with
  | none => (m, some .jsonError)
  | some v => ({ m with members := assignMember m.members name t v }, none)

/-- The assignment of `json_value_to_array`, which throws nothing: dereferencing the result of an
accessor of another kind is undefined. -/
def assignArray (m : Machine) (name : Bytes) : Outcome :=
  match atKey m.object name with
  | none => (m, some .jsonError)
  | some v =>
      match jsonValueToArray v with
      | none => (m, some .undefined)
      | some vec => ({ m with members := assignMember m.members name (.vector .char) vec }, none)

/-- One statement. A name or a type that means nothing does not compile. -/
def exec (m : Machine) : Statement → Outcome
  | .binaryTo name =>
      match findMember m.members name with
      | none => (m, some .undefined)
      | some x => ({ m with buffer := m.buffer ++ toDatas order x.type x.value }, none)
  | .binaryFrom type name =>
      match resolve env type with
      | none => (m, some .undefined)
      | some t =>
          match (fromDatas order less t).run m.buffer with
          | .error e => (m, some e)
          | .ok (v, rest) =>
              ({ m with members := assignMember m.members name t v, buffer := rest }, none)
  | .emplace name =>
      match findMember m.members name with
      | none => (m, some .undefined)
      | some x => ({ m with object := emplaceValue m.object name (jsonOf json x.type x.value) }, none)
  | .emplaceArray name =>
      match findMember m.members name with
      | some ⟨_, .vector .char, v⟩ =>
          ({ m with object := emplaceValue m.object name (jsonValueFromArray v) }, none)
      | _ => (m, some .undefined)
  | .emplaceObject _ name =>
      match findMember m.members name with
      | none => (m, some .undefined)
      | some x =>
          ({ m with object := emplaceValue m.object name (json.valueFrom x.type x.value) }, none)
  | .castAs type name accessor =>
      match resolve env type with
      | none => (m, some .undefined)
      | some t => assignJson m name t (castJson json accessor t)
  | .assignAs name accessor =>
      match findMember m.members name with
      | none => (m, some .undefined)
      | some x => assignJson m name x.type (castJson json accessor x.type)
  | .assignArray name => assignArray m name
  | .assignObject type name =>
      match resolve env type with
      | none => (m, some .undefined)
      | some t => assignJson m name t (json.valueTo t)
  | .separator first => ({ m with buffer := m.buffer ++ [if first then 63 else 61] }, none)
  | .kvTo name =>
      match findMember m.members name with
      | none => (m, some .undefined)
      | some x => ({ m with buffer := m.buffer ++ kvToDatas x.type x.value none }, none)
  | .kvFrom type name =>
      match resolve env type with
      | none => (m, some .undefined)
      | some t =>
          let read := kvFromDatas t m.buffer (.member name)
          ({ m with members := assignMember m.members name t read.1, buffer := read.2 }, none)

/-- The statements of a method, up to an exception. -/
def execAll (m : Machine) : List Statement → Outcome
  | [] => (m, none)
  | s :: statements =>
      match exec order less env json m s with
      | (m, none) => execAll m statements
      | (m, some e) => (m, some e)

/-- `to_binary` of the body with the given fields -/
def toBinary (fields : List (Bytes × Bytes)) (members : List Member) : Outcome :=
  execAll order less env json { members := members, buffer := [] } (toBinaryStatements fields)

/-- `from_binary` -/
def fromBinary (fields : List (Bytes × Bytes)) (members : List Member) (buffer : Bytes) :
    Outcome :=
  execAll order less env json { members := members, buffer := buffer }
    (fromBinaryStatements fields)

/-- `to_json` -/
def toJson (fields : List (Bytes × Bytes)) (members : List Member) : Outcome :=
  if fields.isEmpty then ({ members := members, buffer := [] }, none)
  else
    match execAll order less env json { members := members, buffer := [] }
        (toJsonStatements fields) with
    | (m, some e) => (m, some e)
    | (m, none) => ({ m with buffer := m.buffer ++ json.serialize (.object m.object) }, none)

/-- `from_json`, which leaves the buffer as it is -/
def fromJson (fields : List (Bytes × Bytes)) (members : List Member) (buffer : Bytes) :
    Outcome :=
  if fields.isEmpty then ({ members := members, buffer := buffer }, none)
  else
    match json.parse buffer with
    | none => ({ members := members, buffer := buffer }, some .jsonError)
    | some (.object object) =>
        execAll order less env json
          { members := members, buffer := buffer, object := object } (fromJsonStatements fields)
    | some _ => ({ members := members, buffer := buffer }, none)

/-- `to_kv` -/
def toKv (fields : List (Bytes × Bytes)) (members : List Member) : Outcome :=
  execAll order less env json { members := members, buffer := [] } (toKvStatements fields)

/-- `from_kv` -/
def fromKv (fields : List (Bytes × Bytes)) (members : List Member) (buffer : Bytes) : Outcome :=
  execAll order less env json { members := members, buffer := buffer } (fromKvStatements fields)

/-! ### Statements and members -/

/-- Statements that end without an exception hand over to the rest. -/
theorem execAll_cons {m m' : Machine} {s : Statement}
    (h : exec order less env json m s = (m', none)) (statements : List Statement) :
    execAll order less env json m (s :: statements) =
      execAll order less env json m' statements := by
  rw [execAll, h]

/-- An exception ends the method. -/
theorem execAll_cons_throws {m m' : Machine} {s : Statement} {e : Fault}
    (h : exec order less env json m s = (m', some e)) (statements : List Statement) :
    execAll order less env json m (s :: statements) = (m', some e) := by
  rw [execAll, h]

end Execution

/-- The names of members. -/
def names (members : List Member) : List Bytes := members.map (·.name)

/-- The members are those the fields declare, in order. -/
def Declares (env : List (Bytes × Ty)) (fields : List (Bytes × Bytes)) (members : List Member) :
    Prop :=
  members.map (fun m => (some m.type, m.name)) = fields.map fun f => (resolve env f.1, f.2)

variable {env : List (Bytes × Ty)} {less : KeyLess}

/-- The first field declares the first member. -/
theorem Declares.cons {f : Bytes × Bytes} {fields : List (Bytes × Bytes)} {members : List Member}
    (h : Declares env (f :: fields) members) :
    ∃ m rest, members = m :: rest ∧ resolve env f.1 = some m.type ∧ f.2 = m.name ∧
      Declares env fields rest := by
  cases members with
  | nil => cases h
  | cons m rest =>
      obtain ⟨hhead, hrest⟩ := List.cons.inj h
      obtain ⟨htype, hname⟩ := Prod.mk.inj hhead
      exact ⟨m, rest, rfl, htype.symm, hname.symm, hrest⟩

/-- Without a field there is no member. -/
theorem Declares.nil {members : List Member} (h : Declares env [] members) : members = [] :=
  List.map_eq_nil_iff.mp h

/-- The names of the members are those of the fields. -/
theorem Declares.names_eq {fields : List (Bytes × Bytes)} {members : List Member}
    (h : Declares env fields members) : names members = fields.map Prod.snd := by
  have hsnd := congrArg (List.map Prod.snd) h
  rwa [List.map_map, List.map_map] at hsnd

/-- Two bodies of the same fields have the same names. -/
theorem Declares.nodup_names {fields : List (Bytes × Bytes)} {members old : List Member}
    (h : Declares env fields members) (hold : Declares env fields old) {pre : List Member}
    (hnames : (names (pre ++ members)).Nodup) : (names (pre ++ old)).Nodup := by
  have hsame : names old = names members := hold.names_eq.trans h.names_eq.symm
  rw [names, List.map_append] at hnames ⊢
  rw [names, names] at hsame
  rw [hsame]
  exact hnames

/-- A member is found behind others of other names. -/
theorem findMember_append {pre : List Member} {m : Member} {rest : List Member}
    (hnames : (names (pre ++ m :: rest)).Nodup) :
    findMember (pre ++ m :: rest) m.name = some m := by
  have hpre : ∀ x ∈ pre, x.name ≠ m.name := by
    intro x hx heq
    rw [names, List.map_append, List.nodup_append] at hnames
    exact hnames.2.2 x.name (List.mem_map_of_mem hx) m.name List.mem_cons_self heq
  rw [findMember, List.find?_append, List.find?_eq_none.mpr (by simpa using hpre)]
  simp

/-- Assignment replaces one member and leaves the others. -/
theorem assignMember_append {pre : List Member} {m : Member} {rest : List Member}
    (hnames : (names (pre ++ m :: rest)).Nodup) (x : Member) (hx : x.name = m.name) :
    assignMember (pre ++ m :: rest) x.name x.type x.value = pre ++ x :: rest := by
  rw [names, List.map_append, List.nodup_append, List.map_cons, List.nodup_cons] at hnames
  obtain ⟨-, ⟨hrest, -⟩, hpre⟩ := hnames
  have hkeep : ∀ l : List Member, (∀ y ∈ l, y.name ≠ m.name) →
      assignMember l x.name x.type x.value = l := by
    intro l hl
    refine (List.map_congr_left fun y hy => ?_).trans (List.map_id l)
    rw [if_neg (by rw [hx]; exact hl y hy)]
    rfl
  have hpre' := hkeep pre fun y hy heq =>
    hpre y.name (List.mem_map_of_mem hy) m.name List.mem_cons_self heq
  have hrest' := hkeep rest fun y hy heq => hrest (heq ▸ List.mem_map_of_mem hy)
  rw [assignMember] at hpre' hrest' ⊢
  rw [List.map_append, List.map_cons, hpre', hrest', if_pos hx.symm]

/-! ### Binary bodies -/

section BinaryBodies

variable (less) (order : ByteOrder) (json : BoostJson)

/-- The bytes of a member. -/
def encodeMember (m : Member) : Bytes := toDatas order m.type m.value

/-- `to_binary` writes the members in order. -/
theorem execAll_toBinary {fields : List (Bytes × Bytes)} {members : List Member}
    (h : Declares env fields members) (pre : List Member)
    (hnames : (names (pre ++ members)).Nodup) (buffer : Bytes) :
    execAll order less env json { members := pre ++ members, buffer := buffer }
        (toBinaryStatements fields) =
      ({ members := pre ++ members, buffer := buffer ++ members.flatMap (encodeMember order) },
        none) := by
  induction fields generalizing members pre buffer with
  | nil =>
      obtain rfl := h.nil
      simp [toBinaryStatements, execAll]
  | cons f fields ih =>
      obtain ⟨m, rest, rfl, -, hname, hrest⟩ := h.cons
      have hfound := findMember_append hnames
      have hstep : exec order less env json { members := pre ++ m :: rest, buffer := buffer }
          (.binaryTo f.2) =
          ({ members := pre ++ m :: rest, buffer := buffer ++ encodeMember order m }, none) := by
        rw [hname]
        simp only [exec, hfound, encodeMember]
      have hpre : pre ++ m :: rest = (pre ++ [m]) ++ rest := by simp
      have hrun := ih hrest (pre ++ [m]) (hpre ▸ hnames) (buffer ++ encodeMember order m)
      rw [toBinaryStatements, List.map_cons, execAll_cons order less env json hstep, hpre]
      rw [toBinaryStatements] at hrun
      rw [hrun, List.flatMap_cons, ← List.append_assoc buffer]

/-- `from_binary` reads them back one after another. -/
theorem execAll_fromBinary {fields : List (Bytes × Bytes)} {members old : List Member}
    (h : Declares env fields members) (hold : Declares env fields old)
    (hok : ∀ m ∈ members, m.type.Ok (fun _ => True) less m.value)
    (hcodec : ∀ m ∈ members, m.type.admitted = true) (pre : List Member)
    (hnames : (names (pre ++ members)).Nodup) (s : Bytes) :
    execAll order less env json
        { members := pre ++ old, buffer := members.flatMap (encodeMember order) ++ s }
        (fromBinaryStatements fields) =
      ({ members := pre ++ members, buffer := s }, none) := by
  induction fields generalizing members old pre with
  | nil =>
      obtain rfl := h.nil
      obtain rfl := hold.nil
      simp [fromBinaryStatements, execAll]
  | cons f fields ih =>
      have hnames₀ := h.nodup_names hold hnames
      obtain ⟨m, rest, rfl, htype, hname, hrest⟩ := h.cons
      obtain ⟨m₀, old, rfl, -, hname₀, hold⟩ := hold.cons
      have hm : m.type.Ok (fun _ => True) less m.value := hok m List.mem_cons_self
      have hread := reads_fromDatas order less m.type m.value
        (Ty.ok_of_admitted m.type (hcodec m List.mem_cons_self) m.value hm)
        (rest.flatMap (encodeMember order) ++ s)
      have hassign := assignMember_append hnames₀ m (hname.symm.trans hname₀)
      have hstep : exec order less env json
          { members := pre ++ m₀ :: old,
            buffer := (m :: rest).flatMap (encodeMember order) ++ s } (.binaryFrom f.1 f.2) =
          ({ members := pre ++ m :: old,
             buffer := rest.flatMap (encodeMember order) ++ s }, none) := by
        rw [hname, List.flatMap_cons, List.append_assoc]
        simp only [exec, htype, encodeMember, hread, hassign]
      have hpre : ∀ l : List Member, pre ++ m :: l = (pre ++ [m]) ++ l := by simp
      have hrun := ih hrest hold (fun x hx => hok x (List.mem_cons_of_mem m hx))
        (fun x hx => hcodec x (List.mem_cons_of_mem m hx)) (pre ++ [m]) (hpre rest ▸ hnames)
      rw [fromBinaryStatements, List.map_cons, execAll_cons order less env json hstep, hpre old,
        hpre rest]
      exact hrun

/-- The types with a binary codec: a type the schema knows, without a `sint32` in it and
without a repeated `bool`. -/
def hasCodec (env : List (Bytes × Ty)) (type : Bytes) : Bool :=
  match resolve env type with
  | some t => t.admitted
  | none => false

/-- The members of fields with a codec are of types with one. -/
theorem admitted_of_hasCodec {fields : List (Bytes × Bytes)} {members : List Member}
    (h : Declares env fields members) (hcodec : ∀ f ∈ fields, hasCodec env f.1 = true) :
    ∀ m ∈ members, m.type.admitted = true := by
  induction fields generalizing members with
  | nil =>
      obtain rfl := h.nil
      exact fun m hm => absurd hm List.not_mem_nil
  | cons f fields ih =>
      obtain ⟨m, rest, rfl, htype, -, hrest⟩ := h.cons
      have hfirst := hcodec f List.mem_cons_self
      rw [hasCodec, htype] at hfirst
      intro x hx
      rcases List.mem_cons.mp hx with rfl | hx
      · exact hfirst
      · exact ih hrest (fun g hg => hcodec g (List.mem_cons_of_mem f hg)) x hx

/-- **Generated binary bodies round trip.** For every schema, every body of it with distinctly
named fields of types with a codec, and all contents: what `to_binary` writes, `from_binary`
reads back into every field, whatever the body held before, and leaves what follows. -/
theorem fromBinary_toBinary (schema : List SchemaField) (field : FieldBase)
    (hdistinct : (field.fields.map Prod.snd).Nodup)
    (hcodec : ∀ f ∈ field.fields, hasCodec (userTypes schema []) f.1 = true)
    (body body₀ : Impl less (userTypes schema []) field.fields) (s : Bytes) :
    (toBinary order less (userTypes schema []) json field.fields body.members).2 = none ∧
      fromBinary order less (userTypes schema []) json field.fields body₀.members
          ((toBinary order less (userTypes schema []) json field.fields body.members).1.buffer ++
            s) =
        ({ members := body.members, buffer := s }, none) := by
  have hbody : Declares (userTypes schema []) field.fields body.members := body.declared
  have hnames : (names ([] ++ body.members)).Nodup := by
    rw [List.nil_append, hbody.names_eq]
    exact hdistinct
  have hwrite := execAll_toBinary less order json hbody [] hnames []
  have hread := execAll_fromBinary less order json hbody body₀.declared body.ok
    (admitted_of_hasCodec hbody hcodec) [] hnames s
  rw [List.nil_append] at hwrite
  rw [List.nil_append, List.nil_append] at hread
  rw [toBinary, hwrite, fromBinary]
  exact ⟨rfl, hread⟩

/-- A schema with a structure, and a message whose request has a field of it. -/
def pointSchema : List SchemaField :=
  [.field { type := .structure, name := textBytes "point"
            fields := [(textBytes "int32", textBytes "x"), (textBytes "double", textBytes "y")] }]

/-- The request of that message. -/
def pointRequest : FieldBase where
  type := .request
  name := textBytes "move_req_body"
  fields := [(textBytes "point", textBytes "to"), (textBytes "std::vector<string>", textBytes "tags")]

/-- `std::vector<std::string>` holding two texts. -/
def twoTags : (Ty.vector .string).Val := ([[97], [98, 99]] : List Bytes)

/-- A request that holds a point and two texts. -/
def pointBody : Impl (stdLess fun _ _ _ => false) (userTypes pointSchema []) pointRequest.fields where
  members :=
    [⟨textBytes "to", .struct "point" [.uint32, .double], (7#32, 1#64, ())⟩,
     ⟨textBytes "tags", .vector .string, twoTags⟩]
  declared := rfl
  ok := by
    intro m hm
    rcases List.mem_pair.mp hm with rfl | rfl
    · exact ⟨trivial, trivial, trivial⟩
    · refine ⟨by decide, fun v hv => ⟨?_, fun _ _ => trivial⟩⟩
      rcases List.mem_pair.mp hv with rfl | rfl <;> decide

/-- A `boost::json` that is not asked anything. -/
def silentJson : BoostJson where
  serialize _ := []
  parse _ := none
  valueFrom _ _ := .null
  valueTo _ _ := none
  toDouble _ := 0
  toFloat _ := 0

/-- The request is read back, with a byte behind it. -/
theorem fromBinary_toBinary_point :
    (toBinary .little (stdLess fun _ _ _ => false) (userTypes pointSchema []) silentJson
        pointRequest.fields pointBody.members).2 = none ∧
      fromBinary .little (stdLess fun _ _ _ => false) (userTypes pointSchema []) silentJson
          pointRequest.fields pointBody.members
          ((toBinary .little (stdLess fun _ _ _ => false) (userTypes pointSchema []) silentJson
            pointRequest.fields pointBody.members).1.buffer ++ [9]) =
        ({ members := pointBody.members, buffer := [9] }, none) :=
  fromBinary_toBinary _ .little silentJson pointSchema pointRequest (by decide) (by decide)
    pointBody pointBody [9]

end BinaryBodies

/-! ### JSON bodies -/

section JsonBodies

variable (less) (order : ByteOrder) (json : BoostJson)

/-- The scalar types whose values JSON has a place for, floating-point numbers aside. -/
def jsonTypes : List Bytes :=
  [textBytes "int32", textBytes "uint32", textBytes "int64", textBytes "uint64",
   textBytes "bool", textBytes "string", textBytes "bytes"]

/-- The value `to_json` puts into the object for a member. -/
def fieldJson (m : Member) : JsonValue :=
  match m with
  | ⟨_, .vector .char, v⟩ => jsonValueFromArray v
  | ⟨_, t, v⟩ => jsonOf json t v

/-- A 64-bit number is read by `as_int64`, so it has to be in the lower half. -/
def fitsInt64 : Member → Bool
  | ⟨_, .uint64, v⟩ => decide (BitVec.toNat (v : BitVec 64) < 2 ^ 63)
  | _ => true

/-- Sign extension is undone by the cast to `char`. -/
theorem setWidth_signExtend_char (c : BitVec 8) : (c.signExtend 64).setWidth 8 = c :=
  BitVec.eq_of_getLsbD_eq fun i hi => by
    rw [BitVec.getLsbD_setWidth, BitVec.getLsbD_signExtend]
    simp [hi, show i < 64 by omega]

/-- The characters come back from the numbers they were extended to. -/
theorem mapM_charOfJson (vec : List (BitVec 8)) :
    (vec.map fun c => JsonValue.int64 (c.signExtend 64)).mapM charOfJson = some vec := by
  induction vec with
  | nil => rfl
  | cons c vec ih =>
      have hc : charOfJson (.int64 (c.signExtend 64)) = some c :=
        congrArg some (setWidth_signExtend_char c)
      rw [List.map_cons, List.mapM_cons, hc, ih]
      rfl

/-- The characters of an array are parsed as they were written. -/
theorem reparsed_jsonValueFromArray (vec : List (BitVec 8)) :
    (jsonValueFromArray vec).reparsed = jsonValueFromArray vec := by
  have hall : JsonValue.reparsedAll (vec.map fun c => JsonValue.int64 (c.signExtend 64)) =
      vec.map fun c => JsonValue.int64 (c.signExtend 64) := by
    induction vec with
    | nil => rfl
    | cons c vec ih =>
        rw [List.map_cons, JsonValue.reparsedAll, ih]
        rfl
  rw [jsonValueFromArray, JsonValue.reparsed, hall]

/-- A 32-bit number is in the lower half of the 64-bit ones, and comes back from there. -/
theorem setWidth_uint32 (v : BitVec 32) :
    (v.setWidth 64).toNat < 2 ^ 63 ∧ (v.setWidth 64).setWidth 32 = v := by
  constructor
  · rw [BitVec.toNat_setWidth_of_le (by omega)]
    omega
  · simp

/-- The accessor that belongs to a type. -/
inductive Accesses : JsonAccessor → Ty → Prop
  | uint32 : Accesses .int64 .uint32
  | uint64 : Accesses .int64 .uint64
  | bool : Accesses .bool .bool
  | string : Accesses .string .string

/-- What an accessor gives for a member that was written and parsed. -/
theorem castJson_reparsed {accessor : JsonAccessor} {m : Member}
    (h : Accesses accessor m.type) :
    castJson json accessor m.type (fieldJson json m).reparsed =
      if fitsInt64 m then some m.value else none := by
  obtain ⟨name, t, v⟩ := m
  cases h with
  | uint32 =>
      obtain ⟨hlt, hback⟩ := setWidth_uint32 v
      simp only [fieldJson, jsonOf, JsonValue.reparsed, if_pos hlt, castJson, hback, fitsInt64,
        ↓reduceIte]
  | uint64 =>
      by_cases hv : BitVec.toNat (v : BitVec 64) < 2 ^ 63
      · simp only [fieldJson, jsonOf, JsonValue.reparsed, castJson, fitsInt64, hv, decide_true,
          ↓reduceIte]
      · simp only [fieldJson, jsonOf, JsonValue.reparsed, castJson, fitsInt64, hv, decide_false,
          Bool.false_eq_true, ↓reduceIte]
  | bool => rfl
  | string => rfl

/-- The statement of `to_json` for a field puts its value into the object. -/
theorem exec_toJsonStatement {type : Bytes} (htype : type ∈ jsonTypes) {m : Member}
    (hresolve : resolve env type = some m.type) {M : Machine}
    (hfound : findMember M.members m.name = some m) :
    exec order less env json M (toJsonStatement type m.name) =
      ({ M with object := emplaceValue M.object m.name (fieldJson json m) }, none) := by
  have hplain : exec order less env json M (.emplace m.name) =
      ({ M with object := emplaceValue M.object m.name (jsonOf json m.type m.value) }, none) := by
    simp only [exec, hfound]
  obtain ⟨name, t, v⟩ := m
  simp only [jsonTypes, List.mem_cons, List.not_mem_nil, or_false] at htype
  rcases htype with rfl | rfl | rfl | rfl | rfl | rfl | rfl <;>
    obtain rfl := Option.some.inj hresolve
  · exact hplain
  · exact hplain
  · exact hplain
  · exact hplain
  · exact hplain
  · exact hplain
  · show exec order less env json M (.emplaceArray name) = _
    simp only [exec, hfound, fieldJson]

/-- A member as it was written, or the exception of an accessor that does not apply. -/
def restored (M : Machine) (m : Member) : Outcome :=
  if fitsInt64 m then
    ({ M with members := assignMember M.members m.name m.type m.value }, none)
  else (M, some .jsonError)

/-- An assignment from the JSON object, when the value is there. -/
theorem assignJson_at {M : Machine} {m : Member} {read : JsonValue → Option m.type.Val}
    {v : JsonValue} (hat : atKey M.object m.name = some v)
    (hread : read v = if fitsInt64 m then some m.value else none) :
    assignJson M m.name m.type read = restored M m := by
  rw [assignJson, hat, Option.bind_some, hread, restored]
  by_cases hfit : fitsInt64 m = true
  · rw [if_pos hfit, if_pos hfit]
  · rw [if_neg hfit, if_neg hfit]

/-- A field read by `static_cast<type>(at(name).as_...())`. -/
theorem exec_castAs {type : Bytes} {m : Member} (hresolve : resolve env type = some m.type)
    (accessor : JsonAccessor) (haccess : Accesses accessor m.type) (M : Machine)
    (hat : atKey M.object m.name = some (fieldJson json m).reparsed) :
    exec order less env json M (.castAs type m.name accessor) = restored M m := by
  simp only [exec, hresolve]
  exact assignJson_at hat (castJson_reparsed json haccess)

/-- A field read by `at(name).as_...()`. -/
theorem exec_assignAs {m x : Member} {M : Machine} (hfound : findMember M.members m.name = some x)
    (hx : x.type = m.type) {accessor : JsonAccessor} (haccess : Accesses accessor m.type)
    (hat : atKey M.object m.name = some (fieldJson json m).reparsed) :
    exec order less env json M (.assignAs m.name accessor) = restored M m := by
  simp only [exec, hfound]
  rw [hx]
  exact assignJson_at hat (castJson_reparsed json haccess)

/-- The bytes of a field come back from its array. -/
theorem jsonValueToArray_reparsed (vec : List (BitVec 8)) :
    jsonValueToArray (jsonValueFromArray vec).reparsed = some vec := by
  rw [reparsed_jsonValueFromArray]
  exact mapM_charOfJson vec

/-- An assignment of the bytes that were written. -/
theorem assignArray_at {M : Machine} {name : Bytes} {vec : List (BitVec 8)}
    (hat : atKey M.object name = some (jsonValueFromArray vec).reparsed) :
    assignArray M name =
      ({ M with members := assignMember M.members name (.vector .char) vec }, none) := by
  simp only [assignArray, hat, jsonValueToArray_reparsed]

/-- The statement of `from_json` for a field restores it, unless it is a 64-bit number in the
upper half. -/
theorem exec_fromJsonStatement {type : Bytes} (htype : type ∈ jsonTypes) {m : Member}
    (hresolve : resolve env type = some m.type) :
    ∃ statement, fromJsonStatement type m.name = [statement] ∧
      ∀ (M : Machine) (x : Member), findMember M.members m.name = some x → x.type = m.type →
        atKey M.object m.name = some (fieldJson json m).reparsed →
        exec order less env json M statement = restored M m := by
  have hcast := exec_castAs less order json hresolve
  obtain ⟨name, t, v⟩ := m
  simp only [jsonTypes, List.mem_cons, List.not_mem_nil, or_false] at htype
  rcases htype with rfl | rfl | rfl | rfl | rfl | rfl | rfl <;>
    obtain rfl := Option.some.inj hresolve
  · exact ⟨_, rfl, fun M _ _ _ hat => hcast .int64 .uint32 M hat⟩
  · exact ⟨_, rfl, fun M _ _ _ hat => hcast .int64 .uint32 M hat⟩
  · exact ⟨_, rfl, fun _ _ hfound hx hat => exec_assignAs less order json hfound hx .uint64 hat⟩
  · exact ⟨_, rfl, fun M _ _ _ hat => hcast .int64 .uint64 M hat⟩
  · exact ⟨_, rfl, fun _ _ hfound hx hat => exec_assignAs less order json hfound hx .bool hat⟩
  · exact ⟨_, rfl, fun M _ _ _ hat => hcast .string .string M hat⟩
  · exact ⟨_, rfl, fun _ _ _ _ hat => assignArray_at hat⟩

/-- The entry of the object for a member. -/
def jsonEntry (m : Member) : Bytes × JsonValue := (m.name, fieldJson json m)

/-- The object that `to_json` writes. -/
def jsonObject (members : List Member) : JsonValue := .object (members.map (jsonEntry json))

/-- A new key is put behind the others. -/
theorem emplaceValue_jsonEntry {pre : List Member} {m : Member} {rest : List Member}
    (hnames : (names (pre ++ m :: rest)).Nodup) :
    emplaceValue (pre.map (jsonEntry json)) m.name (fieldJson json m) =
      (pre ++ [m]).map (jsonEntry json) := by
  rw [emplaceValue, if_neg, List.map_append]
  · rfl
  · intro hany
    obtain ⟨p, hp, heq⟩ := List.any_eq_true.mp hany
    obtain ⟨x, hx, rfl⟩ := List.mem_map.mp hp
    rw [names, List.map_append, List.nodup_append] at hnames
    exact hnames.2.2 x.name (List.mem_map_of_mem hx) m.name List.mem_cons_self
      (of_decide_eq_true heq)

/-- `to_json` builds the object member by member. -/
theorem execAll_toJson {fields : List (Bytes × Bytes)} {members : List Member}
    (h : Declares env fields members) (htypes : ∀ f ∈ fields, f.1 ∈ jsonTypes)
    (pre : List Member) (hnames : (names (pre ++ members)).Nodup) (buffer : Bytes) :
    execAll order less env json
        { members := pre ++ members, buffer := buffer, object := pre.map (jsonEntry json) }
        (toJsonStatements fields) =
      ({ members := pre ++ members, buffer := buffer
         object := (pre ++ members).map (jsonEntry json) }, none) := by
  induction fields generalizing members pre with
  | nil =>
      obtain rfl := h.nil
      simp [toJsonStatements, execAll]
  | cons f fields ih =>
      obtain ⟨m, rest, rfl, hresolve, hname, hrest⟩ := h.cons
      have hpre : pre ++ m :: rest = (pre ++ [m]) ++ rest := by simp
      have hstep := exec_toJsonStatement less order json (htypes f List.mem_cons_self) hresolve
        (M := { members := pre ++ m :: rest, buffer := buffer, object := pre.map (jsonEntry json) })
        (findMember_append hnames)
      have hrun := ih hrest (fun g hg => htypes g (List.mem_cons_of_mem f hg)) (pre ++ [m])
        (hpre ▸ hnames)
      rw [toJsonStatements, List.map_cons, hname, execAll_cons order less env json hstep,
        emplaceValue_jsonEntry json hnames, hpre]
      exact hrun

/-- The names of the members decide where their values are in the parsed object. -/
theorem atKey_reparsedMembers {members : List Member} (hnames : (names members).Nodup)
    {m : Member} (hm : m ∈ members) :
    atKey (JsonValue.reparsedMembers (members.map (jsonEntry json))) m.name =
      some (fieldJson json m).reparsed := by
  induction members with
  | nil => exact absurd hm List.not_mem_nil
  | cons x members ih =>
      rw [names, List.map_cons, List.nodup_cons] at hnames
      rw [List.map_cons, jsonEntry, JsonValue.reparsedMembers, atKey, List.find?_cons]
      rcases List.mem_cons.mp hm with rfl | hm
      · simp
      · have hne : x.name ≠ m.name := fun heq => hnames.1 (heq ▸ List.mem_map_of_mem hm)
        simp only [hne, decide_false]
        exact ih hnames.2 hm

/-- `from_json` restores the members one after another, up to the first 64-bit number in the
upper half, where `as_int64` throws. -/
theorem execAll_fromJson {fields : List (Bytes × Bytes)} {members old : List Member}
    (h : Declares env fields members) (hold : Declares env fields old)
    (htypes : ∀ f ∈ fields, f.1 ∈ jsonTypes) (pre : List Member)
    (hnames : (names (pre ++ members)).Nodup) (buffer : Bytes)
    {object : List (Bytes × JsonValue)}
    (hat : ∀ m ∈ members, atKey object m.name = some (fieldJson json m).reparsed) :
    let r := execAll order less env json
      { members := pre ++ old, buffer := buffer, object := object } (fromJsonStatements fields)
    if ∀ m ∈ members, fitsInt64 m = true then
      r = ({ members := pre ++ members, buffer := buffer, object := object }, none)
    else r.2 = some .jsonError := by
  induction fields generalizing members old pre with
  | nil =>
      obtain rfl := h.nil
      obtain rfl := hold.nil
      simp [fromJsonStatements, execAll]
  | cons f fields ih =>
      have hnames₀ := h.nodup_names hold hnames
      obtain ⟨m, rest, rfl, hresolve, hname, hrest⟩ := h.cons
      obtain ⟨m₀, old, rfl, hresolve₀, hname₀, hold⟩ := hold.cons
      have hsame : m.name = m₀.name := hname.symm.trans hname₀
      obtain ⟨statement, hstatement, hexec⟩ := exec_fromJsonStatement less order json
        (htypes f List.mem_cons_self) hresolve
      have hstep := hexec { members := pre ++ m₀ :: old, buffer := buffer, object := object } m₀
        (hsame ▸ findMember_append hnames₀)
        (Option.some.inj (hresolve₀.symm.trans hresolve)) (hat m List.mem_cons_self)
      have hstatements : fromJsonStatements (f :: fields) =
          statement :: fromJsonStatements fields := by
        rw [fromJsonStatements, List.flatMap_cons, hname, hstatement]
        rfl
      rw [hstatements]
      by_cases hfit : fitsInt64 m = true
      · have hpre : ∀ l : List Member, pre ++ m :: l = (pre ++ [m]) ++ l := by simp
        rw [restored, if_pos hfit, assignMember_append hnames₀ m hsame] at hstep
        have hrun := ih hrest hold (fun g hg => htypes g (List.mem_cons_of_mem f hg))
          (pre ++ [m]) (hpre rest ▸ hnames) (fun x hx => hat x (List.mem_cons_of_mem m hx))
        rw [← hpre old, ← hpre rest] at hrun
        simp only [execAll_cons order less env json hstep, List.forall_mem_cons, hfit, true_and]
        exact hrun
      · rw [restored, if_neg hfit] at hstep
        simp only [execAll_cons_throws order less env json hstep, List.forall_mem_cons, hfit,
          Bool.false_eq_true, false_and, ↓reduceIte]

/-- The body is written without an exception, and what was written is read back into every
field. -/
def JsonRestores (env : List (Bytes × Ty)) (fields : List (Bytes × Bytes))
    (members members₀ : List Member) : Prop :=
  let written := toJson order less env json fields members
  let read := fromJson order less env json fields members₀ written.1.buffer
  written.2 = none ∧ read.2 = none ∧ read.1.members = members

/-- What `to_json` writes for a body of these types. -/
theorem toJson_eq {fields : List (Bytes × Bytes)} (hne : fields ≠ []) {members : List Member}
    (h : Declares env fields members) (hnames : (names members).Nodup)
    (htypes : ∀ f ∈ fields, f.1 ∈ jsonTypes) :
    toJson order less env json fields members =
      ({ members := members, buffer := json.serialize (jsonObject json members)
         object := members.map (jsonEntry json) }, none) := by
  have hrun := execAll_toJson less order json h htypes [] hnames []
  simp only [List.nil_append, List.map_nil] at hrun
  rw [toJson, if_neg (by simpa using hne), hrun]
  rfl

/-- What `from_json` does with what `to_json` wrote, given that `parse` undoes `serialize` on
the object written. -/
theorem jsonRestores_or_throws {fields : List (Bytes × Bytes)}
    (hdistinct : (fields.map Prod.snd).Nodup) (htypes : ∀ f ∈ fields, f.1 ∈ jsonTypes)
    (body body₀ : Impl less env fields)
    (hjson : json.parse (json.serialize (jsonObject json body.members)) =
      some (jsonObject json body.members).reparsed) :
    if ∀ m ∈ body.members, fitsInt64 m = true then
      JsonRestores less order json env fields body.members body₀.members
    else ¬JsonRestores less order json env fields body.members body₀.members := by
  have hbody : Declares env fields body.members := body.declared
  have hbody₀ : Declares env fields body₀.members := body₀.declared
  have hnames : (names body.members).Nodup := by
    rw [hbody.names_eq]
    exact hdistinct
  by_cases hne : fields = []
  · subst hne
    rw [JsonRestores, hbody.nil, hbody₀.nil]
    simp [toJson, fromJson]
  · have hread := execAll_fromJson less order json hbody hbody₀ htypes [] hnames
      (json.serialize (jsonObject json body.members))
      (fun m hm => atKey_reparsedMembers json hnames hm)
    have hparse : fromJson order less env json fields body₀.members
        (json.serialize (jsonObject json body.members)) =
        execAll order less env json
          { members := body₀.members, buffer := json.serialize (jsonObject json body.members)
            object := JsonValue.reparsedMembers (body.members.map (jsonEntry json)) }
          (fromJsonStatements fields) := by
      rw [fromJson, if_neg (by simpa using hne), hjson]
      rfl
    simp only [List.nil_append, ← hparse] at hread
    rw [JsonRestores, toJson_eq less order json hne hbody hnames htypes]
    split
    · rename_i hfit
      rw [if_pos hfit] at hread
      simp only [hread, and_self]
    · rename_i hfit
      rw [if_neg hfit] at hread
      simp [hread]

/-- **Generated JSON bodies** round trip if and only if every 64-bit number is in the lower
half, for every list of fields of these types. -/
theorem fromJson_toJson_iff (fields : List (Bytes × Bytes))
    (hdistinct : (fields.map Prod.snd).Nodup) (htypes : ∀ f ∈ fields, f.1 ∈ jsonTypes)
    (body body₀ : Impl less env fields)
    (hjson : json.parse (json.serialize (jsonObject json body.members)) =
      some (jsonObject json body.members).reparsed) :
    JsonRestores less order json env fields body.members body₀.members ↔
      ∀ m ∈ body.members, fitsInt64 m = true := by
  have hboth := jsonRestores_or_throws less order json hdistinct htypes body body₀ hjson
  constructor
  · intro hrestores
    by_contra hfit
    rw [if_neg hfit] at hboth
    exact hboth hrestores
  · intro hfit
    rwa [if_pos hfit] at hboth

/-- `boost::json` on objects with one unsigned member: the text is the numeral, and an integer
that fits is parsed as `int64`. -/
def unsignedJson : BoostJson where
  serialize
    | .object [(name, .uint64 n)] => NumberValue.text (.object name n.toNat)
    | _ => []
  parse text :=
    match NumberValue.ofText text with
    | some (.object name n) =>
        if n < 2 ^ 63 then some (.object [(name, .int64 (BitVec.ofNat 64 n))])
        else if n < 2 ^ 64 then some (.object [(name, .uint64 (BitVec.ofNat 64 n))])
        else none
    | _ => none
  valueFrom _ _ := .null
  valueTo _ _ := none
  toDouble _ := 0
  toFloat _ := 0

/-- The field `uint64 id`. -/
def idField : List (Bytes × Bytes) := [(textBytes "uint64", textBytes "id")]

/-- A body with one number. -/
def idBody (v : BitVec 64) : Impl (stdLess fun _ _ _ => false) [] idField where
  members := [⟨textBytes "id", .uint64, v⟩]
  declared := rfl
  ok := by
    intro m hm
    obtain rfl := List.mem_singleton.mp hm
    trivial

/-- Its object is parsed as it was written, up to the kind of the number. -/
theorem parse_serialize_idBody (v : BitVec 64) :
    unsignedJson.parse (unsignedJson.serialize (jsonObject unsignedJson (idBody v).members)) =
      some (jsonObject unsignedJson (idBody v).members).reparsed := by
  have hobject : jsonObject unsignedJson (idBody v).members =
      .object [([105, 100], .uint64 v)] := rfl
  have htext := NumberValue.ofText_text_id v.toNat
  rw [hobject]
  show (match NumberValue.ofText (NumberValue.text (.object [105, 100] v.toNat)) with
    | some (.object name n) =>
        if n < 2 ^ 63 then some (JsonValue.object [(name, .int64 (BitVec.ofNat 64 n))])
        else if n < 2 ^ 64 then some (.object [(name, .uint64 (BitVec.ofNat 64 n))])
        else none
    | _ => none) = _
  rw [htext]
  by_cases hv : v.toNat < 2 ^ 63
  · simp only [JsonValue.reparsed, JsonValue.reparsedMembers, if_pos hv, BitVec.ofNat_toNat,
      BitVec.setWidth_eq]
  · simp only [JsonValue.reparsed, JsonValue.reparsedMembers, if_neg hv, if_pos v.isLt,
      BitVec.ofNat_toNat, BitVec.setWidth_eq]

/-- The largest number of the lower half comes back. -/
theorem fromJson_toJson_lower :
    JsonRestores (stdLess fun _ _ _ => false) .little unsignedJson [] idField
      (idBody 0x7fffffffffffffff#64).members (idBody 0#64).members :=
  (fromJson_toJson_iff _ .little unsignedJson idField (by decide) (by decide) (idBody 0x7fffffffffffffff#64)
    (idBody 0#64) (parse_serialize_idBody _)).mpr (by
      intro m hm
      obtain rfl := List.mem_singleton.mp hm
      rfl)

/-- The smallest number of the upper half does not: it is parsed as `uint64`, and `as_int64`
throws. -/
theorem not_jsonRestores_upper :
    ¬JsonRestores (stdLess fun _ _ _ => false) .little unsignedJson [] idField
      (idBody 0x8000000000000000#64).members (idBody 0#64).members := by
  have hboth := jsonRestores_or_throws (stdLess fun _ _ _ => false) .little unsignedJson
    (by decide) (by decide) (idBody 0x8000000000000000#64) (idBody 0#64) (parse_serialize_idBody _)
  rwa [if_neg] at hboth
  intro hfit
  exact absurd (hfit _ List.mem_cons_self) (by decide)

end JsonBodies

/-! ### Key-value bodies -/

section KvBodies

variable (less) (order : ByteOrder) (json : BoostJson)

/-- A member as the constructor of a body leaves it. -/
def resetMember (m : Member) : Member := { m with value := m.type.init }

/-- The separators of a number of fields. -/
def separators : ℕ → Bytes
  | 0 => []
  | n + 1 => 63 :: List.replicate n 61

/-- `to_kv` writes separators and nothing else, behind the first field. -/
theorem execAll_toKv_rest {fields : List (Bytes × Bytes)} {members : List Member}
    (h : Declares env fields members) (pre : List Member)
    (hnames : (names (pre ++ members)).Nodup) (buffer : Bytes) :
    execAll order less env json { members := pre ++ members, buffer := buffer }
        (fields.flatMap fun f => [.separator false, .kvTo f.2]) =
      ({ members := pre ++ members, buffer := buffer ++ List.replicate fields.length 61 },
        none) := by
  induction fields generalizing members pre buffer with
  | nil => simp [execAll]
  | cons f fields ih =>
      obtain ⟨m, rest, rfl, -, hname, hrest⟩ := h.cons
      have hfound := findMember_append hnames
      have hsep : exec order less env json { members := pre ++ m :: rest, buffer := buffer }
          (.separator false) =
          ({ members := pre ++ m :: rest, buffer := buffer ++ [61] }, none) := rfl
      have hto : exec order less env json
          { members := pre ++ m :: rest, buffer := buffer ++ [61] } (.kvTo f.2) =
          ({ members := pre ++ m :: rest, buffer := buffer ++ [61] }, none) := by
        rw [hname]
        simp [exec, hfound, kvToDatas]
      have hpre : pre ++ m :: rest = (pre ++ [m]) ++ rest := by simp
      have hrun := ih hrest (pre ++ [m]) (hpre ▸ hnames) (buffer ++ [61])
      rw [← hpre, List.append_assoc, List.singleton_append] at hrun
      rw [List.flatMap_cons, List.cons_append, execAll_cons order less env json hsep,
        List.cons_append, execAll_cons order less env json hto, List.nil_append, hrun,
        List.length_cons, List.replicate_succ]

/-- `to_kv` writes separators and nothing else. -/
theorem toKv_eq {fields : List (Bytes × Bytes)} {members : List Member}
    (h : Declares env fields members) (hnames : (names members).Nodup) :
    toKv order less env json fields members =
      ({ members := members, buffer := separators fields.length }, none) := by
  cases fields with
  | nil => rfl
  | cons f fields =>
      obtain ⟨m, rest, rfl, -, hname, hrest⟩ := h.cons
      have hfound : findMember ([] ++ m :: rest) m.name = some m := findMember_append hnames
      have hto : exec order less env json { members := m :: rest, buffer := [63] } (.kvTo f.2) =
          ({ members := m :: rest, buffer := [63] }, none) := by
        rw [List.nil_append] at hfound
        rw [hname]
        simp [exec, hfound, kvToDatas]
      have hsep : exec order less env json { members := m :: rest, buffer := [] }
          (.separator true) = ({ members := m :: rest, buffer := [63] }, none) := rfl
      have hrun := execAll_toKv_rest less order json hrest [m] hnames [63]
      rw [toKv, toKvStatements, execAll_cons order less env json hsep,
        execAll_cons order less env json hto]
      exact hrun

/-- `from_kv` resets every member, whatever the buffer holds. -/
theorem execAll_fromKv {fields : List (Bytes × Bytes)} {members : List Member}
    (h : Declares env fields members) (pre : List Member)
    (hnames : (names (pre ++ members)).Nodup) (buffer : Bytes) :
    execAll order less env json { members := pre ++ members, buffer := buffer }
        (fromKvStatements fields) =
      ({ members := pre ++ members.map resetMember, buffer := buffer }, none) := by
  induction fields generalizing members pre with
  | nil =>
      obtain rfl := h.nil
      simp [fromKvStatements, execAll]
  | cons f fields ih =>
      obtain ⟨m, rest, rfl, hresolve, hname, hrest⟩ := h.cons
      have hassign := assignMember_append hnames (resetMember m) rfl
      have hstep : exec order less env json { members := pre ++ m :: rest, buffer := buffer }
          (.kvFrom f.1 f.2) =
          ({ members := pre ++ resetMember m :: rest, buffer := buffer }, none) := by
        rw [hname]
        simp only [exec, hresolve, kvFromDatas]
        exact congrArg (fun ms => (({ members := ms, buffer := buffer } : Machine), none)) hassign
      have hpre : ∀ l : List Member, pre ++ resetMember m :: l = (pre ++ [resetMember m]) ++ l := by
        simp
      have hnames' : (names ((pre ++ [resetMember m]) ++ rest)).Nodup := by
        rw [← hpre rest]
        rw [names, List.map_append, List.map_cons] at hnames ⊢
        exact hnames
      have hrun := ih hrest (pre ++ [resetMember m]) hnames'
      rw [← hpre, ← hpre] at hrun
      rw [fromKvStatements, List.map_cons, execAll_cons order less env json hstep]
      exact hrun

/-- The body is written without an exception, and a new one is given the same fields by what
was written. -/
def KvRestores (env : List (Bytes × Ty)) (fields : List (Bytes × Bytes))
    (members : List Member) : Prop :=
  let written := toKv order less env json fields members
  let read := fromKv order less env json fields (members.map resetMember) written.1.buffer
  written.2 = none ∧ read.2 = none ∧ read.1.members = members

/-- Strings and unsigned integers. -/
def kvTypes : List Bytes :=
  [textBytes "string", textBytes "int32", textBytes "uint32", textBytes "int64",
   textBytes "uint64"]

/-- Strings of at least two characters without a separator in them. -/
def kvPlain : Member → Bool
  | ⟨_, .string, v⟩ => 2 ≤ List.length (v : Bytes) && List.all (v : Bytes) (· ∉ [38, 35, 61])
  | _ => true

/-- An integer that is zero. -/
def isZero : Member → Bool
  | ⟨_, .uint32, v⟩ => decide (BitVec.toNat (v : BitVec 32) = 0)
  | ⟨_, .uint64, v⟩ => decide (BitVec.toNat (v : BitVec 64) = 0)
  | _ => false

/-- A number is zero when its value is. -/
theorem zero_eq_iff_toNat {w : ℕ} (v : BitVec w) : 0#w = v ↔ decide (v.toNat = 0) = true := by
  rw [decide_eq_true_iff]
  constructor
  · rintro rfl
    simp
  · intro h
    exact BitVec.eq_of_toNat_eq (by simp [h])

/-- Among plain members of these types, those that a reset leaves as they are. -/
theorem resetMember_eq_iff {type : Bytes} (htype : type ∈ kvTypes) {m : Member}
    (hresolve : resolve env type = some m.type) (hplain : kvPlain m = true) :
    resetMember m = m ↔ isZero m = true := by
  have hvalue : resetMember m = m ↔ m.type.init = m.value := by
    constructor
    · intro h
      exact eq_of_heq (Member.mk.inj h).2.2
    · intro h
      rw [resetMember, h]
  obtain ⟨name, t, v⟩ := m
  simp only [kvTypes, List.mem_cons, List.not_mem_nil, or_false] at htype
  rw [hvalue]
  rcases htype with rfl | rfl | rfl | rfl | rfl <;>
    obtain rfl := Option.some.inj hresolve
  · constructor
    · intro h
      obtain rfl : ([] : Bytes) = v := h
      cases hplain
    · intro h
      cases h
  all_goals exact zero_eq_iff_toNat v

/-- What a reset of all members leaves as it is. -/
theorem map_resetMember_eq_iff {fields : List (Bytes × Bytes)} {members : List Member}
    (h : Declares env fields members) (htypes : ∀ f ∈ fields, f.1 ∈ kvTypes)
    (hplain : ∀ m ∈ members, kvPlain m = true) :
    members.map resetMember = members ↔ ∀ m ∈ members, isZero m = true := by
  induction fields generalizing members with
  | nil =>
      obtain rfl := h.nil
      simp
  | cons f fields ih =>
      obtain ⟨m, rest, rfl, hresolve, -, hrest⟩ := h.cons
      have hfirst := resetMember_eq_iff (htypes f List.mem_cons_self) hresolve
        (hplain m List.mem_cons_self)
      have hothers := ih hrest (fun g hg => htypes g (List.mem_cons_of_mem f hg))
        (fun x hx => hplain x (List.mem_cons_of_mem m hx))
      rw [List.map_cons, List.cons.injEq, List.forall_mem_cons, hfirst, hothers]

/-- A new body stays as it is, whatever the fields held. -/
theorem kvRestores_iff_reset {fields : List (Bytes × Bytes)}
    (hdistinct : (fields.map Prod.snd).Nodup) (body : Impl less env fields) :
    KvRestores less order json env fields body.members ↔
      body.members.map resetMember = body.members := by
  have hbody : Declares env fields body.members := body.declared
  have hfresh : Declares env fields (body.members.map resetMember) := by
    rw [Declares, List.map_map]
    exact hbody
  have hnames : (names body.members).Nodup := by
    rw [hbody.names_eq]
    exact hdistinct
  have hnames' : (names ([] ++ body.members.map resetMember)).Nodup := by
    rw [List.nil_append, hfresh.names_eq]
    exact hdistinct
  have hread := execAll_fromKv less order json hfresh [] hnames' (separators fields.length)
  have htwice : (body.members.map resetMember).map resetMember =
      body.members.map resetMember := by
    rw [List.map_map]
    rfl
  rw [List.nil_append, List.nil_append, htwice] at hread
  rw [KvRestores, toKv_eq less order json hbody hnames]
  simp only [fromKv, hread, true_and]

/-- **Generated key-value bodies** round trip if and only if they hold nothing but zeros: no
string, and no other number. -/
theorem fromKv_toKv_iff (fields : List (Bytes × Bytes))
    (hdistinct : (fields.map Prod.snd).Nodup) (htypes : ∀ f ∈ fields, f.1 ∈ kvTypes)
    (body : Impl less env fields) (hplain : ∀ m ∈ body.members, kvPlain m = true) :
    KvRestores less order json env fields body.members ↔
      ∀ m ∈ body.members, isZero m = true := by
  rw [kvRestores_iff_reset less order json hdistinct body]
  exact map_resetMember_eq_iff body.declared htypes hplain

/-- A zero comes back. -/
theorem fromKv_toKv_zero :
    KvRestores (stdLess fun _ _ _ => false) .little silentJson [] idField
      (idBody 0#64).members :=
  (fromKv_toKv_iff _ .little silentJson idField (by decide) (by decide) (idBody 0#64)
    (by
      intro m hm
      obtain rfl := List.mem_singleton.mp hm
      rfl)).mpr (by
    intro m hm
    obtain rfl := List.mem_singleton.mp hm
    rfl)

/-- The fields of `login/proto/login.virgo`. -/
def loginFields : List (Bytes × Bytes) :=
  [(textBytes "string", textBytes "username"), (textBytes "string", textBytes "password")]

/-- A login with a name and a password. -/
def loginBody : Impl (stdLess fun _ _ _ => false) [] loginFields where
  members :=
    [⟨textBytes "username", .string, textBytes "ada"⟩,
     ⟨textBytes "password", .string, textBytes "secret"⟩]
  declared := rfl
  ok := by
    intro m hm
    rcases List.mem_pair.mp hm with rfl | rfl <;> exact ⟨by decide, fun _ _ => trivial⟩

/-- Name and password are lost. -/
theorem not_kvRestores_login :
    (∀ m ∈ loginBody.members, kvPlain m = true) ∧
      ¬KvRestores (stdLess fun _ _ _ => false) .little silentJson [] loginFields
        loginBody.members := by
  refine ⟨?_, ?_⟩
  · intro m hm
    rcases List.mem_pair.mp hm with rfl | rfl <;> rfl
  · rw [kvRestores_iff_reset _ .little silentJson (by decide) loginBody]
    intro hreset
    have hfirst : ([] : Bytes) = textBytes "ada" :=
      eq_of_heq (Member.mk.inj (List.cons.inj hreset).1).2.2
    cases hfirst

end KvBodies

end Aquarius.Lazytool
