import Aquarius.Library.CharStream
import Aquarius.Library.Text
import Mathlib.Data.List.Nodup

/-!
# The Schema Parser

`schema::run` of the code generator (`lazytool/schema.h`, `lazytool/schema.cpp`,
`lazytool/field.cpp`), which reads the declarations of a `.virgo` file. There is no lexer:
`read_value` takes characters up to a terminator that each call chooses, passes over every
blank on the way, and answers a character outside its class with one boolean that is true for
the closing brace.

The rows and columns counted on the way only go into messages on the console, as do the types
remembered by `put_custom_type`, and the protocol is not read. The stream is a
`CharStream`. A file that cannot be opened is `none`.

## Main results

* `readValue_word`, `readValue_spaced`, `readValue_close`: where a word of each layout ends.
* `parseFields_lines`: a block of lines is read line by line up to its closing brace.
* `distinct_declarations`: in what the parser hands out, no two fields of a part have the same
  name.
* `run_prints`: **the declarations of a file are recovered**, in order and complete.
-/

open Decoding

namespace Aquarius.Lazytool

/-! ### Words -/

/-- `std::isalpha` -/
def isAlpha (b : UInt8) : Bool := (65 ≤ b && b ≤ 90) || (97 ≤ b && b ≤ 122)

/-- `std::isalnum` -/
def isAlnum (b : UInt8) : Bool := isAlpha b || isDigit b

/-- `schema_base::token` -/
inductive Token where
  | strict
  | standard
  | loose
  deriving DecidableEq, Repr

/-- The characters a token of the kind may contain. -/
def Token.admits : Token → UInt8 → Bool
  | strict, b => isAlpha b
  | standard, b => b == 95 || isAlnum b
  | loose, _ => true

/-- The loop of `read_value`. The terminators are printable, so the end of the file, which
`get` reports as the character `-1`, is none of them. -/
def readLoop (token : Token) (ends : UInt8) (value : Bytes) :
    Bytes → Except Bool Bytes × CharStream
  | [] => (.error false, .eof)
  | b :: rest =>
      if b = ends then (.ok value, .good rest)
      else if isSpace b then readLoop token ends value rest
      else if token.admits b then readLoop token ends (value ++ [b]) rest
      else (.error (b = 125), .good rest)

/-- `read_value<token, ends>` -/
def readValue (token : Token) (ends : UInt8) (s : CharStream) :
    Except Bool Bytes × CharStream :=
  match s.skipSpace with
  | .eof => (.error false, .eof)
  | .good rest => readLoop token ends [] rest

/-- The loop of `read_value` takes at least one character, or ends the stream. -/
theorem size_readLoop_le (token : Token) (ends : UInt8) (value rest : Bytes) :
    (readLoop token ends value rest).2.size ≤ rest.length := by
  induction rest generalizing value with
  | nil => exact le_refl _
  | cons b rest ih =>
      rw [readLoop]
      split
      · exact le_refl _
      · split
        · exact (ih value).trans (Nat.le_succ _)
        · split
          · exact (ih _).trans (Nat.le_succ _)
          · exact le_refl _

/-- Every word takes something off a stream that is not at its end. -/
theorem size_readValue_lt (token : Token) (ends : UInt8) {s : CharStream} (hs : s ≠ .eof) :
    (readValue token ends s).2.size < s.size := by
  have hskip := s.size_skipSpace_le
  have hpos : 0 < s.size := by
    cases s with
    | eof => exact absurd rfl hs
    | good rest => exact Nat.succ_pos _
  rw [readValue]
  split
  · exact hpos
  · rename_i rest hrest
    rw [hrest] at hskip
    exact Nat.lt_of_lt_of_le (Nat.lt_succ_of_le (size_readLoop_le token ends [] rest)) hskip

/-- A word at the end of the file fails, and the stream stays there. -/
@[simp] theorem readValue_eof (token : Token) (ends : UInt8) :
    readValue token ends .eof = (.error false, .eof) := rfl

/-- No word gives characters back. -/
theorem size_le_of_readValue {token : Token} {ends : UInt8} {s s' : CharStream}
    {r : Except Bool Bytes} (h : readValue token ends s = (r, s')) : s'.size ≤ s.size := by
  by_cases hs : s = .eof
  · rw [hs, readValue_eof] at h
    obtain ⟨-, rfl⟩ := Prod.mk.inj h
    exact Nat.zero_le _
  · have hlt := size_readValue_lt token ends hs
    rw [h] at hlt
    exact hlt.le

/-- A word that was read was taken off the stream. -/
theorem size_lt_of_readValue_ok {token : Token} {ends : UInt8} {s s' : CharStream} {v : Bytes}
    (h : readValue token ends s = (.ok v, s')) : s'.size < s.size := by
  have hs : s ≠ .eof := by
    rintro rfl
    rw [readValue_eof] at h
    cases h
  have hlt := size_readValue_lt token ends hs
  rwa [h] at hlt

/-! ### Fields -/

/-- `enum class struct_type` -/
inductive StructType where
  | «structure»
  | message
  | request
  | response
  | enumture
  deriving DecidableEq, Repr

/-- `field_base`: the pairs are type and name. -/
structure FieldBase where
  type : StructType
  name : Bytes
  fields : List (Bytes × Bytes)
  deriving DecidableEq, Repr

/-- `field_base::add_field`: a name that is already there is left as it is. -/
def FieldBase.addField (field : FieldBase) (type value : Bytes) : FieldBase :=
  if field.fields.any (·.2 = value) then field
  else { field with fields := field.fields ++ [(type, value)] }

/-- The type of a field in `parse_data_field`; the error is the value it returns. -/
def readType (s : CharStream) : Except Bool Bytes × CharStream :=
  match readValue .standard 32 s with
  | (.error e, s) => (.error e, s)
  | (.ok type, s) =>
      if type = textBytes "repeated" then
        match readValue .standard 32 s with
        | (.error _, s) => (.error false, s)
        | (.ok t, s) => (.ok (textBytes "std::vector<" ++ t ++ textBytes ">"), s)
      else if type = textBytes "map" then
        match readValue .standard 44 s with
        | (.error _, s) => (.error false, s)
        | (.ok key, s) =>
            match readValue .strict 32 s with
            | (.error _, s) => (.error false, s)
            | (.ok value, s) =>
                (.ok (textBytes "std::map<" ++ key ++ textBytes ", " ++ value ++ textBytes ">"), s)
      else (.ok type, s)

/-- One turn of the loop of `parse_data_field`, up to `add_field`. -/
def readEntry (hasKey : Bool) (s : CharStream) : Except Bool (Bytes × Bytes) × CharStream :=
  match if hasKey then readType s else (.ok [], s) with
  | (.error e, s) => (.error e, s)
  | (.ok type, s) =>
      match readValue .standard 59 s with
      | (.error e, s) => (.error e, s)
      | (.ok value, s) => (.ok (type, value), s)

/-- The type of a field gives no characters back. -/
theorem size_le_of_readType {s s' : CharStream} {r : Except Bool Bytes}
    (h : readType s = (r, s')) : s'.size ≤ s.size := by
  have hsize : (readType s).2.size ≤ s.size := by
    fun_cases readType s <;> grind [→ size_le_of_readValue]
  rwa [h] at hsize

/-- An entry gives no characters back. -/
theorem size_le_of_readEntry {hasKey : Bool} {s s' : CharStream}
    {r : Except Bool (Bytes × Bytes)} (h : readEntry hasKey s = (r, s')) :
    s'.size ≤ s.size := by
  have hsize : (readEntry hasKey s).2.size ≤ s.size := by
    fun_cases readEntry hasKey s <;> grind [→ size_le_of_readValue, → size_le_of_readType]
  rwa [h] at hsize

/-- An entry that was read was taken off the stream. -/
theorem size_lt_of_readEntry_ok {hasKey : Bool} {s s' : CharStream} {p : Bytes × Bytes}
    (h : readEntry hasKey s = (.ok p, s')) : s'.size < s.size := by
  revert h
  fun_cases readEntry hasKey s <;>
    grind [→ size_lt_of_readValue_ok, → size_le_of_readType]

/-- The loop of `parse_data_field`: what it returns, and the field it has filled. -/
def parseFields (hasKey : Bool) (field : FieldBase) (s : CharStream) :
    Bool × FieldBase × CharStream :=
  if s = .eof then (true, field, s)
  else
    match _h : readEntry hasKey s with
    | (.error e, s') => (e, field, s')
    | (.ok (type, value), s') => parseFields hasKey (field.addField type value) s'
termination_by s.size
decreasing_by exact size_lt_of_readEntry_ok _h

/-- The loop gives no characters back. -/
theorem size_parseFields_le (hasKey : Bool) (field : FieldBase) (s : CharStream) :
    (parseFields hasKey field s).2.2.size ≤ s.size := by
  fun_induction parseFields hasKey field s with
  | case1 => exact le_refl _
  | case2 field s hs e s' h => exact size_le_of_readEntry h
  | case3 field s hs type value s' h ih => exact ih.trans (size_le_of_readEntry h)

/-- `parse_data_field` -/
def parseDataField (field : FieldBase) (anonymous hasKey : Bool) (s : CharStream) :
    Bool × FieldBase × CharStream :=
  if anonymous then parseFields hasKey field s
  else
    match readValue .standard 123 s with
    | (.error _, s) => (false, field, s)
    | (.ok name, s) => parseFields hasKey { field with name := name } s

/-- A block gives no characters back. -/
theorem size_le_of_parseDataField {field field' : FieldBase} {anonymous hasKey r : Bool}
    {s s' : CharStream} (h : parseDataField field anonymous hasKey s = (r, field', s')) :
    s'.size ≤ s.size := by
  have hsize : (parseDataField field anonymous hasKey s).2.2.size ≤ s.size := by
    fun_cases parseDataField field anonymous hasKey s with
    | case1 => exact size_parseFields_le hasKey field s
    | case2 _ e s₁ hname => exact size_le_of_readValue hname
    | case3 _ name s₁ hname =>
        exact (size_parseFields_le hasKey _ s₁).trans (size_le_of_readValue hname)
  rwa [h] at hsize

/-! ### Messages -/

/-- `message_field`, with its two parts -/
structure MessageField where
  name : Bytes
  router : Bytes
  request : FieldBase
  response : FieldBase
  deriving DecidableEq, Repr

/-- `set_protocol_name`: the empty bodies of a message -/
def bodyField (type : StructType) (name : Bytes) : FieldBase :=
  { type := type
    name := name ++ textBytes (if type = .request then "_req_body" else "_resp_body")
    fields := [] }

/-- `parse_router` -/
def parseRouter (s : CharStream) : Option Bytes × CharStream :=
  match readValue .standard 62 s with
  | (.error _, s) => (none, s)
  | (.ok _, s) =>
      match readValue .loose 123 s with
      | (.error _, s) => (none, s)
      | (.ok router, s) => (some router, s)

/-- `read_protocol` into one part of the message -/
def readProtocol (field : FieldBase) (s : CharStream) : Option FieldBase × CharStream :=
  match readValue .strict 123 s with
  | (.error _, s) => (none, s)
  | (.ok value, s) =>
      if value ≠ textBytes "request" ∧ value ≠ textBytes "response" then (none, s)
      else
        match parseDataField field true true s with
        | (false, _, s) => (none, s)
        | (true, field, s) => (some field, s)

/-- `parse_message_field`: `none` when it returns false. -/
def parseMessageField (s : CharStream) : Option MessageField × CharStream :=
  match readValue .standard 45 s with
  | (.error _, s) => (none, s)
  | (.ok name, s) =>
      match parseRouter s with
      | (none, s) => (none, s)
      | (some router, s) =>
          match readProtocol (bodyField .request name) s with
          | (none, s) => (none, s)
          | (some request, s) =>
              match readProtocol (bodyField .response name) s with
              | (none, s) => (none, s)
              | (some response, s) =>
                  (some { name := name, router := router, request := request,
                          response := response }, s)

/-! ### Declarations -/

/-- What `run` returns a list of: a pointer to a `field_base`, which is a `message_field` for
a message. -/
inductive SchemaField where
  | field (f : FieldBase)
  | message (m : MessageField)
  deriving DecidableEq, Repr

/-- A structure or an enumeration, whose parser throws when it returns false. -/
def parseBlock (type : StructType) (hasKey : Bool) (s : CharStream) :
    Option SchemaField × CharStream :=
  match parseDataField { type := type, name := [], fields := [] } false hasKey s with
  | (false, _, s) => (none, s)
  | (true, field, s) => (some (.field field), s)

/-- `invoke` and the function it finds: `none` when one of the two throws. -/
def invoke (keyword : Bytes) (s : CharStream) : Option SchemaField × CharStream :=
  if keyword = textBytes "message" then
    ((parseMessageField s).1.map .message, (parseMessageField s).2)
  else if keyword = textBytes "struct" then parseBlock .structure true s
  else if keyword = textBytes "enum" then parseBlock .enumture false s
  else (none, s)

/-- A router gives no characters back. -/
theorem size_le_of_parseRouter {s s' : CharStream} {r : Option Bytes}
    (h : parseRouter s = (r, s')) : s'.size ≤ s.size := by
  have hsize : (parseRouter s).2.size ≤ s.size := by
    fun_cases parseRouter s <;> grind [→ size_le_of_readValue]
  rwa [h] at hsize

/-- A part of a message gives no characters back. -/
theorem size_le_of_readProtocol {field : FieldBase} {s s' : CharStream} {r : Option FieldBase}
    (h : readProtocol field s = (r, s')) : s'.size ≤ s.size := by
  have hsize : (readProtocol field s).2.size ≤ s.size := by
    fun_cases readProtocol field s <;>
      grind [→ size_le_of_readValue, → size_le_of_parseDataField]
  rwa [h] at hsize

/-- A message gives no characters back. -/
theorem size_parseMessageField_le (s : CharStream) :
    (parseMessageField s).2.size ≤ s.size := by
  fun_cases parseMessageField s <;>
    grind [→ size_le_of_readValue, → size_le_of_parseRouter, → size_le_of_readProtocol]

/-- A structure or an enumeration gives no characters back. -/
theorem size_parseBlock_le (type : StructType) (hasKey : Bool) (s : CharStream) :
    (parseBlock type hasKey s).2.size ≤ s.size := by
  fun_cases parseBlock type hasKey s <;> grind [→ size_le_of_parseDataField]

/-- A declaration gives no characters back. -/
theorem size_le_of_invoke {keyword : Bytes} {s s' : CharStream} {r : Option SchemaField}
    (h : invoke keyword s = (r, s')) : s'.size ≤ s.size := by
  have hsize : (invoke keyword s).2.size ≤ s.size := by
    fun_cases invoke keyword s with
    | case1 => exact size_parseMessageField_le s
    | case2 => exact size_parseBlock_le .structure true s
    | case3 => exact size_parseBlock_le .enumture false s
    | case4 => exact le_refl _
  rwa [h] at hsize

/-- The loop of `run` with the declarations `fields_` so far: what it returns, and `fields_`
after it. A declaration that throws ends the run with an empty list, but does not take back
what was pushed before. -/
def runLoop (fields : List SchemaField) (s : CharStream) :
    List SchemaField × List SchemaField :=
  if _hs : s = .eof then (fields, fields)
  else
    match _hread : readValue .strict 32 s with
    | (.error _, s') => runLoop fields s'
    | (.ok keyword, s') =>
        match _hinvoke : invoke keyword s' with
        | (none, _) => ([], fields)
        | (some f, s'') => runLoop (fields ++ [f]) s''
termination_by s.size
decreasing_by
  · have hlt := size_readValue_lt .strict 32 _hs
    rwa [_hread] at hlt
  · exact (size_le_of_invoke _hinvoke).trans_lt (size_lt_of_readValue_ok _hread)

/-- The loop ends with the file. -/
@[simp] theorem runLoop_eof (fields : List SchemaField) :
    runLoop fields .eof = (fields, fields) := by
  rw [runLoop, dif_pos rfl]

/-- A turn that finds no keyword. -/
theorem runLoop_skip {fields : List SchemaField} {rest : Bytes} {e : Bool} {s : CharStream}
    (hread : readValue .strict 32 (.good rest) = (.error e, s)) :
    runLoop fields (.good rest) = runLoop fields s := by
  rw [runLoop, dif_neg (by simp), hread]

/-- A turn that reads a declaration. -/
theorem runLoop_declared {fields : List SchemaField} {rest keyword : Bytes}
    {s s' : CharStream} {f : SchemaField}
    (hread : readValue .strict 32 (.good rest) = (.ok keyword, s))
    (hinvoke : invoke keyword s = (some f, s')) :
    runLoop fields (.good rest) = runLoop (fields ++ [f]) s' := by
  rw [runLoop, dif_neg (by simp), hread]
  show (match _hinvoke : invoke keyword s with
    | (none, _) => ([], fields)
    | (some f, s'') => runLoop (fields ++ [f]) s'') = _
  rw [hinvoke]

/-- `schema`: the declarations it has read, over all files -/
structure Schema where
  fields : List SchemaField := []
  deriving DecidableEq, Repr

/-- `schema::run` on the text of a file, `none` when it cannot be opened -/
def Schema.run (schema : Schema) : Option Bytes → List SchemaField × Schema
  | none => ([], schema)
  | some text =>
      ((runLoop schema.fields (.good text)).1,
        { fields := (runLoop schema.fields (.good text)).2 })

/-- What a stream declares, whatever was declared before: the declarations up to the first
that throws, and whether there is one. -/
def declarations (s : CharStream) : List SchemaField × Bool :=
  if _hs : s = .eof then ([], false)
  else
    match _hread : readValue .strict 32 s with
    | (.error _, s') => declarations s'
    | (.ok keyword, s') =>
        match _hinvoke : invoke keyword s' with
        | (none, _) => ([], true)
        | (some f, s'') => (f :: (declarations s'').1, (declarations s'').2)
termination_by s.size
decreasing_by
  · have hlt := size_readValue_lt .strict 32 _hs
    rwa [_hread] at hlt
  · exact (size_le_of_invoke _hinvoke).trans_lt (size_lt_of_readValue_ok _hread)

/-- A turn that reads a keyword: the parser it selects reads a declaration or throws. -/
theorem declarations_of_keyword {s s' : CharStream} (hs : s ≠ .eof) {keyword : Bytes}
    (hread : readValue .strict 32 s = (.ok keyword, s')) :
    declarations s =
      match invoke keyword s' with
      | (none, _) => ([], true)
      | (some f, s'') => (f :: (declarations s'').1, (declarations s'').2) := by
  rw [declarations, dif_neg hs, hread]
  show (match _hinvoke : invoke keyword s' with
    | (none, _) => ([], true)
    | (some f, s'') => (f :: (declarations s'').1, (declarations s'').2)) = _
  split <;> rename_i heq <;> rw [heq]

/-- **What a run adds** does not depend on what the parser has read before: the declarations of
the text come behind those of earlier files, and an exception hides both. -/
theorem runLoop_eq_declarations (fields : List SchemaField) (s : CharStream) :
    runLoop fields s =
      (if (declarations s).2 then [] else fields ++ (declarations s).1,
        fields ++ (declarations s).1) := by
  fun_induction runLoop fields s with
  | case1 fields =>
      rw [declarations, dif_pos rfl]
      simp
  | case2 fields s hs e s' hread ih =>
      rw [declarations, dif_neg hs, hread]
      exact ih
  | case3 fields s hs keyword s' hread s'' hinvoke =>
      rw [declarations_of_keyword hs hread, hinvoke]
      simp
  | case4 fields s hs keyword s' hread f s'' hinvoke ih =>
      rw [ih, declarations_of_keyword hs hread, hinvoke]
      simp

/-! ### Names are distinct -/

/-- No two fields have the same name. -/
def FieldBase.Distinct (field : FieldBase) : Prop := (field.fields.map Prod.snd).Nodup

/-- In every part of a declaration no two fields have the same name. -/
def SchemaField.Distinct : SchemaField → Prop
  | field f => f.Distinct
  | message m => m.request.Distinct ∧ m.response.Distinct

/-- A name that is there is not added again. -/
theorem distinct_addField {field : FieldBase} (h : field.Distinct) (type value : Bytes) :
    (field.addField type value).Distinct := by
  rw [FieldBase.addField]
  split
  · exact h
  · rename_i hnew
    rw [FieldBase.Distinct, List.map_append, List.map_singleton]
    refine List.nodup_append.mpr ⟨h, List.nodup_singleton _, ?_⟩
    rintro a ha b hb rfl
    obtain ⟨f, hf, rfl⟩ := List.mem_map.mp ha
    have hany : field.fields.any (·.2 = value) = true :=
      List.any_eq_true.mpr ⟨f, hf, decide_eq_true (List.mem_singleton.mp hb)⟩
    exact hnew hany

/-- The loop over the fields keeps the names distinct. -/
theorem distinct_parseFields {hasKey : Bool} {field : FieldBase} {s : CharStream}
    (h : field.Distinct) : (parseFields hasKey field s).2.1.Distinct := by
  fun_induction parseFields hasKey field s with
  | case1 => exact h
  | case2 => exact h
  | case3 field s hs type value s' hread ih => exact ih (distinct_addField h type value)

/-- A block of a field without fields. -/
theorem distinct_parseDataField {field field' : FieldBase} {anonymous hasKey r : Bool}
    {s s' : CharStream} (h : parseDataField field anonymous hasKey s = (r, field', s'))
    (hempty : field.fields = []) : field'.Distinct := by
  have hfield : ∀ name, FieldBase.Distinct { field with name := name } := fun name => by
    rw [FieldBase.Distinct, hempty]
    exact List.nodup_nil
  have hparsed : (parseDataField field anonymous hasKey s).2.1.Distinct := by
    fun_cases parseDataField field anonymous hasKey s with
    | case1 => exact distinct_parseFields (hfield field.name)
    | case2 => exact hfield field.name
    | case3 _ name => exact distinct_parseFields (hfield name)
  rwa [h] at hparsed

/-- A part of a message. -/
theorem distinct_readProtocol {field field' : FieldBase} {s s' : CharStream}
    (h : readProtocol field s = (some field', s')) (hempty : field.fields = []) :
    field'.Distinct := by
  revert h
  fun_cases readProtocol field s with
  | case1 => exact fun h => by cases h
  | case2 => exact fun h => by cases h
  | case3 => exact fun h => by cases h
  | case4 value s₁ hvalue hpart field₁ s₂ hparse =>
      intro h
      obtain rfl := Option.some.inj (Prod.mk.inj h).1
      exact distinct_parseDataField hparse hempty

/-- A message. -/
theorem distinct_parseMessageField {m : MessageField} {s s' : CharStream}
    (h : parseMessageField s = (some m, s')) : m.request.Distinct ∧ m.response.Distinct := by
  revert h
  fun_cases parseMessageField s with
  | case5 name s₁ hname router s₂ hrouter request s₃ hrequest response s₄ hresponse =>
      intro h
      obtain rfl := Option.some.inj (Prod.mk.inj h).1
      exact ⟨distinct_readProtocol hrequest rfl, distinct_readProtocol hresponse rfl⟩
  | _ => exact fun h => by cases h

/-- A structure or an enumeration. -/
theorem distinct_parseBlock {type : StructType} {hasKey : Bool} {s s' : CharStream}
    {f : SchemaField} (h : parseBlock type hasKey s = (some f, s')) : f.Distinct := by
  revert h
  fun_cases parseBlock type hasKey s with
  | case1 => exact fun h => by cases h
  | case2 field s₁ hparse =>
      intro h
      obtain rfl := Option.some.inj (Prod.mk.inj h).1
      exact distinct_parseDataField hparse rfl

/-- A declaration that was read. -/
theorem distinct_invoke {keyword : Bytes} {s s' : CharStream} {f : SchemaField}
    (h : invoke keyword s = (some f, s')) : f.Distinct := by
  revert h
  fun_cases invoke keyword s with
  | case1 =>
      intro h
      obtain ⟨hmessage, -⟩ := Prod.mk.inj h
      obtain ⟨m, hm, rfl⟩ := Option.map_eq_some_iff.mp hmessage
      exact distinct_parseMessageField (Prod.ext hm rfl)
  | case2 => exact distinct_parseBlock
  | case3 => exact distinct_parseBlock
  | case4 => exact fun h => by cases h

/-- **The names the parser hands out are distinct**, in every part of every declaration. -/
theorem distinct_declarations (s : CharStream) : ∀ f ∈ (declarations s).1, f.Distinct := by
  fun_induction declarations s with
  | case1 => exact fun f hf => absurd hf List.not_mem_nil
  | case2 s hs e s' hread ih => exact ih
  | case3 => exact fun f hf => absurd hf List.not_mem_nil
  | case4 s hs keyword s' hread g s'' hinvoke ih =>
      intro f hf
      rcases List.mem_cons.mp hf with rfl | hf
      · exact distinct_invoke hinvoke
      · exact ih f hf

/-! ### Where words end -/

/-- Text that `read_value` takes as it is: no blank, no terminator, and in the class. -/
def Word (token : Token) (ends : UInt8) (word : Bytes) : Prop :=
  ∀ b ∈ word, b ≠ ends ∧ isSpace b = false ∧ token.admits b = true

/-- The loop takes a word. -/
theorem readLoop_word {token : Token} {ends : UInt8} {word : Bytes}
    (hword : Word token ends word) (value s : Bytes) :
    readLoop token ends value (word ++ s) = readLoop token ends (value ++ word) s := by
  induction word generalizing value with
  | nil => rw [List.nil_append, List.append_nil]
  | cons b word ih =>
      obtain ⟨hne, hspace, hadm⟩ := hword b List.mem_cons_self
      rw [List.cons_append, readLoop, if_neg hne, if_neg (ne_true_of_eq_false hspace),
        if_pos hadm, ih (fun c hc => hword c (List.mem_cons_of_mem b hc)), List.append_assoc,
        List.singleton_append]

/-- The loop passes over blanks that are not its terminator. -/
theorem readLoop_blank {token : Token} {ends : UInt8} (hends : isSpace ends = false)
    {w : Bytes} (hw : Blank w) (value s : Bytes) :
    readLoop token ends value (w ++ s) = readLoop token ends value s := by
  induction w with
  | nil => rw [List.nil_append]
  | cons b w ih =>
      obtain ⟨hb, hw⟩ := blank_cons hw
      have hne : b ≠ ends := by
        rintro rfl
        rw [hends] at hb
        cases hb
      rw [List.cons_append, readLoop, if_neg hne, if_pos hb]
      exact ih hw

/-- The loop ends at its terminator. -/
theorem readLoop_ends (token : Token) (ends : UInt8) (value s : Bytes) :
    readLoop token ends value (ends :: s) = (.ok value, .good s) := by
  rw [readLoop, if_pos rfl]

/-- Skipping blanks in front of a word, where there is one. -/
theorem readValue_of_word {token : Token} {ends : UInt8} {w word : Bytes} (hw : Blank w)
    (hword : Word token ends word) (hne : word ≠ []) (s : Bytes) :
    readValue token ends (.good (w ++ (word ++ s))) = readLoop token ends word s := by
  cases word with
  | nil => exact absurd rfl hne
  | cons b word =>
      have hb := (hword b List.mem_cons_self).2.1
      rw [readValue, List.cons_append, CharStream.skipSpace_blank hw hb]
      exact readLoop_word hword [] s

/-- **A word in front of a punctuation mark**: blanks on both sides are passed over. -/
theorem readValue_word {token : Token} {ends : UInt8} (hends : isSpace ends = false)
    {w word w' : Bytes} (hw : Blank w) (hword : Word token ends word) (hw' : Blank w')
    (s : Bytes) :
    readValue token ends (.good (w ++ (word ++ (w' ++ ends :: s)))) = (.ok word, .good s) := by
  by_cases hne : word = []
  · have hblank : Blank (w ++ w') := by
      intro b hb
      exact (List.mem_append.mp hb).elim (hw b) (hw' b)
    rw [hne, List.nil_append, ← List.append_assoc, readValue,
      CharStream.skipSpace_blank hblank hends]
    exact readLoop_ends token ends [] s
  · rw [readValue_of_word hw hword hne, readLoop_blank hends hw', readLoop_ends]

/-- **A word in front of a space**, which has to follow at once. -/
theorem readValue_spaced {token : Token} {w word : Bytes} (hw : Blank w)
    (hword : Word token 32 word) (hne : word ≠ []) (s : Bytes) :
    readValue token 32 (.good (w ++ (word ++ 32 :: s))) = (.ok word, .good s) := by
  rw [readValue_of_word hw hword hne, readLoop_ends]

/-- **A closing brace** where a word should start. -/
theorem readValue_close (token : Token) (htoken : token.admits 125 = false) (ends : UInt8)
    (hends : ends ≠ 125) {w : Bytes} (hw : Blank w) (s : Bytes) :
    readValue token ends (.good (w ++ 125 :: s)) = (.error true, .good s) := by
  rw [readValue, CharStream.skipSpace_blank hw (by decide)]
  show readLoop token ends [] (125 :: s) = _
  rw [readLoop, if_neg (Ne.symm hends), if_neg (by decide),
    if_neg (ne_true_of_eq_false htoken)]
  simp

/-! ### Schemas and their layout -/

/-- A letter or an underscore, then letters, digits and underscores. -/
def isIdentifier : Bytes → Bool
  | [] => false
  | b :: rest => (b == 95 || isAlpha b) && rest.all fun c => c == 95 || isAlnum c

/-- The name of a declaration, a field or a type. -/
structure Identifier where
  text : Bytes
  isIdentifier : isIdentifier text = true
  deriving DecidableEq

/-- The type of a declared field: a scalar or a user-defined type, which is any identifier but
the two keywords, or a repeated one. -/
inductive FieldType where
  | named (type : Identifier)
      (keyword : type.text ≠ textBytes "repeated" ∧ type.text ≠ textBytes "map")
  | repeated (type : Identifier)

/-- How a type is written in a schema. -/
def FieldType.text : FieldType → Bytes
  | named type _ => type.text
  | repeated type => textBytes "repeated" ++ 32 :: type.text

/-- The type it stands for. -/
def FieldType.cpp : FieldType → Bytes
  | named type _ => type.text
  | repeated type => textBytes "std::vector<" ++ type.text ++ textBytes ">"

/-- A line of a block: its text, and the type and name it declares. -/
structure Entry where
  line : Bytes
  declared : Bytes × Bytes

/-- `type name;` -/
def FieldType.entry (type : FieldType) (name : Identifier) : Entry :=
  { line := type.text ++ 32 :: (name.text ++ [59]), declared := (type.cpp, name.text) }

/-- `name;` -/
def Identifier.entry (name : Identifier) : Entry :=
  { line := name.text ++ [59], declared := ([], name.text) }

/-- The fields of a block, with names of their own. -/
structure Fields where
  fields : List (FieldType × Identifier)
  distinct : (fields.map fun f => f.2.text).Nodup

/-- The lines of the fields. -/
def Fields.entries (f : Fields) : List Entry := f.fields.map fun f => f.1.entry f.2

/-- The router of a message. -/
structure Router where
  text : Bytes
  plain : ∀ b ∈ text, isSpace b = false ∧ b ≠ 123

/-- A declaration of a schema. -/
inductive Declaration where
  | enumeration (name : Identifier) (enumerators : List Identifier)
      (distinct : (enumerators.map (·.text)).Nodup)
  | struct (name : Identifier) (fields : Fields)
  | message (name : Identifier) (router : Router) (request response : Fields)

/-- What the parser should make of a declaration. -/
def Declaration.parsed : Declaration → SchemaField
  | enumeration name enumerators _ =>
      .field { type := .enumture, name := name.text
               fields := enumerators.map fun e => e.entry.declared }
  | struct name fields =>
      .field { type := .structure, name := name.text
               fields := fields.entries.map (·.declared) }
  | message name router request response =>
      .message
        { name := name.text
          router := router.text
          request := { type := .request, name := name.text ++ textBytes "_req_body"
                       fields := request.entries.map (·.declared) }
          response := { type := .response, name := name.text ++ textBytes "_resp_body"
                        fields := response.entries.map (·.declared) } }

/-- Lines between two braces, with any blanks around them. -/
inductive Lines : List Entry → Bytes → Prop
  | nil {w : Bytes} (hw : Blank w) : Lines [] w
  | cons {e : Entry} {es : List Entry} {w text : Bytes} (hw : Blank w) (h : Lines es text) :
      Lines (e :: es) (w ++ (e.line ++ text))

/-- The word a declaration starts with. -/
def Declaration.keyword : Declaration → Bytes
  | enumeration _ _ _ => textBytes "enum"
  | struct _ _ => textBytes "struct"
  | message _ _ _ _ => textBytes "message"

/-- The text behind the keyword of a declaration and its space: the name, the router of a
message, and the blocks. Blanks in front of a brace, a line or a part of a message are free. -/
inductive Declaration.Layout : Declaration → Bytes → Prop
  | enumeration {name : Identifier} {enumerators : List Identifier}
      {distinct : (enumerators.map (·.text)).Nodup} {w body : Bytes} (hw : Blank w)
      (hbody : Lines (enumerators.map Identifier.entry) body) :
      Layout (.enumeration name enumerators distinct)
        (name.text ++ (w ++ 123 :: (body ++ [125])))
  | struct {name : Identifier} {fields : Fields} {w body : Bytes} (hw : Blank w)
      (hbody : Lines fields.entries body) :
      Layout (.struct name fields)
        (name.text ++ (w ++ 123 :: (body ++ [125])))
  | message {name : Identifier} {router : Router} {request response : Fields}
      {w w₁ w₁' w₂ w₂' w₃ body₁ body₂ : Bytes} (hw : Blank w)
      (hw₁ : Blank w₁) (hw₁' : Blank w₁') (hbody₁ : Lines request.entries body₁)
      (hw₂ : Blank w₂) (hw₂' : Blank w₂') (hbody₂ : Lines response.entries body₂)
      (hw₃ : Blank w₃) :
      Layout (.message name router request response)
        (name.text ++ (textBytes " -> " ++ (router.text ++ (w ++ 123 ::
            (w₁ ++ (textBytes "request" ++ (w₁' ++ 123 :: (body₁ ++ 125 ::
            (w₂ ++ (textBytes "response" ++ (w₂' ++ 123 :: (body₂ ++ 125 ::
            (w₃ ++ [125])))))))))))))

/-- The text of a file: its declarations, with any blanks around them. -/
inductive Prints : List Declaration → Bytes → Prop
  | nil {w : Bytes} (hw : Blank w) : Prints [] w
  | cons {d : Declaration} {ds : List Declaration} {w block text : Bytes} (hw : Blank w)
      (hblock : d.Layout block) (h : Prints ds text) :
      Prints (d :: ds) (w ++ (d.keyword ++ 32 :: (block ++ text)))

/-! ### Reading the layout -/

/-- A character of an identifier is not blank. -/
theorem isSpace_of_admits {b : UInt8} (hb : Token.standard.admits b = true) :
    isSpace b = false := by
  simp only [Token.admits, isAlnum, isAlpha, isDigit, isSpace, Bool.or_eq_true, Bool.and_eq_true,
    beq_iff_eq, decide_eq_true_eq, Bool.or_eq_false_iff, beq_eq_false_iff_ne,
    Bool.and_eq_false_iff, decide_eq_false_iff_not, UInt8.le_iff_toNat_le,
    ← UInt8.toNat_inj, ne_eq, UInt8.reduceToNat] at hb ⊢
  omega

/-- An identifier is a word for every terminator that is none of its characters. -/
theorem Identifier.word (name : Identifier) (ends : UInt8)
    (hends : Token.standard.admits ends = false) : Word .standard ends name.text := by
  obtain ⟨text, htext⟩ := name
  cases text with
  | nil => cases htext
  | cons b rest =>
      have hadm : ∀ c ∈ b :: rest, Token.standard.admits c = true := by
        simp only [Lazytool.isIdentifier, Bool.and_eq_true, Bool.or_eq_true, List.all_eq_true]
          at htext
        intro c hc
        simp only [Token.admits, isAlnum, Bool.or_eq_true]
        rcases List.mem_cons.mp hc with rfl | hc
        · rcases htext.1 with h | h
          · exact Or.inl h
          · exact Or.inr (Or.inl h)
        · exact Or.imp_right (fun h => by simpa [isAlnum] using h) (htext.2 c hc)
      intro c hc
      refine ⟨?_, isSpace_of_admits (hadm c hc), hadm c hc⟩
      rintro rfl
      rw [hadm c hc] at hends
      cases hends

/-- An identifier is not empty. -/
theorem Identifier.ne_nil (name : Identifier) : name.text ≠ [] := by
  intro h
  have hid := name.isIdentifier
  rw [h] at hid
  cases hid

/-- A keyword is a word. -/
theorem word_of_all {token : Token} {ends : UInt8} {word : Bytes}
    (h : (word.all fun b => b != ends && !isSpace b && token.admits b) = true) :
    Word token ends word := by
  intro b hb
  have hb := List.all_eq_true.mp h b hb
  simp only [Bool.and_eq_true, bne_iff_ne, ne_eq, Bool.not_eq_true'] at hb
  exact ⟨hb.1.1, hb.1.2, hb.2⟩

/-- The type of a line. -/
theorem readType_text (type : FieldType) {w : Bytes} (hw : Blank w) (s : Bytes) :
    readType (.good (w ++ (type.text ++ 32 :: s))) = (.ok type.cpp, .good s) := by
  rw [readType]
  cases type with
  | named type keyword =>
      rw [FieldType.text, readValue_spaced hw (type.word 32 (by decide)) type.ne_nil]
      simp only [if_neg keyword.1, if_neg keyword.2, FieldType.cpp]
  | repeated type =>
      have hrep : Word .standard 32 (textBytes "repeated") := word_of_all (by decide)
      have hread := readValue_spaced blank_nil
        (type.word 32 (by decide)) type.ne_nil s
      rw [List.nil_append] at hread
      rw [FieldType.text, List.append_assoc, List.cons_append,
        readValue_spaced hw hrep (by decide)]
      simp only [↓reduceIte, hread, FieldType.cpp]

/-- The name of a line. -/
theorem readValue_name (name : Identifier) {w : Bytes} (hw : Blank w) (s : Bytes) :
    readValue .standard 59 (.good (w ++ (name.text ++ 59 :: s))) = (.ok name.text, .good s) :=
  readValue_word (by decide) hw (name.word 59 (by decide)) blank_nil s

/-- What a line is read as. -/
def Entry.ReadAs (e : Entry) (hasKey : Bool) : Prop :=
  ∀ w, Blank w → ∀ s, readEntry hasKey (.good (w ++ (e.line ++ s))) = (.ok e.declared, .good s)

/-- A field is read as it is declared. -/
theorem readAs_field (type : FieldType) (name : Identifier) :
    (type.entry name).ReadAs true := by
  intro w hw s
  have hname := readValue_name name blank_nil s
  rw [List.nil_append] at hname
  simp only [readEntry, FieldType.entry, List.append_assoc, List.cons_append, List.nil_append,
    ↓reduceIte, readType_text type hw, hname]

/-- An enumerator is read as it is declared. -/
theorem readAs_enumerator (name : Identifier) : name.entry.ReadAs false := by
  intro w hw s
  simp only [readEntry, Identifier.entry, List.append_assoc, List.cons_append, List.nil_append,
    Bool.false_eq_true, ↓reduceIte, readValue_name name hw]

/-- The closing brace of a block ends the entries. -/
theorem readEntry_close (hasKey : Bool) {w : Bytes} (hw : Blank w) (s : Bytes) :
    readEntry hasKey (.good (w ++ 125 :: s)) = (.error true, .good s) := by
  cases hasKey with
  | true =>
      simp only [readEntry, ↓reduceIte, readType,
        readValue_close .standard rfl 32 (by decide) hw]
  | false =>
      simp only [readEntry, Bool.false_eq_true, ↓reduceIte,
        readValue_close .standard rfl 59 (by decide) hw]

/-- A name that is new is added. -/
theorem addField_of_notMem {field : FieldBase} {type value : Bytes}
    (h : value ∉ field.fields.map Prod.snd) :
    field.addField type value = { field with fields := field.fields ++ [(type, value)] } := by
  rw [FieldBase.addField, if_neg]
  intro hany
  obtain ⟨p, hp, heq⟩ := List.any_eq_true.mp hany
  exact h (List.mem_map.mpr ⟨p, hp, of_decide_eq_true heq⟩)

/-- **A block of lines** is read line by line, up to its closing brace. -/
theorem parseFields_lines {hasKey : Bool} {entries : List Entry} {body : Bytes}
    (hlines : Lines entries body) (hread : ∀ e ∈ entries, e.ReadAs hasKey) (field : FieldBase)
    (hnames : (field.fields.map Prod.snd ++ entries.map fun e => e.declared.2).Nodup)
    (s : Bytes) :
    parseFields hasKey field (.good (body ++ 125 :: s)) =
      (true, { field with fields := field.fields ++ entries.map (·.declared) }, .good s) := by
  induction hlines generalizing field with
  | nil hw =>
      rw [parseFields, if_neg (by simp), readEntry_close hasKey hw]
      simp
  | @cons e es w text hw _ ih =>
      have hentry := hread e List.mem_cons_self w hw (text ++ 125 :: s)
      have hnew : e.declared.2 ∉ field.fields.map Prod.snd := by
        intro hmem
        exact (List.nodup_append.mp hnames).2.2 _ hmem _ List.mem_cons_self rfl
      rw [parseFields, if_neg (by simp), List.append_assoc, List.append_assoc, hentry]
      show parseFields hasKey (field.addField e.declared.1 e.declared.2) _ = _
      rw [addField_of_notMem hnew, ih (fun e' he' => hread e' (List.mem_cons_of_mem e he'))]
      · simp
      · simpa using hnames

/-- The fields of a declaration fill an empty block. -/
theorem parseFields_fields (fields : Fields) {body : Bytes} (hbody : Lines fields.entries body)
    {field : FieldBase} (hempty : field.fields = []) (s : Bytes) :
    parseFields true field (.good (body ++ 125 :: s)) =
      (true, { field with fields := fields.entries.map (·.declared) }, .good s) := by
  have hnames : fields.entries.map (fun e => e.declared.2) =
      fields.fields.map fun f => f.2.text := by
    rw [Fields.entries, List.map_map]
    rfl
  rw [parseFields_lines hbody, hempty, List.nil_append]
  · intro e he
    obtain ⟨f, -, rfl⟩ := List.mem_map.mp he
    exact readAs_field f.1 f.2
  · rw [hempty, hnames]
    exact fields.distinct

/-- The enumerators of a declaration fill an empty block. -/
theorem parseFields_enumerators {enumerators : List Identifier}
    (distinct : (enumerators.map (·.text)).Nodup) {body : Bytes}
    (hbody : Lines (enumerators.map Identifier.entry) body) {field : FieldBase}
    (hempty : field.fields = []) (s : Bytes) :
    parseFields false field (.good (body ++ 125 :: s)) =
      (true, { field with fields := enumerators.map fun e => e.entry.declared }, .good s) := by
  rw [parseFields_lines hbody, hempty, List.nil_append, List.map_map]
  · rfl
  · intro e he
    obtain ⟨name, -, rfl⟩ := List.mem_map.mp he
    exact readAs_enumerator name
  · rw [hempty, List.map_map]
    exact distinct

/-- A structure or an enumeration: its name up to the opening brace, and its block. -/
theorem parseBlock_of_fields {type : StructType} {hasKey : Bool} (name : Identifier) {w : Bytes}
    (hw : Blank w) {field : FieldBase} {text : Bytes} {s : CharStream}
    (hfields : parseFields hasKey { type := type, name := name.text, fields := [] }
      (.good text) = (true, field, s)) :
    parseBlock type hasKey (.good (name.text ++ (w ++ 123 :: text))) =
      (some (.field field), s) := by
  have hname : readValue .standard 123 (.good (name.text ++ (w ++ 123 :: text))) =
      (.ok name.text, .good text) :=
    readValue_word rfl blank_nil (name.word 123 rfl) hw text
  simp only [parseBlock, parseDataField, Bool.false_eq_true, ↓reduceIte, hname, hfields]

/-- A part of a message, up to its opening brace. -/
theorem readProtocol_of_keyword {keyword : Bytes}
    (hkeyword : keyword = textBytes "request" ∨ keyword = textBytes "response")
    (field : FieldBase) {w w' : Bytes} (hw : Blank w) (hw' : Blank w') (text : Bytes) :
    readProtocol field (.good (w ++ (keyword ++ (w' ++ 123 :: text)))) =
      match parseFields true field (.good text) with
      | (false, _, s) => (none, s)
      | (true, field, s) => (some field, s) := by
  have hword : Word .strict 123 keyword := by
    rcases hkeyword with rfl | rfl
    · exact word_of_all (by decide)
    · exact word_of_all (by decide)
  have hknown : ¬(keyword ≠ textBytes "request" ∧ keyword ≠ textBytes "response") := by
    rintro ⟨h₁, h₂⟩
    exact hkeyword.elim h₁ h₂
  rw [readProtocol, readValue_word rfl hw hword hw']
  simp only [if_neg hknown, parseDataField, ↓reduceIte]

/-- A part of a message is read into the body it is meant for. -/
theorem readProtocol_part {keyword : Bytes}
    (hkeyword : keyword = textBytes "request" ∨ keyword = textBytes "response")
    {field : FieldBase} (hempty : field.fields = []) (fields : Fields) {w w' body : Bytes}
    (hw : Blank w) (hw' : Blank w') (hbody : Lines fields.entries body) (s : Bytes) :
    readProtocol field (.good (w ++ (keyword ++ (w' ++ 123 :: (body ++ 125 :: s))))) =
      (some { field with fields := fields.entries.map (·.declared) }, .good s) := by
  rw [readProtocol_of_keyword hkeyword field hw hw', parseFields_fields fields hbody hempty]

/-- The name and the router of a message, up to its opening brace. -/
theorem parseRouter_arrow (router : Router) {w : Bytes} (hw : Blank w) (s : Bytes) :
    parseRouter (.good (62 :: 32 :: (router.text ++ (w ++ 123 :: s)))) =
      (some router.text, .good s) := by
  have hnone : Word .standard 62 [] := word_of_all rfl
  have harrow : readValue .standard 62 (.good (62 :: 32 :: (router.text ++ (w ++ 123 :: s)))) =
      (.ok [], .good (32 :: (router.text ++ (w ++ 123 :: s)))) :=
    readValue_word (w := []) rfl blank_nil hnone blank_nil _
  have hword : Word .loose 123 router.text := fun b hb =>
    ⟨(router.plain b hb).2, (router.plain b hb).1, rfl⟩
  have hrouter : readValue .loose 123 (.good (32 :: (router.text ++ (w ++ 123 :: s)))) =
      (.ok router.text, .good s) :=
    readValue_word (w := [32]) rfl (by decide) hword hw s
  simp only [parseRouter, harrow, hrouter]

/-- A message, up to its opening brace: what its two parts are read as. -/
theorem parseMessageField_of_router (name : Identifier) (router : Router) {w : Bytes} (hw : Blank w)
    (text : Bytes) :
    parseMessageField (.good (name.text ++ (32 :: 45 :: 62 :: 32 :: (router.text ++
        (w ++ 123 :: text))))) =
      match readProtocol (bodyField .request name.text) (.good text) with
      | (none, s) => (none, s)
      | (some request, s) =>
          match readProtocol (bodyField .response name.text) s with
          | (none, s) => (none, s)
          | (some response, s) =>
              (some { name := name.text, router := router.text, request := request
                      response := response }, s) := by
  have hname : ∀ t, readValue .standard 45 (.good (name.text ++ (32 :: 45 :: t))) =
      (.ok name.text, .good t) :=
    readValue_word (w := []) rfl blank_nil (name.word 45 rfl) (by decide : Blank [32])
  simp only [parseMessageField, hname, parseRouter_arrow router hw]

/-- A message, up to the closing brace of its second part. -/
theorem parseMessageField_layout (name : Identifier) (router : Router) {request response : Fields}
    {w w₁ w₁' w₂ w₂' body₁ body₂ : Bytes} (hw : Blank w)
    (hw₁ : Blank w₁) (hw₁' : Blank w₁') (hbody₁ : Lines request.entries body₁)
    (hw₂ : Blank w₂) (hw₂' : Blank w₂') (hbody₂ : Lines response.entries body₂) (s : Bytes) :
    parseMessageField (.good (name.text ++ (32 :: 45 :: 62 :: 32 :: (router.text ++
      (w ++ 123 ::
        (w₁ ++ (textBytes "request" ++ (w₁' ++ 123 :: (body₁ ++ 125 ::
        (w₂ ++ (textBytes "response" ++ (w₂' ++ 123 :: (body₂ ++ 125 :: s))))))))))))) =
      (some { name := name.text, router := router.text
              request := { type := .request, name := name.text ++ textBytes "_req_body"
                           fields := request.entries.map (·.declared) }
              response := { type := .response, name := name.text ++ textBytes "_resp_body"
                            fields := response.entries.map (·.declared) } }, .good s) := by
  have hrequest := fun t => readProtocol_part (Or.inl rfl)
    (rfl : (bodyField .request name.text).fields = []) request hw₁ hw₁' hbody₁ t
  have hresponse := fun t => readProtocol_part (Or.inr rfl)
    (rfl : (bodyField .response name.text).fields = []) response hw₂ hw₂' hbody₂ t
  simp only [parseMessageField_of_router name router hw, hrequest, hresponse]
  rfl

/-- A closing brace between declarations is passed over by the loop of `run`. -/
theorem runLoop_brace (fields : List SchemaField) {w : Bytes} (hw : Blank w) (s : Bytes) :
    runLoop fields (.good (w ++ 125 :: s)) = runLoop fields (.good s) := by
  exact runLoop_skip (readValue_close .strict rfl 32 (by decide) hw s)

/-- **One declaration**: the parser its keyword selects reads all of it. A message leaves its
closing brace, which makes no difference to the loop of `run`. -/
theorem invoke_layout {d : Declaration} {block : Bytes} (h : d.Layout block) (s : Bytes) :
    ∃ rest, invoke d.keyword (.good (block ++ s)) = (some d.parsed, .good rest) ∧
      ∀ fields, runLoop fields (.good rest) = runLoop fields (.good s) := by
  cases h with
  | @enumeration name enumerators distinct w body hw hbody =>
      refine ⟨s, ?_, fun _ => rfl⟩
      simp only [List.append_assoc, List.cons_append, List.nil_append, Declaration.keyword]
      rw [invoke, if_neg (by decide), if_neg (by decide), if_pos rfl,
        parseBlock_of_fields name hw (parseFields_enumerators distinct hbody rfl s)]
      rfl
  | @struct name fields w body hw hbody =>
      refine ⟨s, ?_, fun _ => rfl⟩
      simp only [List.append_assoc, List.cons_append, List.nil_append, Declaration.keyword]
      rw [invoke, if_neg (by decide), if_pos rfl,
        parseBlock_of_fields name hw (parseFields_fields fields hbody rfl s)]
      rfl
  | @message name router request response w w₁ w₁' w₂ w₂' w₃ body₁ body₂ hw hw₁ hw₁' hbody₁
      hw₂ hw₂' hbody₂ hw₃ =>
      have harrow : textBytes " -> " = [32, 45, 62, 32] := by decide
      refine ⟨w₃ ++ 125 :: s, ?_, fun fields => runLoop_brace fields hw₃ s⟩
      simp only [harrow, List.append_assoc, List.cons_append, List.nil_append,
        Declaration.keyword]
      rw [invoke, if_pos rfl, parseMessageField_layout name router hw hw₁ hw₁' hbody₁ hw₂ hw₂'
        hbody₂]
      rfl

/-- The keyword of a declaration is read up to its space. -/
theorem word_keyword (d : Declaration) : Word .strict 32 d.keyword ∧ d.keyword ≠ [] := by
  have henum : Word .strict 32 (textBytes "enum") := word_of_all (by decide)
  have hstruct : Word .strict 32 (textBytes "struct") := word_of_all (by decide)
  have hmessage : Word .strict 32 (textBytes "message") := word_of_all (by decide)
  cases d with
  | enumeration name enumerators distinct => exact ⟨henum, List.cons_ne_nil _ _⟩
  | struct name fields => exact ⟨hstruct, List.cons_ne_nil _ _⟩
  | message name router request response => exact ⟨hmessage, List.cons_ne_nil _ _⟩

/-- **The loop reads the declarations of a file** behind those it already has. -/
theorem runLoop_prints {ds : List Declaration} {text : Bytes} (h : Prints ds text)
    (fields : List SchemaField) :
    runLoop fields (.good text) =
      (fields ++ ds.map Declaration.parsed, fields ++ ds.map Declaration.parsed) := by
  induction h generalizing fields with
  | @nil w hw =>
      have hread : readValue .strict 32 (.good w) = (.error false, .eof) := by
        rw [readValue, CharStream.skipSpace_blank_only hw]
      rw [runLoop_skip hread, runLoop_eof, List.map_nil, List.append_nil]
  | @cons d ds w block text hw hblock _ ih =>
      obtain ⟨rest, hinvoke, hrest⟩ := invoke_layout hblock text
      obtain ⟨hword, hne⟩ := word_keyword d
      rw [runLoop_declared (readValue_spaced hw hword hne _) hinvoke, hrest, ih,
        List.append_assoc]
      rfl

/-- **The schema is recovered.** A new parser returns exactly the declarations printed in a
file, in their order, with their names, their routers and the types and names of their
fields. -/
theorem run_prints {ds : List Declaration} {text : Bytes} (h : Prints ds text) :
    (Schema.run {} (some text)).1 = ds.map Declaration.parsed := by
  rw [Schema.run, runLoop_prints h]
  rfl

/-- A router without blanks and braces. -/
theorem plain_of_all {text : Bytes} (h : (text.all fun b => !isSpace b && b != 123) = true) :
    ∀ b ∈ text, isSpace b = false ∧ b ≠ 123 := by
  intro b hb
  have hb := List.all_eq_true.mp h b hb
  simp only [Bool.and_eq_true, bne_iff_ne, ne_eq, Bool.not_eq_true'] at hb
  exact hb

/-- The message of `gateway/proto/shake.virgo` -/
def shake : Declaration :=
  .message ⟨textBytes "shake", by decide⟩ ⟨textBytes "8000", plain_of_all (by decide)⟩
    ⟨[], List.nodup_nil⟩
    ⟨[(.repeated ⟨textBytes "string", by decide⟩, ⟨textBytes "topics", by decide⟩)],
      List.nodup_singleton _⟩

/-- Its file, whose first part has its braces on the line of its name. -/
theorem prints_shake :
    Prints [shake] (textBytes
      "message shake -> 8000\n\x7b\n\trequest\x7b\x7d\n\tresponse\n\t\x7b\n\t\trepeated string topics;\n\t\x7d\n\x7d") := by
  have hline : Blank [10, 9] := by decide
  have hrequest : Lines (Fields.mk [] List.nodup_nil).entries [] := Lines.nil blank_nil
  have hresponse : Lines (Fields.mk [(.repeated ⟨textBytes "string", by decide⟩,
      ⟨textBytes "topics", by decide⟩)] (List.nodup_singleton _)).entries
      ([10, 9, 9] ++ (textBytes "repeated string topics;" ++ [10, 9])) :=
    Lines.cons (by decide) (Lines.nil hline)
  have hblock : shake.Layout _ :=
    Declaration.Layout.message (by decide : Blank [10]) hline blank_nil hrequest hline hline
      hresponse (by decide : Blank [10])
  have hprints := Prints.cons blank_nil hblock (Prints.nil blank_nil)
  refine (congrArg (Prints [shake]) ?_).mpr hprints
  decide +kernel

/-- The repository's file is read as the message it declares. -/
theorem run_prints_shake :
    (Schema.run {} (some (textBytes
      "message shake -> 8000\n\x7b\n\trequest\x7b\x7d\n\tresponse\n\t\x7b\n\t\trepeated string topics;\n\t\x7d\n\x7d"))).1 =
      [.message
        { name := textBytes "shake"
          router := textBytes "8000"
          request := { type := .request, name := textBytes "shake_req_body", fields := [] }
          response :=
            { type := .response, name := textBytes "shake_resp_body"
              fields := [(textBytes "std::vector<string>", textBytes "topics")] } }] :=
  run_prints prints_shake

end Aquarius.Lazytool
