import Aquarius.SchemaParser

/-!
# The C++ Generator

`cpp_generator::run` (`lazytool/cpp_generator.cpp`): the header and the source written for a
list of declarations, character by character. The statements it writes into the methods of a
message body are a type of their own, `Statement`, with the text of each: what a method does
when it is compiled is a matter of its statements, and what stands in the file a matter of
their texts.

`header.seekp(-2, std::ios::cur)` steps back over the last separator, which the next write
covers. The `generate_model` functions are called from nowhere.

## Main results

* `length_runHeader_lt`: declarations in front make the header longer.
-/

open Decoding

namespace Aquarius.Lazytool

/-! ### The statements of generated methods -/

/-- The accessors of `json::value` the generator uses. -/
inductive JsonAccessor where
  | int64
  | double
  | bool
  | string
  deriving DecidableEq, Repr

/-- The suffix of `as_`. -/
def JsonAccessor.text : JsonAccessor → Bytes
  | int64 => textBytes "int64"
  | double => textBytes "double"
  | bool => textBytes "bool"
  | string => textBytes "string"

/-- A statement of a generated method. -/
inductive Statement where
  | binaryTo (name : Bytes)
  | binaryFrom (type name : Bytes)
  | emplace (name : Bytes)
  | emplaceArray (name : Bytes)
  | emplaceObject (type name : Bytes)
  | castAs (type name : Bytes) (accessor : JsonAccessor)
  | assignAs (name : Bytes) (accessor : JsonAccessor)
  | assignArray (name : Bytes)
  | assignObject (type name : Bytes)
  | separator (first : Bool)
  | kvTo (name : Bytes)
  | kvFrom (type name : Bytes)
  deriving DecidableEq, Repr

/-- The left side of an assignment to a member. -/
def assigned (name : Bytes) : Bytes := textBytes "\timpl_ptr_->" ++ name ++ textBytes " = "

/-- The text of a statement. -/
def Statement.text : Statement → Bytes
  | binaryTo name =>
      textBytes "\tbinary_parse::to_datas(impl_ptr_->" ++ name ++ textBytes ", buffer);\n"
  | binaryFrom type name =>
      assigned name ++ textBytes "binary_parse::from_datas<" ++ type ++ textBytes ">(buffer);\n"
  | emplace name =>
      textBytes "\tjv_obj.emplace(\"" ++ name ++ textBytes "\", impl_ptr_->" ++ name ++
        textBytes ");\n"
  | emplaceArray name =>
      textBytes "\tjv_obj.emplace(\"" ++ name ++
        textBytes "\", aquarius::json_value_from_array(impl_ptr_->" ++ name ++ textBytes "));\n"
  | emplaceObject type name =>
      textBytes "\tjv_obj.emplace(\"" ++ name ++
        textBytes "\", aquarius::json_value_from_object<" ++ type ++ textBytes ">(impl_ptr_->" ++
        name ++ textBytes "));\n"
  | castAs type name accessor =>
      assigned name ++ textBytes "static_cast<" ++ type ++ textBytes ">(jv_obj->at(\"" ++ name ++
        textBytes "\").as_" ++ accessor.text ++ textBytes "());\n"
  | assignAs name accessor =>
      assigned name ++ textBytes "jv_obj->at(\"" ++ name ++ textBytes "\").as_" ++
        accessor.text ++ textBytes "();\n"
  | assignArray name =>
      assigned name ++ textBytes "aquarius::json_value_to_array(jv_obj->at(\"" ++ name ++
        textBytes "\"));\n"
  | assignObject type name =>
      assigned name ++ textBytes "aquarius::json::value_to<" ++ type ++
        textBytes ">(jv_obj->at(\"" ++ name ++ textBytes "\"));\n"
  | separator first =>
      if first then textBytes "\tbuffer.sputc('?');\n" else textBytes "buffer.sputc('=');\n"
  | kvTo name => textBytes "\tkv_parse::to_datas(impl_ptr_->" ++ name ++ textBytes ", buffer);\n"
  | kvFrom type name =>
      assigned name ++ textBytes "kv_parse::from_datas<" ++ type ++
        textBytes ">(buffer, impl_ptr_->" ++ name ++ textBytes ");\n"

/-- The text of a sequence of statements. -/
def statementsText (statements : List Statement) : Bytes := statements.flatMap Statement.text

/-- `cpp_generator::json_type` -/
inductive JsonType where
  | integer
  | string
  | array
  | object
  deriving DecidableEq, Repr

/-- `check_type` -/
def checkType (type : Bytes) : JsonType :=
  if type = textBytes "int32" ∨ type = textBytes "uint32" ∨ type = textBytes "int64" ∨
      type = textBytes "uint64" ∨ type = textBytes "bool" ∨ type = textBytes "float" ∨
      type = textBytes "double" then .integer
  else if type = textBytes "string" then .string
  else if type = textBytes "bytes" then .array
  else .object

/-- The statement of `to_json` for a field: `generate_from_int`, `generate_from_string`,
`generate_from_array` and `generate_from_object`, of which one applies. -/
def toJsonStatement (type name : Bytes) : Statement :=
  match checkType type with
  | .integer => .emplace name
  | .string => .emplace name
  | .array => .emplaceArray name
  | .object => .emplaceObject type name

/-- `generate_to_int` -/
def toIntStatement (type name : Bytes) : List Statement :=
  if type = textBytes "int32" ∨ type = textBytes "uint32" ∨ type = textBytes "uint64" then
    [.castAs type name .int64]
  else if type = textBytes "float" then [.castAs type name .double]
  else if type = textBytes "int64" then [.assignAs name .int64]
  else if type = textBytes "double" then [.assignAs name .double]
  else if type = textBytes "bool" then [.assignAs name .bool]
  else []

/-- The statements of `from_json` for a field: `generate_to_int`, `generate_to_string`,
`generate_to_array` and `generate_to_object`, of which one applies. -/
def fromJsonStatement (type name : Bytes) : List Statement :=
  match checkType type with
  | .integer => toIntStatement type name
  | .string => [.castAs type name .string]
  | .array => [.assignArray name]
  | .object => [.assignObject type name]

/-- The statements `to_binary` consists of. -/
def toBinaryStatements (fields : List (Bytes × Bytes)) : List Statement :=
  fields.map fun f => .binaryTo f.2

/-- The statements `from_binary` consists of. -/
def fromBinaryStatements (fields : List (Bytes × Bytes)) : List Statement :=
  fields.map fun f => .binaryFrom f.1 f.2

/-- The calls of `emplace` in `to_json`. -/
def toJsonStatements (fields : List (Bytes × Bytes)) : List Statement :=
  fields.map fun f => toJsonStatement f.1 f.2

/-- The assignments in `from_json`. -/
def fromJsonStatements (fields : List (Bytes × Bytes)) : List Statement :=
  fields.flatMap fun f => fromJsonStatement f.1 f.2

/-- The statements `to_kv` consists of: `loop++ == 0` for the first field only. -/
def toKvStatements : List (Bytes × Bytes) → List Statement
  | [] => []
  | f :: fields =>
      .separator true :: .kvTo f.2 ::
        fields.flatMap fun f => [.separator false, .kvTo f.2]

/-- The statements `from_kv` consists of. -/
def fromKvStatements (fields : List (Bytes × Bytes)) : List Statement :=
  fields.map fun f => .kvFrom f.1 f.2

/-! ### The files -/

/-- A method of a generated body. -/
def methodText (name method body : Bytes) : Bytes :=
  textBytes "void " ++ name ++ textBytes "::" ++ method ++
    textBytes "(flex_buffer& buffer)\n\x7b\n" ++ body ++ textBytes "\x7d\n"

/-- `generate_seialize_method_binary` -/
def generateSerializeMethodBinary (field : FieldBase) : Bytes :=
  methodText field.name (textBytes "to_binary")
      (statementsText (toBinaryStatements field.fields)) ++
    methodText field.name (textBytes "from_binary")
      (statementsText (fromBinaryStatements field.fields))

/-- `generate_seialize_method_json` -/
def generateSerializeMethodJson (field : FieldBase) : Bytes :=
  methodText field.name (textBytes "to_json")
      (if field.fields.isEmpty then []
      else
        textBytes "\tjson::value jv\x7b\x7d;\n" ++
          textBytes "\tauto& jv_obj = jv.emplace_object();\n" ++
          statementsText (toJsonStatements field.fields) ++
          textBytes "\tauto json_str = json::serialize(jv);\n" ++
          textBytes "\tbuffer.sputn(json_str.data(), json_str.size());\n") ++
    methodText field.name (textBytes "from_json")
      (if field.fields.isEmpty then []
      else
        textBytes
            "\tjson::value jv = json::parse(std::string((char*)buffer.data().data(), buffer.size()));\n" ++
          textBytes "\tauto jv_obj = jv.try_as_object();\n" ++
          textBytes "\tif(jv_obj.has_error())\n" ++
          textBytes "\t\x7b\n" ++
          textBytes "\t\treturn;\n" ++
          textBytes "\t\x7d\n" ++
          statementsText (fromJsonStatements field.fields))

/-- `generate_seialize_method_kv` -/
def generateSerializeMethodKv (field : FieldBase) : Bytes :=
  methodText field.name (textBytes "to_kv") (statementsText (toKvStatements field.fields)) ++
    methodText field.name (textBytes "from_kv") (statementsText (fromKvStatements field.fields))

/-- `generate_header` -/
def generateHeader (field : FieldBase) (suffix : Bytes) : Bytes :=
  (if suffix ≠ [] then textBytes "struct "
    else
      match field.type with
      | .enumture => textBytes "enum class "
      | .structure => textBytes "struct "
      | .request | .response | .message => textBytes "class ") ++
    field.name ++ suffix

/-- `generate_member_variable_define` -/
def generateMemberVariableDefine (field : FieldBase) : Bytes :=
  field.fields.flatMap fun f =>
    textBytes "\t" ++ f.1 ++ textBytes " " ++ f.2 ++
      textBytes (if field.type = .enumture then ",\n" else ";\n")

/-- The macro call in `generate_normal_data`: the names with a separator behind each, of which
the last is written over. -/
def serializeMacro (field : FieldBase) (suffix : Bytes) : Bytes :=
  textBytes "AQUARIUS_SERIALIZE_" ++
    textBytes (if field.type = .enumture then "ENUM" else "STRUCT") ++ textBytes "(" ++
    field.name ++ suffix ++ textBytes ", (" ++
    (field.fields.flatMap fun f => f.2 ++ textBytes ", ").dropLast.dropLast ++ textBytes "))\n"

/-- `generate_normal_data` -/
def generateNormalData (field : FieldBase) (suffix : Bytes) : Bytes :=
  generateHeader field suffix ++ textBytes "\n\x7b\n" ++ generateMemberVariableDefine field ++
    if suffix ≠ [] then serializeMacro field suffix ++ textBytes "\x7d;\n"
    else textBytes "\x7d;\n" ++ serializeMacro field suffix

/-- `generate_construction_define` -/
def generateConstructionDefine (field : FieldBase) : Bytes :=
  textBytes "\t" ++ field.name ++ textBytes "();\n" ++
    textBytes "\tvirtual ~" ++ field.name ++ textBytes "();\n" ++
    textBytes "\n" ++
    textBytes "\t" ++ field.name ++ textBytes "(" ++ field.name ++ textBytes "&&) = default;\n" ++
    textBytes "\t" ++ field.name ++ textBytes "& operator=(" ++ field.name ++
    textBytes "&&) = default;\n"

/-- `generate_serialize_method_define` -/
def generateSerializeMethodDefine : Bytes :=
  ["binary", "json", "kv"].flatMap fun way =>
    textBytes "\tvirtual void to_" ++ textBytes way ++
      textBytes "(aquarius::flex_buffer& buffer) override;\n\n" ++
      textBytes "\tvirtual void from_" ++ textBytes way ++
      textBytes "(aquarius::flex_buffer& buffer) override;\n\n"

/-- `generate_member_func_define` -/
def generateMemberFuncDefine (field : FieldBase) : Bytes :=
  field.fields.flatMap fun f =>
    textBytes "\t" ++ f.1 ++ textBytes " " ++ f.2 ++ textBytes "() const;\n" ++
      textBytes "\t" ++ f.1 ++ textBytes "& " ++ f.2 ++ textBytes "();\n\n"

/-- `generate_data_field_define` -/
def generateDataFieldDefine (field : FieldBase) : Bytes :=
  generateHeader field [] ++ textBytes ": public aquarius::serialization\n" ++
    textBytes "\x7b\n" ++
    textBytes "public:\n" ++ generateConstructionDefine field ++
    textBytes "public:\n" ++ generateSerializeMethodDefine ++
    textBytes "\n" ++ generateMemberFuncDefine field ++
    textBytes "private:\n" ++
    textBytes "\tstruct impl;\n" ++
    textBytes "\tstd::shared_ptr<impl> impl_ptr_;\n" ++
    textBytes "\x7d;\n"

/-- `generate_construction_src` -/
def generateConstructionSrc (name : Bytes) : Bytes :=
  name ++ textBytes "::" ++ name ++ textBytes "()\n" ++
    textBytes "\t: impl_ptr_(std::make_shared<impl>())\n" ++
    textBytes "\x7b\x7d\n" ++
    textBytes "\n" ++
    name ++ textBytes "::~" ++ name ++ textBytes "()\x7b\x7d\n"

/-- `generate_member_func_src` -/
def generateMemberFuncSrc (field : FieldBase) : Bytes :=
  field.fields.flatMap fun f =>
    f.1 ++ textBytes " " ++ field.name ++ textBytes "::" ++ f.2 ++ textBytes "() const\n" ++
      textBytes "\x7b\n\treturn impl_ptr_->" ++ f.2 ++ textBytes ";\n\x7d\n" ++
      f.1 ++ textBytes "& " ++ field.name ++ textBytes "::" ++ f.2 ++ textBytes "()\n" ++
      textBytes "\x7b\n\treturn impl_ptr_->" ++ f.2 ++ textBytes ";\n\x7d\n"

/-- `genetate_source` -/
def generateSource (field : FieldBase) : Bytes :=
  generateNormalData field (textBytes "::impl") ++ generateConstructionSrc field.name ++
    textBytes "\n" ++ generateSerializeMethodBinary field ++ generateSerializeMethodJson field ++
    generateSerializeMethodKv field ++ generateMemberFuncSrc field

/-- `generate_protocol_alias_define` -/
def generateProtocolAliasDefine (m : MessageField) (protocol : Bytes) : Bytes :=
  textBytes "using " ++ m.name ++ textBytes "_request = aquarius::" ++ protocol ++
    textBytes "_request<\"" ++ m.router ++ textBytes "\", " ++ m.request.name ++
    textBytes ">;\n" ++
    textBytes "using " ++ m.name ++ textBytes "_response = aquarius::" ++ protocol ++
    textBytes "_response<" ++
    (if protocol = textBytes "tcp" then textBytes "\"" ++ m.router ++ textBytes "\", " else []) ++
    m.response.name ++ textBytes ">;\n"

/-- What a declaration adds to the header in the first loop of `run`. -/
def headerPart : SchemaField → Bytes
  | .message m =>
      textBytes "\n" ++ generateDataFieldDefine m.request ++ generateDataFieldDefine m.response
  | .field f => textBytes "\n" ++ generateNormalData f []

/-- What a declaration adds to the source. -/
def sourcePart : SchemaField → Bytes
  | .message m => textBytes "\n" ++ generateSource m.request ++ generateSource m.response
  | .field _ => textBytes "\n"

/-- What a declaration adds to the header in the second loop of `run`. -/
def aliasPart (protocol : Bytes) : SchemaField → Bytes
  | .message m => generateProtocolAliasDefine m protocol
  | .field _ => []

/-- What `run` writes to the header. -/
def runHeader (protocol : Bytes) (fields : List SchemaField) : Bytes :=
  fields.flatMap headerPart ++ textBytes "\n" ++ fields.flatMap (aliasPart protocol)

/-- What `run` writes to the source. -/
def runSource (fields : List SchemaField) : Bytes := fields.flatMap sourcePart

/-- The header of more declarations is longer, wherever they stand. -/
theorem length_runHeader_lt (protocol : Bytes) (before : List SchemaField)
    {datas : List SchemaField} (hne : datas ≠ []) (after : List SchemaField) :
    (runHeader protocol (before ++ after)).length <
      (runHeader protocol (before ++ (datas ++ after))).length := by
  cases datas with
  | nil => exact absurd rfl hne
  | cons f datas =>
      have hpart : 0 < (headerPart f).length := by
        cases f <;> exact Nat.succ_pos _
      simp only [runHeader, List.cons_append, List.flatMap_cons, List.flatMap_append,
        List.length_append]
      omega

end Aquarius.Lazytool
