import Aquarius.TblViews

/-!
# Result Rows Through the Database Service

A client asks the database service for rows. The service (`mysql_io_service::async_query_only`,
`tbl/mysql_io_service.hpp`) writes every field of every row as a text and appends the texts of
all rows to one list; the client (`enter_view::query`, `login/enter_view.hpp`) builds aggregates
of that list.

The list does not say where a row ends, and the client does not look: `make_result` is called
once, with the whole list in the place of a row, while `mysql_io_service::async_query` calls it
for every row. A member is extracted from its text with `operator>>`, which stops at a blank and
takes a single character for an integer of eight bits.

## Main results

* `cast_text_held`: which values survive their text.
* `query_asyncQueryOnly_iff`: **the rows survive** exactly when there is none, or a single one
  whose values do.
-/

open Decoding

namespace Aquarius

/-! ### The service -/

/-- The fields of a row of the server that hold integers and strings. -/
inductive FieldView where
  | int64 (v : BitVec 64)
  | uint64 (v : BitVec 64)
  | string (s : Bytes)
  deriving DecidableEq, Repr

/-- `ss << row[i]` -/
def FieldView.text : FieldView → Bytes
  | .int64 v => integerText v.toInt
  | .uint64 v => decimal v.toNat
  | .string s => s

/-- `mysql_io_service::make_bytes_result` -/
def makeBytesResult (results : List Bytes) (row : List FieldView) : List Bytes :=
  results ++ row.map FieldView.text

/-- `mysql_io_service::async_query_only`, given the result set, or none after an error. -/
def asyncQueryOnly : Option (List (List FieldView)) → List Bytes
  | none => []
  | some rows => rows.foldl makeBytesResult []

/-! ### The client -/

/-- `enter_view::cast` -/
def cast : (t : ColumnType) → Bytes → t.Val
  | .string, result => extractWord result
  | .integer _ .w8, result => (extractChar result).toBitVec
  | .integer true width, result => BitVec.ofInt width.bits (extractSigned width.bits result)
  | .integer false width, result => BitVec.ofNat width.bits (extractUnsigned width.bits result)

/-- The aggregate that `make_result` builds; `none` stands for an index behind the end of the
list. -/
def toStruct : (members : List Member) → List Bytes → Option (Record members)
  | [], _ => some ()
  | _ :: _, [] => none
  | m :: ms, text :: texts => (toStruct ms texts).map fun rest => (cast m.type text, rest)

/-- `enter_view::make_result` -/
def makeResult (members : List Member) (results : List (Record members)) (row : List Bytes) :
    Option (List (Record members)) :=
  if row.isEmpty then some results
  else (toStruct members row).map fun value => results ++ [value]

/-- `enter_view::query`, given the list in the response. -/
def query (members : List Member) (texts : List Bytes) : Option (List (Record members)) :=
  makeResult members [] texts

/-! ### What survives -/

/-- The field that holds a value. -/
def held : (t : ColumnType) → t.Val → FieldView
  | .string, v => .string v
  | .integer true _, v => .int64 (v.signExtend 64)
  | .integer false _, v => .uint64 (v.setWidth 64)

/-- The row that holds an aggregate. -/
def heldRow : (members : List Member) → Record members → List FieldView
  | [], _ => []
  | m :: ms, (v, rest) => held m.type v :: heldRow ms rest

/-- There is no blank in the text. -/
def BlankFree (s : Bytes) : Prop := ∀ b ∈ s, isSpace b = false

/-- The values that are extracted from their own text: a string without blanks, any integer of
more than eight bits, and `53`, the one number whose first digit has its code. -/
def Extracts : (t : ColumnType) → t.Val → Prop
  | .string, s => BlankFree s
  | .integer _ .w8, v => v = (53 : BitVec 8)
  | .integer _ _, _ => True

/-- Every member of the aggregate is extracted from its own text. -/
def ExtractsAll : (members : List Member) → Record members → Prop
  | [], _ => True
  | m :: ms, (v, rest) => Extracts m.type v ∧ ExtractsAll ms rest

/-- The aggregate that comes of the texts of a row. -/
def rebuilt : (members : List Member) → Record members → Record members
  | [], _ => ()
  | m :: ms, (v, rest) => (cast m.type (held m.type v).text, rebuilt ms rest)

/-- The widths do not exceed that of a field. -/
theorem IntWidth.bits_le (width : IntWidth) : width.bits ≤ 64 := by
  cases width <;> simp [IntWidth.bits]

/-- The text of a signed integer is its numeral. -/
theorem text_held_signed {width : IntWidth} (v : BitVec width.bits) :
    (held (.integer true width) v).text = integerText v.toInt := by
  change integerText (v.signExtend 64).toInt = integerText v.toInt
  rw [BitVec.toInt_signExtend_of_le width.bits_le]

/-- The text of an unsigned integer is its numeral. -/
theorem text_held_unsigned {width : IntWidth} (v : BitVec width.bits) :
    (held (.integer false width) v).text = decimal v.toNat := by
  change decimal (v.setWidth 64).toNat = decimal v.toNat
  rw [BitVec.toNat_setWidth_of_le width.bits_le]

/-- A signed integer is extracted from its field. -/
theorem ofInt_extractSigned_held {width : IntWidth} (v : BitVec width.bits) :
    BitVec.ofInt width.bits (extractSigned width.bits (held (.integer true width) v).text) = v := by
  rw [text_held_signed, extractSigned_integerText, BitVec.ofInt_toInt]
  · exact BitVec.le_toInt v
  · exact BitVec.toInt_lt

/-- An unsigned integer is extracted from its field. -/
theorem ofNat_extractUnsigned_held {width : IntWidth} (v : BitVec width.bits) :
    BitVec.ofNat width.bits (extractUnsigned width.bits (held (.integer false width) v).text) =
      v := by
  rw [text_held_unsigned, extractUnsigned_decimal v.isLt, BitVec.ofNat_toNat, BitVec.setWidth_eq]

/-- A character is the number it was written for in one case only. -/
theorem extractChar_eq_iff (signed : Bool) (v : BitVec 8) :
    (extractChar (held (.integer signed .w8) v).text).toBitVec = v ↔ v = 53 := by
  have hall : ∀ (signed : Bool) (i : Fin 256),
      (extractChar (held (.integer signed .w8) (BitVec.ofFin i)).text).toBitVec =
        BitVec.ofFin i ↔ BitVec.ofFin i = (53 : BitVec 8) := by
    decide +kernel
  exact hall signed v.toFin

/-- **Which values survive** their text. -/
theorem cast_text_held (t : ColumnType) (v : t.Val) :
    cast t (held t v).text = v ↔ Extracts t v := by
  cases t with
  | string => exact extractWord_eq_self_iff v
  | integer signed width =>
      cases width with
      | w8 => exact extractChar_eq_iff signed v
      | w16 | w32 | w64 =>
          refine iff_of_true ?_ trivial
          cases signed with
          | true => exact ofInt_extractSigned_held v
          | false => exact ofNat_extractUnsigned_held v

/-! ### Rows -/

section Rows

variable {members : List Member}

/-- An aggregate is rebuilt of the texts of its own row, whatever follows them. -/
theorem toStruct_heldRow (members : List Member) (row : Record members) (texts : List Bytes) :
    toStruct members ((heldRow members row).map FieldView.text ++ texts) =
      some (rebuilt members row) := by
  induction members with
  | nil => rfl
  | cons m ms ih =>
      obtain ⟨v, rest⟩ := row
      rw [heldRow, List.map_cons, List.cons_append, toStruct, ih]
      rfl

/-- What is rebuilt is the aggregate itself when every value survives. -/
theorem rebuilt_eq_self_iff (members : List Member) (row : Record members) :
    rebuilt members row = row ↔ ExtractsAll members row := by
  induction members with
  | nil => exact iff_of_true rfl trivial
  | cons m ms ih =>
      obtain ⟨v, rest⟩ := row
      rw [ExtractsAll, ← ih, ← cast_text_held]
      exact Prod.mk.injEq .. ▸ Iff.rfl

/-- The list of the service is that of the texts of all rows, one after another. -/
theorem asyncQueryOnly_some (rows : List (List FieldView)) :
    asyncQueryOnly (some rows) = rows.flatMap fun row => row.map FieldView.text := by
  have hfold : ∀ results : List Bytes, rows.foldl makeBytesResult results =
      results ++ rows.flatMap fun row => row.map FieldView.text := by
    induction rows with
    | nil => simp
    | cons row rows ih =>
        intro results
        rw [List.foldl_cons, ih, makeBytesResult, List.flatMap_cons, List.append_assoc]
  exact hfold []

/-- An aggregate with members has a text. -/
theorem heldRow_eq_nil_iff (row : Record members) : heldRow members row = [] ↔ members = [] := by
  cases members with
  | nil => exact iff_of_true rfl rfl
  | cons m ms => exact iff_of_false (List.cons_ne_nil _ _) (List.cons_ne_nil _ _)

/-- **What the client makes of the rows**: one aggregate, rebuilt of the first. -/
theorem query_asyncQueryOnly_cons (hmembers : members ≠ []) (row : Record members)
    (rows : List (Record members)) :
    query members (asyncQueryOnly (some ((row :: rows).map (heldRow members)))) =
      some [rebuilt members row] := by
  have htexts : (heldRow members row).map FieldView.text ≠ [] := by
    rw [Ne, List.map_eq_nil_iff, heldRow_eq_nil_iff]
    exact hmembers
  rw [asyncQueryOnly_some, List.map_cons, List.flatMap_cons, query, makeResult, if_neg,
    toStruct_heldRow]
  · rfl
  · simp [htexts]

/-- An aggregate without members has no text, so nothing comes of its rows. -/
theorem query_asyncQueryOnly_nil (rows : List (Record [])) :
    query [] (asyncQueryOnly (some (rows.map (heldRow [])))) = some [] := by
  have hnil : ∀ row ∈ rows.map (heldRow []), row.map FieldView.text = [] := by
    simp [heldRow]
  rw [asyncQueryOnly_some, List.flatMap_eq_nil_iff.mpr hnil]
  rfl

/-- **The rows survive** the service and the client exactly when there is no row, or a single
one, with a member at least, all of whose values are extracted from their own texts. -/
theorem query_asyncQueryOnly_iff (members : List Member) (rows : List (Record members)) :
    query members (asyncQueryOnly (some (rows.map (heldRow members)))) = some rows ↔
      rows = [] ∨ members ≠ [] ∧ ∃ row, rows = [row] ∧ ExtractsAll members row := by
  by_cases hmembers : members = []
  · subst hmembers
    simp [query_asyncQueryOnly_nil, eq_comm]
  cases rows with
  | nil => exact iff_of_true rfl (.inl rfl)
  | cons row rows =>
      rw [query_asyncQueryOnly_cons hmembers, Option.some_inj, List.cons.injEq,
        rebuilt_eq_self_iff]
      constructor
      · rintro ⟨hrow, hrows⟩
        exact .inr ⟨hmembers, row, by rw [← hrows], hrow⟩
      · rintro (hnil | ⟨-, row', heq, hrow⟩)
        · exact absurd hnil (List.cons_ne_nil _ _)
        · obtain ⟨rfl, rfl⟩ := List.cons.inj heq
          exact ⟨hrow, rfl⟩

/-- Two rows of one number: the second is lost. -/
theorem query_two_rows :
    query [⟨textBytes "id", .integer true .w32⟩] (asyncQueryOnly (some
      ([((1 : BitVec 32), ()), ((2 : BitVec 32), ())].map
        (heldRow [⟨textBytes "id", .integer true .w32⟩])))) ≠
      some [((1 : BitVec 32), ()), ((2 : BitVec 32), ())] := by
  intro h
  have hlength := congrArg (Option.map List.length) h
  exact absurd hlength (by decide +kernel)

end Rows

end Aquarius
