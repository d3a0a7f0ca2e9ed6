import Aquarius.Library.Extraction
import Aquarius.Library.Quoted
import Aquarius.Library.Text

/-!
# Aggregates and the Statements Built of Them

The views of `tbl` take an aggregate apart with `boost::pfr`: its members in order, by name,
type and value. `Record members` is such an aggregate, for members that are integers or
strings; `insertView` and `updateView` are the texts that `insert_view::operator()` and
`update_view::operator()` build of it (`tbl/insert_view.hpp`, `tbl/update_view.hpp`).

A value is written with `operator<<`, where an integer of eight bits is a character, and a string
stands between double quotes as it is: `add_string` escapes nothing.
-/

open Decoding

namespace Aquarius

/-! ### Aggregates -/

/-- The widths of the integer types. -/
inductive IntWidth where
  | w8
  | w16
  | w32
  | w64
  deriving DecidableEq, Repr

/-- The number of bits. -/
def IntWidth.bits : IntWidth → ℕ
  | .w8 => 8
  | .w16 => 16
  | .w32 => 32
  | .w64 => 64

/-- The types of the members. -/
inductive ColumnType where
  | string
  | integer (signed : Bool) (width : IntWidth)
  deriving DecidableEq, Repr

/-- The values of a type. -/
def ColumnType.Val : ColumnType → Type
  | .string => Bytes
  | .integer _ width => BitVec width.bits

/-- A member of an aggregate. -/
structure Member where
  name : Bytes
  type : ColumnType
  deriving DecidableEq, Repr

/-- An aggregate, member by member. -/
def Record : List Member → Type
  | [] => Unit
  | m :: ms => m.type.Val × Record ms

/-! ### Statements -/

/-- `complete_sql_ << value` -/
def putValue : (t : ColumnType) → t.Val → Bytes
  | .string, value => value
  | .integer _ .w8, value => [UInt8.ofBitVec value]
  | .integer true _, value => integerText value.toInt
  | .integer false _, value => decimal value.toNat

/-- `add_string` -/
def addString : (t : ColumnType) → t.Val → t.Val
  | .string, value => quoted value
  | .integer _ _, value => value

/-- What is written for the values of an aggregate. -/
def putValues : (members : List Member) → Record members → List Bytes
  | [], _ => []
  | m :: ms, (value, rest) => putValue m.type (addString m.type value) :: putValues ms rest

/-- `insert_view::operator()` -/
def insertView (structName : Bytes) (members : List Member) (value : Record members) : Bytes :=
  textBytes "insert into " ++ structName ++ textBytes "(" ++
    [44].intercalate (members.map Member.name) ++ textBytes ") values(" ++
    [44].intercalate (putValues members value) ++ textBytes ")"

/-- The fold of `update_view::operator()` over the members: what stands in front of an
assignment is `set` for the first one and `and` for every other. -/
def putAssignments (lead : Bytes) : (members : List Member) → Record members → Bytes
  | [], _ => []
  | m :: ms, (value, rest) =>
      lead ++ m.name ++ textBytes " = " ++ putValue m.type (addString m.type value) ++
        putAssignments (textBytes " and ") ms rest

/-- `update_view::operator()` -/
def updateView (structName : Bytes) (members : List Member) (value : Record members) : Bytes :=
  textBytes "update " ++ structName ++ putAssignments (textBytes " set ") members value

end Aquarius
