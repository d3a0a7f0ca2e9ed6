import Aquarius.Library.SqlExpr
import Aquarius.TblViews

/-!
# What the Statements of `tbl` Mean

The texts of `insert_view` and `update_view`, read back by a server: cut into tokens by MySQL's
lexical rules, with backslash escapes and doubled quotes inside a literal, and parsed by the grammar
of the statement (`Sql.readInsert`, `Sql.readUpdate`).

`add_string` puts quotes around a string and escapes nothing, and `operator<<` writes an integer of
eight bits as a character. The first matters to both statements; `update_view` also puts `and` between
its assignments, which the grammar takes for the operator.

## Main results

* `readInsert_insertView_iff`: an `insert` denotes its record exactly when every string in it is
  verbatim and no integer has eight bits.
* `readUpdate_updateView_iff`: an `update` of integers assigns every member exactly when there is one
  member, of more than eight bits.
-/

open Decoding

namespace Aquarius

/-! ### Members and their values -/

/-- A value of some member. -/
abbrev Field := (t : ColumnType) × t.Val

/-- What is written for a member. -/
def Field.text (f : Field) : Bytes := putValue f.1 (addString f.1 f.2)

/-- The number that an integer type holds. -/
def integerValue (signed : Bool) {w : ℕ} (v : BitVec w) : ℤ := if signed then v.toInt else v.toNat

/-- The value that a member holds, as a value of SQL. -/
def Field.value : Field → Sql.Value
  | ⟨.string, s⟩ => .text s
  | ⟨.integer signed _, v⟩ => .integer (integerValue signed v)

/-- What is written for a member is read as its value: a string when it is verbatim, an integer
when it is not written as a character. -/
def Field.Readable : Field → Prop
  | ⟨.string, s⟩ => verbatim s = true
  | ⟨.integer _ width, _⟩ => width ≠ .w8

instance (f : Field) : Decidable f.Readable :=
  match f with
  | ⟨.string, s⟩ => inferInstanceAs (Decidable (verbatim s = true))
  | ⟨.integer _ width, _⟩ => inferInstanceAs (Decidable (width ≠ .w8))

/-- The members of an aggregate, as values. -/
def fields : (members : List Member) → Record members → List Field
  | [], _ => []
  | m :: ms, (value, rest) => ⟨m.type, value⟩ :: fields ms rest

theorem putValues_eq (members : List Member) (value : Record members) :
    putValues members value = (fields members value).map Field.text := by
  induction members with
  | nil => rfl
  | cons m ms ih =>
      obtain ⟨v, rest⟩ := value
      rw [putValues, fields, List.map_cons, ih rest]
      rfl

/-! ### One member -/

/-- The tokens of a value. -/
def valueTokens : Sql.Value → List Sql.Token
  | .integer v => Sql.integerTokens v
  | .text s => [.text s]

/-- A value is read from its tokens. -/
theorem literal_valueTokens (v : Sql.Value) (rest : List Sql.Token) :
    Sql.literal (valueTokens v ++ rest) = some (v, rest) := by
  cases v with
  | text s => rfl
  | integer v =>
      rw [valueTokens, Sql.integerTokens]
      split
      · rw [List.cons_append, List.singleton_append, Sql.literal]
        congr 3
        omega
      · rw [List.singleton_append, Sql.literal]
        congr 3
        omega

/-- An integer of more than eight bits is written as a number. -/
theorem text_integer {signed : Bool} {width : IntWidth} (hw : width ≠ .w8)
    (v : (ColumnType.integer signed width).Val) :
    Field.text ⟨.integer signed width, v⟩ =
      integerText (integerValue signed (v : BitVec width.bits)) := by
  cases signed <;> cases width <;> first | exact absurd rfl hw | rfl

/-- A readable member is one value. -/
theorem tokens_text {f : Field} (hf : f.Readable) {t : Bytes} (ht : Sql.Apart t) :
    Sql.tokens (f.text ++ t) = (Sql.tokens t).map (valueTokens f.value ++ ·) := by
  match f, hf with
  | ⟨.string, s⟩, hf => exact Sql.tokens_quoted_of_verbatim hf ht
  | ⟨.integer signed width, v⟩, hf =>
      rw [text_integer hf v]
      exact Sql.tokens_integerText _ ht

/-- No integer of this value stands in front. -/
def NoInteger (v : ℤ) (ts : List Sql.Token) : Prop :=
  (∀ (n : ℕ) rest, ts = .number n :: rest → v ≠ n) ∧
    ∀ (n : ℕ) rest, ts = .minus :: .number n :: rest → v ≠ -n

/-- What may stand behind a value: a comma, a closing parenthesis, `and`, or nothing. -/
def Closes (t : Bytes) : Prop :=
  Sql.Apart t ∧ ∀ ts, Sql.tokens t = some ts →
    ∀ tok ∈ ts.head?, tok = .comma ∨ tok = .rparen ∨ tok = .and

private theorem readDigits_of_ends {t : Bytes} (ht : Sql.Ends isDigit t) (acc : ℕ) :
    readDigits acc t = (acc, t) := by
  cases t with
  | nil => rfl
  | cons b t => rw [readDigits, if_neg (by simp [ht b rfl])]

/-- The numbers that a byte holds. -/
def Holds (b : UInt8) (v : ℤ) : Prop := v = b.toNat ∨ 128 ≤ b.toNat ∧ v = b.toNat - 256

/-- The numeral of a digit is not the code of the digit. -/
private theorem noInteger_digit {b : UInt8} {v : ℤ} (hv : Holds b v) (hb : isDigit b = true)
    (ts : List Sql.Token) : NoInteger v (.number (b.toNat - 48) :: ts) := by
  rw [isDigit, Bool.and_eq_true, decide_eq_true_eq, decide_eq_true_eq] at hb
  have hlow : 48 ≤ b.toNat := UInt8.le_iff_toNat_le.mp hb.1
  have hhigh : b.toNat ≤ 57 := UInt8.le_iff_toNat_le.mp hb.2
  refine ⟨fun n rest h => ?_, fun n rest h => ?_⟩
  · obtain ⟨hn, -⟩ := List.cons.inj h
    have hn := Sql.Token.number.inj hn
    rcases hv with rfl | ⟨hbig, -⟩
    · omega
    · omega
  · cases h

/-- A symbol is no number, and the code of the minus is not negative. -/
private theorem noInteger_symbol {b : UInt8} {v : ℤ} (hv : Holds b v) {t : Bytes}
    {r : Sql.Token × Bytes} (hr : Sql.symbolToken b t = some r) (ts : List Sql.Token) :
    NoInteger v (r.1 :: ts) := by
  unfold Sql.symbolToken at hr
  split at hr
  case h_6 =>
      obtain rfl := Option.some.inj hr
      refine ⟨fun n rest h => ?_, fun n rest h => ?_⟩
      · cases h
      · rcases hv with rfl | ⟨hbig, -⟩
        · have hcode : (45 : UInt8).toNat = 45 := rfl
          omega
        · exact absurd hbig (by decide)
  all_goals
    cases hr
  all_goals
    refine ⟨fun n rest h => ?_, fun n rest h => ?_⟩ <;> cases h

/-- **An integer of eight bits is not read back**: its character is no number, or the numeral of
another one. -/
theorem noInteger_byte {b : UInt8} {v : ℤ} (hv : Holds b v) {t : Bytes} (ht : Closes t)
    {ts : List Sql.Token} (hts : Sql.tokens (b :: t) = some ts) : NoInteger v ts := by
  by_cases hspace : isSpace b = true
  · rw [Sql.tokens_space hspace] at hts
    have hhead := ht.2 ts hts
    refine ⟨fun n rest h => ?_, fun n rest h => ?_⟩ <;>
      · subst h
        rcases hhead _ rfl with h | h | h <;> cases h
  · rw [Sql.tokens_cons (by simpa using hspace), Option.bind_eq_some_iff] at hts
    obtain ⟨r, hr, hrest⟩ := hts
    obtain ⟨us, -, rfl⟩ := Option.map_eq_some_iff.mp hrest
    unfold Sql.nextToken at hr
    split_ifs at hr with hdigit hname hquote
    · obtain rfl := Option.some.inj hr
      have hread : readDigits 0 (b :: t) = (b.toNat - 48, t) := by
        rw [readDigits, if_pos hdigit, readDigits_of_ends ht.1.digit]
        simp
      rw [hread]
      exact noInteger_digit hv hdigit us
    · obtain rfl := Option.some.inj hr
      refine ⟨fun n rest h => ?_, fun n rest h => ?_⟩ <;>
        · have hword := (List.cons.inj h).1
          simp only [Sql.wordToken] at hword
          split_ifs at hword
    · obtain ⟨q, -, rfl⟩ := Option.map_eq_some_iff.mp hr
      refine ⟨fun n rest h => ?_, fun n rest h => ?_⟩ <;> cases h
    · exact noInteger_symbol hv hr us

/-- A literal that is a string is its token. -/
private theorem literal_eq_text {ts rest : List Sql.Token} {s : Bytes}
    (h : Sql.literal ts = some (.text s, rest)) : ts = .text s :: rest := by
  unfold Sql.literal at h
  split at h <;> cases h
  rfl

/-- A literal that is an integer is a number or a negated one. -/
private theorem literal_ne_integer {ts rest : List Sql.Token} {v : ℤ} (hv : NoInteger v ts) :
    Sql.literal ts ≠ some (.integer v, rest) := by
  intro h
  unfold Sql.literal at h
  split at h <;> cases h
  · exact hv.1 _ _ rfl rfl
  · exact hv.2 _ _ rfl rfl

/-- The character of an integer of eight bits holds its number. -/
theorem holds_integerValue (signed : Bool) (v : BitVec 8) :
    Holds (UInt8.ofBitVec v) (integerValue signed v) := by
  have hbyte : (UInt8.ofBitVec v).toNat = v.toNat := rfl
  have hint := BitVec.toInt_eq_toNat_cond v
  cases signed with
  | false => exact .inl rfl
  | true =>
      rw [Holds, hbyte]
      change v.toInt = _ ∨ _ ∧ v.toInt = _
      split at hint <;> omega

/-- A member that is not readable is not read as its value. -/
theorem readable_of_literal {f : Field} {t : Bytes} (ht : Closes t) {ts rest : List Sql.Token}
    (hts : Sql.tokens (f.text ++ t) = some ts) (h : Sql.literal ts = some (f.value, rest)) :
    f.Readable := by
  match f with
  | ⟨.string, s⟩ =>
      by_contra hs
      rw [literal_eq_text h] at hts
      exact Sql.tokens_quoted_of_not_verbatim hs ht.1 hts
  | ⟨.integer signed width, v⟩ =>
      rintro rfl
      have hbyte : Field.text ⟨.integer signed .w8, v⟩ = [UInt8.ofBitVec (v : BitVec 8)] := by
        cases signed <;> rfl
      rw [hbyte, List.singleton_append] at hts
      exact literal_ne_integer (noInteger_byte (holds_integerValue signed v) ht hts) h

/-! ### Rows -/

/-- What stands behind a value of a row. -/
theorem closes_commaTail (fs : List Field) :
    Closes (fs.flatMap (fun f => 44 :: f.text) ++ [41]) := by
  refine ⟨Sql.apart_commaTail fs (Sql.apart_cons (by decide) []), fun ts hts tok htok => ?_⟩
  cases fs with
  | nil =>
      obtain rfl := Option.some.inj hts
      cases htok
      exact .inr (.inl rfl)
  | cons f fs =>
      rw [List.flatMap_cons, List.cons_append, List.cons_append, Sql.tokens_comma] at hts
      obtain ⟨us, -, rfl⟩ := Option.map_eq_some_iff.mp hts
      cases htok
      exact .inl rfl

/-- A row that is read as its values has readable members only. Induction on the row: a member that
is readable is taken off with its comma. -/
theorem readable_of_sepRest {fs : List Field} {n : ℕ} {ts : List Sql.Token}
    (hts : Sql.tokens (fs.flatMap (fun f => 44 :: f.text) ++ [41]) = some ts)
    (h : Sql.sepRest Sql.literal n ts = some (fs.map Field.value, [.rparen])) :
    ∀ f ∈ fs, f.Readable := by
  induction fs generalizing n ts with
  | nil => exact fun f hf => nomatch hf
  | cons f fs ih =>
      rw [List.flatMap_cons, List.cons_append, List.cons_append, List.append_assoc,
        Sql.tokens_comma] at hts
      obtain ⟨us, hus, rfl⟩ := Option.map_eq_some_iff.mp hts
      cases n with
      | zero => cases h
      | succ n =>
          rw [Sql.sepRest, Option.bind_eq_some_iff] at h
          obtain ⟨⟨v, rest⟩, hv, hrest⟩ := h
          obtain ⟨⟨vs, rest'⟩, hvs, hcons⟩ := Option.map_eq_some_iff.mp hrest
          obtain ⟨hlist, rfl⟩ := Prod.mk.inj hcons
          obtain ⟨rfl, rfl⟩ := List.cons.inj hlist
          have hf := readable_of_literal (closes_commaTail fs) hus hv
          rw [tokens_text hf (closes_commaTail fs).1] at hus
          obtain ⟨ws, hws, rfl⟩ := Option.map_eq_some_iff.mp hus
          rw [literal_valueTokens] at hv
          obtain ⟨-, rfl⟩ := Prod.mk.inj (Option.some.inj hv)
          exact List.forall_mem_cons.mpr ⟨hf, ih hws hvs⟩

/-- A row in parentheses, as `insert_view` writes it behind the opening one. -/
def rowText (fs : List Field) : Bytes := [44].intercalate (fs.map Field.text) ++ [41]

/-- **A row is read as its values** exactly when every member is readable. -/
theorem parenthesised_rowText_iff (fs : List Field) :
    ((Sql.tokens (rowText fs)).bind fun ts =>
        Sql.parenthesised Sql.literal (.lparen :: ts)) = some (fs.map Field.value, []) ↔
      ∀ f ∈ fs, f.Readable := by
  cases fs with
  | nil => exact ⟨fun _ f hf => (nomatch hf), fun _ => rfl⟩
  | cons f fs =>
      have hclose := closes_commaTail fs
      rw [rowText, Sql.intercalate_comma, List.append_assoc, Option.bind_eq_some_iff]
      constructor
      · rintro ⟨ts, hts, h⟩
        rw [List.map_cons, Sql.parenthesised_eq_cons_iff fun _ => rfl, ← List.map_cons] at h
        -- the first member is like any other with a comma in front of it
        obtain ⟨r, hr, hrest⟩ := Option.bind_eq_some_iff.mp h
        have htokens : Sql.tokens ((f :: fs).flatMap (fun f => 44 :: f.text) ++ [41]) =
            some (.comma :: ts) := by
          rw [List.flatMap_cons, List.cons_append, List.cons_append, List.append_assoc,
            Sql.tokens_comma, hts]
          rfl
        have hread : Sql.sepRest Sql.literal (r.2.length + 1) (.comma :: ts) =
            some ((f :: fs).map Field.value, [.rparen]) := by
          rw [Sql.sepRest, hr, Option.bind_some, hrest]
        exact readable_of_sepRest htokens hread
      · intro hf
        have hitem : ∀ g ∈ fs, ∀ t, Sql.Apart t →
            Sql.tokens (g.text ++ t) = (Sql.tokens t).map (valueTokens g.value ++ ·) :=
          fun g hg t ht => tokens_text (hf g (List.mem_cons_of_mem f hg)) ht
        refine ⟨valueTokens f.value ++
          (fs.flatMap (fun g => .comma :: valueTokens g.value) ++ [.rparen]), ?_, ?_⟩
        · rw [tokens_text (hf f List.mem_cons_self) hclose.1,
            Sql.tokens_commaTail hitem (Sql.apart_cons (by decide) [])]
          rfl
        · rw [List.map_cons, Sql.parenthesised_eq_cons_iff fun _ => rfl, ← List.map_cons]
          have hend : [Sql.Token.rparen].head? ≠ some .comma := by simp
          exact Sql.sepBy_eq (fun g => literal_valueTokens g.value) hend f fs

/-! ### Insert -/

/-- The tokens of the column names. -/
def columnTokens : List Bytes → List Sql.Token
  | [] => []
  | s :: names => .name s :: names.flatMap fun s => [.comma, .name s]

/-- The names are read back from their list. -/
theorem parenthesised_columnTokens (names : List Bytes) (rest : List Sql.Token) :
    Sql.parenthesised Sql.columnName (.lparen :: (columnTokens names ++ .rparen :: rest)) =
      some (names, rest) := by
  cases names with
  | nil => rfl
  | cons s names =>
      have hend : (Sql.Token.rparen :: rest).head? ≠ some .comma := by simp
      have hname : ∀ s rest, Sql.columnName ([.name s] ++ rest) = some (id s, rest) :=
        fun _ _ => rfl
      have hlist := Sql.sepBy_eq hname hend s names
      rw [List.map_id] at hlist
      exact (Sql.parenthesised_eq_cons_iff fun _ => rfl).mpr hlist

/-- The tokens of the names are those of their text. -/
theorem tokens_columns {names : List Bytes} (hnames : ∀ s ∈ names, Sql.Identifier s) {t : Bytes}
    (ht : Sql.Apart t) :
    Sql.tokens ([44].intercalate names ++ t) =
      (Sql.tokens t).map (columnTokens names ++ ·) := by
  cases names with
  | nil =>
      rw [List.intercalate_nil, List.nil_append]
      exact Option.map_id'.symm
  | cons s names =>
      have hitem : ∀ s ∈ names, ∀ t, Sql.Apart t →
          Sql.tokens (s ++ t) = (Sql.tokens t).map ([.name s] ++ ·) :=
        fun s hs t ht => Sql.tokens_identifier (hnames s (List.mem_cons_of_mem _ hs)) ht
      have hjoin : [44].intercalate ((s :: names).map fun s => s) =
          s ++ names.flatMap fun s => 44 :: s := Sql.intercalate_comma s names
      rw [List.map_id'] at hjoin
      rw [hjoin, List.append_assoc, Sql.tokens_identifier (hnames s List.mem_cons_self)
        (Sql.apart_commaTail names ht), Sql.tokens_commaTail hitem ht, Option.map_map]
      rfl

/-- What the server makes of an `insert`: all but the row is read as it is meant. -/
theorem readInsert_insertView {structName : Bytes} (hname : Sql.Identifier structName)
    {members : List Member} (hmembers : ∀ m ∈ members, Sql.Identifier m.name)
    (value : Record members) :
    Sql.readInsert (insertView structName members value) =
      ((Sql.tokens (rowText (fields members value))).bind fun ts =>
        Sql.parenthesised Sql.literal (.lparen :: ts)).bind fun r =>
          if r.2 = [] then some (structName, members.map Member.name, r.1) else none := by
  have hnames : ∀ s ∈ members.map Member.name, Sql.Identifier s := by
    simpa using hmembers
  have hinsert : textBytes "insert into " = textBytes "insert" ++ 32 :: (textBytes "into" ++ [32]) :=
    rfl
  have hvalues : textBytes ") values(" = 41 :: 32 :: (textBytes "values" ++ [40]) := rfl
  have htokens : Sql.tokens (insertView structName members value) =
      (Sql.tokens (rowText (fields members value))).map fun ts =>
        .name (textBytes "insert") :: .name (textBytes "into") :: .name structName :: .lparen ::
          (columnTokens (members.map Member.name) ++
            .rparen :: .name (textBytes "values") :: .lparen :: ts) := by
    have hparen : ∀ t, Sql.Apart (40 :: t) := fun t => Sql.apart_cons (by decide) t
    have hclose : ∀ t, Sql.Apart (41 :: t) := fun t => Sql.apart_cons (by decide) t
    have hrow : [44].intercalate ((fields members value).map Field.text) ++ textBytes ")" =
        rowText (fields members value) := rfl
    have hopen : textBytes "(" = [40] := rfl
    rw [insertView, hinsert, hvalues, hopen, putValues_eq, List.append_assoc, hrow]
    simp only [List.append_assoc, List.cons_append, List.nil_append]
    rw [Sql.tokens_identifier_space (by decide), Sql.tokens_identifier_space (by decide),
      Sql.tokens_identifier hname (hparen _), Sql.tokens_lparen, tokens_columns hnames (hclose _),
      Sql.tokens_rparen, Sql.tokens_space (by decide), Sql.tokens_identifier (by decide) (hparen _),
      Sql.tokens_lparen]
    simp only [Option.map_map]
    rfl
  rw [Sql.readInsert, htokens]
  cases Sql.tokens (rowText (fields members value)) with
  | none => rfl
  | some ts =>
      simp only [Option.bind_eq_bind, Option.map_some, Option.bind_some, Sql.keyword_self,
        Sql.columnName, parenthesised_columnTokens]

/-- The server reads a record that it can read member by member. -/
theorem readInsert_insertView_of_readable {structName : Bytes} (hname : Sql.Identifier structName)
    {members : List Member} (hmembers : ∀ m ∈ members, Sql.Identifier m.name)
    {value : Record members} (hreadable : ∀ f ∈ fields members value, f.Readable) :
    Sql.readInsert (insertView structName members value) =
      some (structName, members.map Member.name, (fields members value).map Field.value) := by
  rw [readInsert_insertView hname hmembers, (parenthesised_rowText_iff _).mpr hreadable]
  rfl

/-- **An `insert` denotes its record** exactly when every string in it is verbatim and no integer
has eight bits: the server then inserts into the table of the struct, under the names of the
members in order, exactly their values. -/
theorem readInsert_insertView_iff {structName : Bytes} (hname : Sql.Identifier structName)
    {members : List Member} (hmembers : ∀ m ∈ members, Sql.Identifier m.name)
    (value : Record members) :
    Sql.readInsert (insertView structName members value) =
        some (structName, members.map Member.name, (fields members value).map Field.value) ↔
      ∀ f ∈ fields members value, f.Readable := by
  constructor
  · rw [readInsert_insertView hname hmembers, ← parenthesised_rowText_iff, Option.bind_eq_some_iff]
    rintro ⟨⟨row, rest⟩, hrow, h⟩
    simp only at h
    split_ifs at h with hrest
    simp only [Option.some.injEq, Prod.mk.injEq, true_and] at h
    rw [hrow, hrest, h]
  · exact readInsert_insertView_of_readable hname hmembers

/-- The aggregate of the tests: a name and an age. -/
def personMembers : List Member :=
  [⟨textBytes "name", .string⟩, ⟨textBytes "age", .integer true .w32⟩]

/-- One person. -/
def person (name : Bytes) (age : BitVec 32) : Record personMembers := (name, age, ())

/-- The theorem at the record of the test. -/
theorem readInsert_insertView_alice :
    Sql.readInsert (insertView (textBytes "Person") personMembers (person (textBytes "alice") 30)) =
      some (textBytes "Person", [textBytes "name", textBytes "age"],
        [.text (textBytes "alice"), .integer 30]) :=
  (readInsert_insertView_iff (by decide) (by decide) (person (textBytes "alice") 30)).mpr (by decide)

/-- A quote in a name ends the literal early, and the server is given no row. -/
theorem not_readInsert_insertView_quote :
    Sql.readInsert (insertView (textBytes "Person") personMembers (person (textBytes "a\"b") 30)) =
        none ∧
      Sql.readInsert (insertView (textBytes "Person") personMembers (person (textBytes "a\"b") 30)) ≠
        some (textBytes "Person", personMembers.map Member.name,
          (fields personMembers (person (textBytes "a\"b") 30)).map Field.value) := by
  decide +kernel

/-! ### Update -/

/-- The expression that a value is. -/
def Field.expr (f : Field) : Sql.Expr :=
  match f.value with
  | .integer v => .integer v
  | .text s => .text s

/-- Every member set to its value. -/
def assignments : (members : List Member) → Record members → List (Bytes × Sql.Expr)
  | [], _ => []
  | m :: ms, (value, rest) => (m.name, Field.expr ⟨m.type, value⟩) :: assignments ms rest

/-- What the server makes of an `update`: it is up to the expression of the first assignment. -/
theorem readUpdate_updateView {structName : Bytes} (hname : Sql.Identifier structName) {m : Member}
    (hm : Sql.Identifier m.name) (ms : List Member) (value : Record (m :: ms)) :
    Sql.readUpdate (updateView structName (m :: ms) value) =
      (Sql.tokens (Field.text ⟨m.type, value.1⟩ ++
        putAssignments (textBytes " and ") ms value.2)).bind fun ts =>
          (Sql.sepBy Sql.assignment (.name m.name :: .compare .eq :: ts)).bind fun r =>
            if r.2 = [] then some (structName, r.1) else none := by
  obtain ⟨v, rest⟩ := value
  have hupdate : textBytes "update " = textBytes "update" ++ [32] := rfl
  have hset : textBytes " set " = 32 :: (textBytes "set" ++ [32]) := rfl
  have heq : textBytes " = " = 32 :: (Sql.Comparison.eq.text ++ [32]) := rfl
  have hview : updateView structName (m :: ms) (v, rest) =
      textBytes "update " ++ structName ++ (textBytes " set " ++ m.name ++ textBytes " = " ++
        Field.text ⟨m.type, v⟩ ++ putAssignments (textBytes " and ") ms rest) := rfl
  rw [Sql.readUpdate, hview, hupdate, hset, heq]
  simp only [List.append_assoc, List.cons_append, List.nil_append]
  rw [Sql.tokens_identifier_space (by decide), Sql.tokens_identifier_space hname,
    Sql.tokens_identifier_space (by decide), Sql.tokens_identifier_space hm, Sql.tokens_compare]
  cases Sql.tokens (Field.text ⟨m.type, v⟩ ++ putAssignments (textBytes " and ") ms rest) with
  | none => rfl
  | some ts =>
      simp only [Option.bind_eq_bind, Option.map_some, Option.bind_some, Sql.keyword_self,
        Sql.columnName]

/-- What stands behind a value of the list: nothing, or the `and` in front of the next one. -/
theorem closes_putAssignments (ms : List Member) (rest : Record ms) :
    Closes (putAssignments (textBytes " and ") ms rest) ∧
      (ms ≠ [] → ∀ ts, Sql.tokens (putAssignments (textBytes " and ") ms rest) = some ts →
        ts.head? = some .and) := by
  cases ms with
  | nil =>
      refine ⟨⟨Sql.apart_nil, fun ts hts tok htok => ?_⟩, fun h => absurd rfl h⟩
      obtain rfl := Option.some.inj hts
      cases htok
  | cons m ms =>
      obtain ⟨v, rest⟩ := rest
      have hand : textBytes " and " = 32 :: (textBytes "and" ++ [32]) := rfl
      have hword : Sql.wordToken (textBytes "and") = .and := if_pos rfl
      rw [putAssignments, hand]
      simp only [List.append_assoc, List.cons_append, List.nil_append]
      have hhead : ∀ t ts, Sql.tokens (32 :: (textBytes "and" ++ 32 :: t)) = some ts →
          ts.head? = some .and := by
        intro t ts hts
        rw [Sql.tokens_space (by decide), Sql.tokens_word (by decide) (Sql.apart_cons (by decide) t),
          hword] at hts
        obtain ⟨us, -, rfl⟩ := Option.map_eq_some_iff.mp hts
        rfl
      refine ⟨⟨Sql.apart_cons (by decide) _, fun ts hts tok htok => ?_⟩, fun _ ts hts => hhead _ ts hts⟩
      rw [hhead _ ts hts] at htok
      exact .inr (.inr (Option.some.inj htok).symm)

/-- Only the opening parenthesis is read as one. -/
theorem tokens_of_lparen {b : UInt8} {t : Bytes} (ht : Closes t) {us : List Sql.Token}
    (h : Sql.tokens (b :: t) = some (.lparen :: us)) : Sql.tokens t = some us := by
  by_cases hspace : isSpace b = true
  · rw [Sql.tokens_space hspace] at h
    rcases ht.2 _ h _ rfl with h | h | h <;> cases h
  · rw [Sql.tokens_cons (by simpa using hspace), Option.bind_eq_some_iff] at h
    obtain ⟨⟨tok, r⟩, hr, hrest⟩ := h
    obtain ⟨vs, hvs, hcons⟩ := Option.map_eq_some_iff.mp hrest
    obtain ⟨htok, rfl⟩ := List.cons.inj hcons
    obtain rfl : tok = .lparen := htok
    unfold Sql.nextToken at hr
    split_ifs at hr with hdigit hname hquote
    · cases hr
    · have hword := (Prod.mk.inj (Option.some.inj hr)).1
      simp only [Sql.wordToken] at hword
      split_ifs at hword
    · obtain ⟨q, -, hq⟩ := Option.map_eq_some_iff.mp hr
      cases hq
    · unfold Sql.symbolToken at hr
      split at hr <;> cases hr
      exact hvs

/-- No expression starts with what may stand behind a value. -/
theorem levels_ne_of_closes {t : Bytes} (ht : Closes t) {ts rest : List Sql.Token}
    (hts : Sql.tokens t = some ts) (k : ℕ) (v : ℤ) :
    Sql.levels (Sql.primary k) ts ≠ some (.integer v, rest) := by
  intro h
  have hhead := ht.2 ts hts
  rcases Sql.primary_integer (Sql.levels_integer h).1 with
    ⟨n, rfl, -⟩ | ⟨n, rfl, -⟩ | ⟨us, j, rfl, -⟩ <;>
  · rcases hhead _ rfl with h | h | h <;> cases h

/-- **The first assignment sets its member's value** only if the value is written as a number and
no further member follows. -/
theorem readable_of_expression {signed : Bool} {width : IntWidth}
    (v : (ColumnType.integer signed width).Val) {ms : List Member} {rest : Record ms}
    {ts us : List Sql.Token}
    (hts : Sql.tokens (Field.text ⟨.integer signed width, v⟩ ++
      putAssignments (textBytes " and ") ms rest) = some ts)
    (h : Sql.expression ts = some (Field.expr ⟨.integer signed width, v⟩, us)) :
    width ≠ .w8 ∧ ms = [] := by
  obtain ⟨hclose, hand⟩ := closes_putAssignments ms rest
  obtain ⟨hprimary, hfollows⟩ := Sql.levels_integer h
  have hwidth : width ≠ .w8 := by
    rintro rfl
    have hbyte : Field.text ⟨.integer signed .w8, v⟩ = [UInt8.ofBitVec (v : BitVec 8)] := by
      cases signed <;> rfl
    rw [hbyte, List.singleton_append] at hts
    have hno := noInteger_byte (holds_integerValue signed v) hclose hts
    rcases Sql.primary_integer hprimary with ⟨n, rfl, hn⟩ | ⟨n, rfl, hn⟩ | ⟨vs, k, rfl, hlevels⟩
    · exact hno.1 n us rfl hn
    · exact hno.2 n us rfl hn
    · exact levels_ne_of_closes hclose (tokens_of_lparen hclose hts) k _ hlevels
  refine ⟨hwidth, ?_⟩
  by_contra hms
  rw [tokens_text (f := ⟨.integer signed width, v⟩) hwidth hclose.1] at hts
  obtain ⟨vs, hvs, rfl⟩ := Option.map_eq_some_iff.mp hts
  obtain ⟨-, rfl⟩ := Sql.eq_of_primary_integerTokens hprimary
  exact absurd (hfollows .and (hand hms us hvs)) (by simp [Sql.andOp])

/-- One assignment of an integer. -/
theorem sepBy_assignment_single (s : Bytes) (v : ℤ) :
    Sql.sepBy Sql.assignment (.name s :: .compare .eq :: Sql.integerTokens v) =
      some ([(s, .integer v)], []) := by
  rw [Sql.sepBy, Sql.assignment, (Sql.opensOr_integer v).expression_eq]
  rfl

/-- An integer member, as an aggregate may have it. -/
def Member.IsInteger (m : Member) : Prop := ∃ signed width, m.type = .integer signed width

/-- **An `update` of integers assigns every member** exactly when there is one member, of more
than eight bits. Otherwise the server is given one assignment, of a condition on the others. -/
theorem readUpdate_updateView_iff {structName : Bytes} (hname : Sql.Identifier structName)
    {members : List Member} (hmembers : ∀ m ∈ members, Sql.Identifier m.name)
    (hinteger : ∀ m ∈ members, m.IsInteger) (hpos : members ≠ []) (value : Record members) :
    Sql.readUpdate (updateView structName members value) =
        some (structName, assignments members value) ↔
      members.length = 1 ∧ ∀ f ∈ fields members value, f.Readable := by
  obtain ⟨⟨name, type⟩, ms, rfl⟩ := List.exists_cons_of_ne_nil hpos
  obtain ⟨signed, width, htype⟩ := hinteger _ List.mem_cons_self
  obtain rfl : type = .integer signed width := htype
  rw [readUpdate_updateView hname (hmembers _ List.mem_cons_self)]
  obtain ⟨v, rest⟩ := value
  constructor
  · intro h
    obtain ⟨ts, hts, h⟩ := Option.bind_eq_some_iff.mp h
    obtain ⟨⟨list, us⟩, hlist, h⟩ := Option.bind_eq_some_iff.mp h
    split_ifs at h
    obtain rfl : list = _ := (Prod.mk.inj (Option.some.inj h)).2
    obtain ⟨⟨a, us'⟩, ha, htail⟩ := Option.bind_eq_some_iff.mp hlist
    obtain ⟨tail, -, hcons⟩ := Option.map_eq_some_iff.mp htail
    obtain ⟨rfl, -⟩ := List.cons.inj (Prod.mk.inj hcons).1
    obtain ⟨⟨e, us''⟩, he, hpair⟩ := Option.map_eq_some_iff.mp ha
    obtain rfl : e = _ := (Prod.mk.inj (Prod.mk.inj hpair).1).2
    obtain ⟨hwidth, rfl⟩ := readable_of_expression v hts he
    exact ⟨rfl, fun f hf => by
      obtain rfl := List.mem_singleton.mp hf
      exact hwidth⟩
  · rintro ⟨hlen, hreadable⟩
    obtain rfl : ms = [] := List.length_eq_zero_iff.mp (Nat.succ.inj hlen)
    have htokens := tokens_text (hreadable _ List.mem_cons_self) Sql.apart_nil
    change (Sql.tokens (Field.text ⟨.integer signed width, v⟩ ++ [])).bind _ = _
    rw [htokens]
    change (Sql.sepBy Sql.assignment (.name name :: .compare .eq ::
      (Sql.integerTokens (integerValue signed v) ++ []))).bind _ = _
    rw [List.append_nil, sepBy_assignment_single]
    rfl

/-- One number. -/
def counterMembers : List Member := [⟨textBytes "a", .integer true .w32⟩]

def counter (a : BitVec 32) : Record counterMembers := (a, ())

/-- Two numbers. -/
def pairMembers : List Member :=
  [⟨textBytes "a", .integer true .w32⟩, ⟨textBytes "b", .integer true .w32⟩]

def pair (a b : BitVec 32) : Record pairMembers := (a, b, ())

/-- The theorem at one number. -/
theorem readUpdate_updateView_counter :
    Sql.readUpdate (updateView (textBytes "T") counterMembers (counter 1)) =
      some (textBytes "T", [(textBytes "a", .integer 1)]) := by
  have hinteger : ∀ m ∈ counterMembers, m.IsInteger := by
    intro m hm
    obtain rfl := List.mem_singleton.mp hm
    exact ⟨true, .w32, rfl⟩
  exact (readUpdate_updateView_iff (by decide) (by decide) hinteger (by decide) (counter 1)).mpr
    (by decide)

/-- Two numbers: the first member is set to a condition on the second, which keeps its value. -/
theorem not_readUpdate_updateView_pair :
    Sql.readUpdate (updateView (textBytes "T") pairMembers (pair 1 2)) =
        some (textBytes "T", [(textBytes "a",
          .and (.integer 1) (.compare .eq (.column (textBytes "b")) (.integer 2)))]) ∧
      Sql.readUpdate (updateView (textBytes "T") pairMembers (pair 1 2)) ≠
        some (textBytes "T", assignments pairMembers (pair 1 2)) := by
  decide +kernel

end Aquarius
