import Aquarius.Library.Loop
import Aquarius.SchemaParser

/-!
# The Schema Parser Ends

The loops of the schema parser (`lazytool/schema.h`, `lazytool/schema.cpp`) have `while (!ifs.eof())`
for their only guard, and stand inside each other: `run` around the parsers of the declarations,
these around `parse_data_field`, and that around `read_value` and its `skip_space`. `run` and
`parse_data_field` go on after turns whose reads have failed.

They are written here turn by turn, at the level of `peek` and `get`, as loops that need not end
(`Loop.run`); the functions of the source are the same again with a bound `n` on the turns of each
loop, and `none` where a loop would go on. Read errors other than the end of the file are left out.

## Main results

* `progresses_skipSpaceTurn`, `progresses_readTurn`, `progresses_fieldsTurn`, `progresses_runTurn`:
  a turn of a loop ends, and takes a character or reaches the end of the file if it goes on.
* `run_ends`: **the parser ends on every text**, within two turns more than it has bytes, and
  returns what the total functions of the parser say.
-/

open Decoding

namespace Aquarius.Lazytool

/-! ### Words -/

/-- One turn of `skip_space`. -/
def skipSpaceTurn (s : CharStream) : CharStream ⊕ CharStream :=
  if s = .eof then .inr s
  else
    match s.peek with
    | (none, s) => .inr s
    | (some c, s) => if isSpace c then .inl s.get.2 else .inr s

/-- The character that `get` gives: `traits::eof` is the character `-1`. -/
def charOf (c : Option UInt8) : UInt8 := c.getD 255

/-- One turn of the loop of `read_value`, with the value so far. -/
def readTurn (token : Token) (ends : UInt8) :
    Bytes × CharStream → (Bytes × CharStream) ⊕ (Except Bool Bytes × CharStream)
  | (value, s) =>
      if s = .eof then .inr (.error false, s)
      else
        let c := charOf s.get.1
        if c = ends then .inr (.ok value, s.get.2)
        else if isSpace c then .inl (value, s.get.2)
        else if token.admits c then .inl (value ++ [c], s.get.2)
        else .inr (.error (c = 125), s.get.2)

/-- `read_value<token, ends>`, with at most `n` turns of each loop. -/
def readValueWithin (n : ℕ) (token : Token) (ends : UInt8) (s : CharStream) :
    Option (Except Bool Bytes × CharStream) := do
  let s ← Loop.run (fun s => some (skipSpaceTurn s)) n s
  Loop.run (fun state => some (readTurn token ends state)) n ([], s)

/-! ### Fields -/

/-- The type of a field in `parse_data_field`. -/
def readTypeWithin (n : ℕ) (s : CharStream) : Option (Except Bool Bytes × CharStream) := do
  match ← readValueWithin n .standard 32 s with
  | (.error e, s) => return (.error e, s)
  | (.ok type, s) =>
      if type = textBytes "repeated" then
        match ← readValueWithin n .standard 32 s with
        | (.error _, s) => return (.error false, s)
        | (.ok t, s) => return (.ok (textBytes "std::vector<" ++ t ++ textBytes ">"), s)
      else if type = textBytes "map" then
        match ← readValueWithin n .standard 44 s with
        | (.error _, s) => return (.error false, s)
        | (.ok key, s) =>
            match ← readValueWithin n .strict 32 s with
            | (.error _, s) => return (.error false, s)
            | (.ok value, s) =>
                return (.ok (textBytes "std::map<" ++ key ++ textBytes ", " ++ value ++
                  textBytes ">"), s)
      else return (.ok type, s)

/-- The type of an entry, which is left empty for an enumerator. -/
def entryTypeWithin (n : ℕ) (hasKey : Bool) (s : CharStream) :
    Option (Except Bool Bytes × CharStream) :=
  if hasKey then readTypeWithin n s else some (.ok [], s)

/-- One turn of the loop of `parse_data_field`, up to `add_field`. -/
def readEntryWithin (n : ℕ) (hasKey : Bool) (s : CharStream) :
    Option (Except Bool (Bytes × Bytes) × CharStream) := do
  match ← entryTypeWithin n hasKey s with
  | (.error e, s) => return (.error e, s)
  | (.ok type, s) =>
      match ← readValueWithin n .standard 59 s with
      | (.error e, s) => return (.error e, s)
      | (.ok value, s) => return (.ok (type, value), s)

/-- One turn of the loop of `parse_data_field`. -/
def fieldsTurn (n : ℕ) (hasKey : Bool) :
    FieldBase × CharStream →
      Option ((FieldBase × CharStream) ⊕ (Bool × FieldBase × CharStream))
  | (field, s) =>
      if s = .eof then some (.inr (true, field, s))
      else do
        match ← readEntryWithin n hasKey s with
        | (.error e, s) => return .inr (e, field, s)
        | (.ok (type, value), s) => return .inl (field.addField type value, s)

/-- `parse_data_field` -/
def parseDataFieldWithin (n : ℕ) (field : FieldBase) (anonymous hasKey : Bool) (s : CharStream) :
    Option (Bool × FieldBase × CharStream) :=
  if anonymous then Loop.run (fieldsTurn n hasKey) n (field, s)
  else do
    match ← readValueWithin n .standard 123 s with
    | (.error _, s) => return (false, field, s)
    | (.ok name, s) => Loop.run (fieldsTurn n hasKey) n ({ field with name := name }, s)

/-! ### Messages -/

/-- `parse_router` -/
def parseRouterWithin (n : ℕ) (s : CharStream) : Option (Option Bytes × CharStream) := do
  match ← readValueWithin n .standard 62 s with
  | (.error _, s) => return (none, s)
  | (.ok _, s) =>
      match ← readValueWithin n .loose 123 s with
      | (.error _, s) => return (none, s)
      | (.ok router, s) => return (some router, s)

/-- `read_protocol` into one part of the message. -/
def readProtocolWithin (n : ℕ) (field : FieldBase) (s : CharStream) :
    Option (Option FieldBase × CharStream) := do
  match ← readValueWithin n .strict 123 s with
  | (.error _, s) => return (none, s)
  | (.ok value, s) =>
      if value ≠ textBytes "request" ∧ value ≠ textBytes "response" then return (none, s)
      else
        match ← parseDataFieldWithin n field true true s with
        | (false, _, s) => return (none, s)
        | (true, field, s) => return (some field, s)

/-- `parse_message_field` -/
def parseMessageFieldWithin (n : ℕ) (s : CharStream) :
    Option (Option MessageField × CharStream) := do
  match ← readValueWithin n .standard 45 s with
  | (.error _, s) => return (none, s)
  | (.ok name, s) =>
      match ← parseRouterWithin n s with
      | (none, s) => return (none, s)
      | (some router, s) =>
          match ← readProtocolWithin n (bodyField .request name) s with
          | (none, s) => return (none, s)
          | (some request, s) =>
              match ← readProtocolWithin n (bodyField .response name) s with
              | (none, s) => return (none, s)
              | (some response, s) =>
                  return (some { name := name, router := router, request := request,
                                 response := response }, s)

/-! ### Declarations -/

/-- A structure or an enumeration. -/
def parseBlockWithin (n : ℕ) (type : StructType) (hasKey : Bool) (s : CharStream) :
    Option (Option SchemaField × CharStream) := do
  match ← parseDataFieldWithin n { type := type, name := [], fields := [] } false hasKey s with
  | (false, _, s) => return (none, s)
  | (true, field, s) => return (some (.field field), s)

/-- `invoke` and the function it finds. -/
def invokeWithin (n : ℕ) (keyword : Bytes) (s : CharStream) :
    Option (Option SchemaField × CharStream) :=
  if keyword = textBytes "message" then
    (parseMessageFieldWithin n s).map fun r => (r.1.map .message, r.2)
  else if keyword = textBytes "struct" then parseBlockWithin n .structure true s
  else if keyword = textBytes "enum" then parseBlockWithin n .enumture false s
  else some (none, s)

/-- One turn of the loop of `run`, with `fields_`. -/
def runTurn (n : ℕ) :
    List SchemaField × CharStream →
      Option ((List SchemaField × CharStream) ⊕ (List SchemaField × List SchemaField))
  | (fields, s) =>
      if s = .eof then some (.inr (fields, fields))
      else do
        match ← readValueWithin n .strict 32 s with
        | (.error _, s) => return .inl (fields, s)
        | (.ok keyword, s) =>
            match ← invokeWithin n keyword s with
            | (none, _) => return .inr ([], fields)
            | (some f, s) => return .inl (fields ++ [f], s)

/-- `schema::run`, with at most `n` turns of each loop. -/
def runWithin (n : ℕ) (schema : Schema) : Option Bytes → Option (List SchemaField × Schema)
  | none => some ([], schema)
  | some text =>
      (Loop.run (runTurn n) n (schema.fields, .good text)).map fun r => (r.1, { fields := r.2 })

/-! ### Words end -/

/-- What a turn of `skip_space` does: blanks are left to skip, or none are. -/
theorem computes_skipSpaceTurn (s : CharStream) :
    Loop.Computes (fun s => some (skipSpaceTurn s)) CharStream.size CharStream.skipSpace s := by
  cases s with
  | eof => exact .inl rfl
  | good rest =>
      cases rest with
      | nil => exact .inl rfl
      | cons b rest =>
          by_cases hb : isSpace b = true
          · refine .inr ⟨.good rest, ?_, Nat.lt_succ_self _, ?_⟩
            · simp [skipSpaceTurn, CharStream.peek, CharStream.get, hb]
            · rw [CharStream.skipSpace, CharStream.skipSpace, CharStream.skipBlanks, if_pos hb]
          · refine .inl ?_
            simp [skipSpaceTurn, CharStream.peek, CharStream.skipSpace, CharStream.skipBlanks, hb]

/-- The rest of a word, from the state of the loop. -/
def restOfWord (token : Token) (ends : UInt8) :
    Bytes × CharStream → Except Bool Bytes × CharStream
  | (_, .eof) => (.error false, .eof)
  | (value, .good rest) => readLoop token ends value rest

/-- A turn with a character left. -/
theorem readTurn_cons (token : Token) (ends : UInt8) (value : Bytes) (b : UInt8) (rest : Bytes) :
    readTurn token ends (value, .good (b :: rest)) =
      if b = ends then .inr (.ok value, .good rest)
      else if isSpace b then .inl (value, .good rest)
      else if token.admits b then .inl (value ++ [b], .good rest)
      else .inr (.error (b = 125), .good rest) := by
  rw [readTurn, if_neg CharStream.good_ne_eof]
  rfl

/-- A turn with no character left reads the character `-1`, which is no blank and no brace. -/
theorem readTurn_nil (token : Token) {ends : UInt8} (hends : ends ≠ 255) (value : Bytes) :
    readTurn token ends (value, .good []) =
      if token.admits 255 then .inl (value ++ [255], .eof) else .inr (.error false, .eof) := by
  rw [readTurn, if_neg CharStream.good_ne_eof]
  change (if (255 : UInt8) = ends then Sum.inr (Except.ok value, CharStream.eof)
    else if token.admits 255 then _ else _) = _
  rw [if_neg hends.symm]
  rfl

/-- What a turn of the loop of `read_value` does. -/
theorem computes_readTurn (token : Token) {ends : UInt8} (hends : ends ≠ 255)
    (state : Bytes × CharStream) :
    Loop.Computes (fun state => some (readTurn token ends state)) (fun state => state.2.size)
      (restOfWord token ends) state := by
  obtain ⟨value, s⟩ := state
  cases s with
  | eof => exact .inl rfl
  | good rest =>
      cases rest with
      | nil =>
          rw [Loop.Computes, readTurn_nil token hends]
          by_cases hadmits : token.admits 255 = true
          · rw [if_pos hadmits]
            exact .inr ⟨_, rfl, Nat.zero_lt_one, rfl⟩
          · rw [if_neg hadmits]
            exact .inl rfl
      | cons b rest =>
          rw [Loop.Computes, readTurn_cons, restOfWord, readLoop]
          by_cases hb : b = ends
          · rw [if_pos hb, if_pos hb]
            exact .inl rfl
          · rw [if_neg hb, if_neg hb]
            by_cases hspace : isSpace b = true
            · rw [if_pos hspace, if_pos hspace]
              exact .inr ⟨_, rfl, Nat.lt_succ_self _, rfl⟩
            · rw [if_neg hspace, if_neg hspace]
              by_cases hadmits : token.admits b = true
              · rw [if_pos hadmits, if_pos hadmits]
                exact .inr ⟨_, rfl, Nat.lt_succ_self _, rfl⟩
              · rw [if_neg hadmits, if_neg hadmits]
                exact .inl rfl

/-- **A word ends.** -/
theorem readValueWithin_eq (token : Token) (ends : UInt8) (hends : ends ≠ 255) {n : ℕ}
    {s : CharStream} (hs : s.size < n) :
    readValueWithin n token ends s = some (readValue token ends s) := by
  have hskip : Loop.run (fun s => some (skipSpaceTurn s)) n s = some s.skipSpace :=
    Loop.run_eq_some (fun s _ => computes_skipSpaceTurn s) hs
  have hsize : (([], s.skipSpace) : Bytes × CharStream).2.size < n :=
    s.size_skipSpace_le.trans_lt hs
  rw [readValueWithin, hskip]
  change Loop.run (fun state => some (readTurn token ends state)) n ([], s.skipSpace) = _
  rw [Loop.run_eq_some (fun state _ => computes_readTurn token hends state) hsize, readValue]
  cases s.skipSpace with
  | eof => rfl
  | good rest => rfl

/-! ### Fields end -/

/-- The type of a field ends. -/
theorem readTypeWithin_eq {n : ℕ} {s : CharStream} (hs : s.size < n) :
    readTypeWithin n s = some (readType s) := by
  rw [readTypeWithin, readValueWithin_eq .standard 32 (by decide) hs, readType]
  rcases hread : readValue .standard 32 s with ⟨e | type, s₁⟩
  · rfl
  · have hs₁ : s₁.size < n := (size_le_of_readValue hread).trans_lt hs
    have helement := readValueWithin_eq .standard 32 (by decide) hs₁
    have hkey := readValueWithin_eq .standard 44 (by decide) hs₁
    simp only [Option.bind_eq_bind, Option.bind_some, helement, hkey]
    split_ifs
    · rcases readValue .standard 32 s₁ with ⟨e | t, s₂⟩
      · rfl
      · rfl
    · rcases hmap : readValue .standard 44 s₁ with ⟨e | key, s₂⟩
      · rfl
      · have hs₂ : s₂.size < n := (size_le_of_readValue hmap).trans_lt hs₁
        have hvalue := readValueWithin_eq .strict 32 (by decide) hs₂
        simp only [hvalue, Option.bind_some]
        rcases readValue .strict 32 s₂ with ⟨e | value, s₃⟩
        · rfl
        · rfl
    · rfl

/-- An entry ends. -/
theorem readEntryWithin_eq (hasKey : Bool) {n : ℕ} {s : CharStream} (hs : s.size < n) :
    readEntryWithin n hasKey s = some (readEntry hasKey s) := by
  have htype : entryTypeWithin n hasKey s =
      some (if hasKey then readType s else (.ok [], s)) := by
    rw [entryTypeWithin, readTypeWithin_eq hs]
    split_ifs
    · rfl
    · rfl
  have hsize : (if hasKey then readType s else (.ok [], s)).2.size < n := by
    split_ifs
    · exact (size_le_of_readType rfl).trans_lt hs
    · exact hs
  rw [readEntryWithin, htype, readEntry]
  rcases hread : (if hasKey then readType s else (.ok [], s)) with ⟨e | type, s₁⟩
  · rfl
  · rw [hread] at hsize
    simp only [Option.bind_eq_bind, Option.bind_some,
      readValueWithin_eq .standard 59 (by decide) hsize]
    rcases readValue .standard 59 s₁ with ⟨e | value, s₂⟩
    · rfl
    · rfl

/-- The loop of `parse_data_field` from one of its states. -/
def fieldsFrom (hasKey : Bool) (state : FieldBase × CharStream) : Bool × FieldBase × CharStream :=
  parseFields hasKey state.1 state.2

/-- What a turn of the loop of `parse_data_field` does. -/
theorem computes_fieldsTurn (hasKey : Bool) {n : ℕ} (state : FieldBase × CharStream)
    (hs : state.2.size < n) :
    Loop.Computes (fieldsTurn n hasKey) (fun state => state.2.size) (fieldsFrom hasKey) state := by
  obtain ⟨field, s⟩ := state
  rw [Loop.Computes, fieldsTurn, fieldsFrom, parseFields]
  by_cases heof : s = .eof
  · rw [if_pos heof, if_pos heof]
    exact .inl rfl
  · rw [if_neg heof, if_neg heof, readEntryWithin_eq hasKey hs]
    rcases hread : readEntry hasKey s with ⟨e | ⟨type, value⟩, s₁⟩
    · exact .inl rfl
    · exact .inr ⟨_, rfl, size_lt_of_readEntry_ok hread, rfl⟩

/-- The loop of `parse_data_field` ends. -/
theorem fieldsLoop_eq (hasKey : Bool) (field : FieldBase) {n : ℕ} {s : CharStream}
    (hs : s.size < n) :
    Loop.run (fieldsTurn n hasKey) n (field, s) = some (parseFields hasKey field s) :=
  Loop.run_eq_some (fun state hstate => computes_fieldsTurn hasKey state hstate) hs

/-- A block ends. -/
theorem parseDataFieldWithin_eq (field : FieldBase) (anonymous hasKey : Bool) {n : ℕ}
    {s : CharStream} (hs : s.size < n) :
    parseDataFieldWithin n field anonymous hasKey s =
      some (parseDataField field anonymous hasKey s) := by
  rw [parseDataFieldWithin, parseDataField, fieldsLoop_eq hasKey field hs,
    readValueWithin_eq .standard 123 (by decide) hs]
  split_ifs
  · rfl
  · rcases hread : readValue .standard 123 s with ⟨e | name, s₁⟩
    · rfl
    · exact fieldsLoop_eq hasKey _ ((size_le_of_readValue hread).trans_lt hs)

/-! ### Declarations end -/

/-- A router ends. -/
theorem parseRouterWithin_eq {n : ℕ} {s : CharStream} (hs : s.size < n) :
    parseRouterWithin n s = some (parseRouter s) := by
  rw [parseRouterWithin, readValueWithin_eq .standard 62 (by decide) hs, parseRouter]
  rcases hread : readValue .standard 62 s with ⟨e | skipped, s₁⟩
  · rfl
  · have hs₁ : s₁.size < n := (size_le_of_readValue hread).trans_lt hs
    simp only [Option.bind_eq_bind, Option.bind_some,
      readValueWithin_eq .loose 123 (by decide) hs₁]
    rcases readValue .loose 123 s₁ with ⟨e | router, s₂⟩
    · rfl
    · rfl

/-- A part of a message ends. -/
theorem readProtocolWithin_eq (field : FieldBase) {n : ℕ} {s : CharStream} (hs : s.size < n) :
    readProtocolWithin n field s = some (readProtocol field s) := by
  rw [readProtocolWithin, readValueWithin_eq .strict 123 (by decide) hs, readProtocol]
  rcases hread : readValue .strict 123 s with ⟨e | value, s₁⟩
  · rfl
  · have hs₁ : s₁.size < n := (size_le_of_readValue hread).trans_lt hs
    simp only [Option.bind_eq_bind, Option.bind_some, parseDataFieldWithin_eq field true true hs₁]
    split_ifs
    · rfl
    · rcases parseDataField field true true s₁ with ⟨_ | _, field', s₂⟩
      · rfl
      · rfl

/-- A message ends. -/
theorem parseMessageFieldWithin_eq {n : ℕ} {s : CharStream} (hs : s.size < n) :
    parseMessageFieldWithin n s = some (parseMessageField s) := by
  rw [parseMessageFieldWithin, readValueWithin_eq .standard 45 (by decide) hs, parseMessageField]
  rcases hread : readValue .standard 45 s with ⟨e | name, s₁⟩
  · rfl
  · have hs₁ : s₁.size < n := (size_le_of_readValue hread).trans_lt hs
    simp only [Option.bind_eq_bind, Option.bind_some, parseRouterWithin_eq hs₁]
    rcases hrouter : parseRouter s₁ with ⟨_ | router, s₂⟩
    · rfl
    · have hs₂ : s₂.size < n := (size_le_of_parseRouter hrouter).trans_lt hs₁
      simp only [Option.bind_some, readProtocolWithin_eq (bodyField .request name) hs₂]
      rcases hrequest : readProtocol (bodyField .request name) s₂ with ⟨_ | request, s₃⟩
      · rfl
      · have hs₃ : s₃.size < n := (size_le_of_readProtocol hrequest).trans_lt hs₂
        simp only [Option.bind_some, readProtocolWithin_eq (bodyField .response name) hs₃]
        rcases readProtocol (bodyField .response name) s₃ with ⟨_ | response, s₄⟩
        · rfl
        · rfl

/-- A structure or an enumeration ends. -/
theorem parseBlockWithin_eq (type : StructType) (hasKey : Bool) {n : ℕ} {s : CharStream}
    (hs : s.size < n) : parseBlockWithin n type hasKey s = some (parseBlock type hasKey s) := by
  rw [parseBlockWithin, parseDataFieldWithin_eq _ false hasKey hs, parseBlock]
  rcases parseDataField { type := type, name := [], fields := [] } false hasKey s with
    ⟨_ | _, field, s₁⟩
  · rfl
  · rfl

/-- A declaration ends. -/
theorem invokeWithin_eq (keyword : Bytes) {n : ℕ} {s : CharStream} (hs : s.size < n) :
    invokeWithin n keyword s = some (invoke keyword s) := by
  rw [invokeWithin, invoke, parseMessageFieldWithin_eq hs, parseBlockWithin_eq .structure true hs,
    parseBlockWithin_eq .enumture false hs]
  split_ifs
  · rfl
  · rfl
  · rfl
  · rfl

/-- The loop of `run` from one of its states. -/
def runFrom (state : List SchemaField × CharStream) : List SchemaField × List SchemaField :=
  runLoop state.1 state.2

/-- A turn that throws. -/
theorem runLoop_thrown {fields : List SchemaField} {rest keyword : Bytes} {s s' : CharStream}
    (hread : readValue .strict 32 (.good rest) = (.ok keyword, s))
    (hinvoke : invoke keyword s = (none, s')) : runLoop fields (.good rest) = ([], fields) := by
  rw [runLoop_eq_declarations, declarations_of_keyword CharStream.good_ne_eof hread, hinvoke]
  simp

/-- What a turn of the loop of `run` does: the word takes a character even when it is no keyword. -/
theorem computes_runTurn {n : ℕ} (state : List SchemaField × CharStream)
    (hs : state.2.size < n) :
    Loop.Computes (runTurn n) (fun state => state.2.size) runFrom state := by
  obtain ⟨fields, s⟩ := state
  rw [Loop.Computes, runTurn, runFrom]
  cases s with
  | eof =>
      rw [if_pos rfl, runLoop_eof]
      exact .inl rfl
  | good rest =>
      have hgood : CharStream.good rest ≠ .eof := CharStream.good_ne_eof
      have htaken := size_readValue_lt .strict 32 hgood
      rw [if_neg hgood, readValueWithin_eq .strict 32 (by decide) hs]
      rcases hread : readValue .strict 32 (.good rest) with ⟨e | keyword, s₁⟩
      · rw [hread] at htaken
        exact .inr ⟨_, rfl, htaken, (runLoop_skip hread).symm⟩
      · rw [hread] at htaken
        simp only [Option.bind_eq_bind, Option.bind_some, invokeWithin_eq keyword (htaken.trans hs)]
        rcases hinvoke : invoke keyword s₁ with ⟨_ | f, s₂⟩
        · rw [runLoop_thrown hread hinvoke]
          exact .inl rfl
        · exact .inr ⟨_, rfl, (size_le_of_invoke hinvoke).trans_lt htaken,
            (runLoop_declared hread hinvoke).symm⟩

/-! ### The parser ends -/

/-- A loop makes progress: a turn ends, given room for the loops inside, and takes a character or
reaches the end of the file when the loop goes on. -/
structure Progresses {σ ρ : Type} (turn : ℕ → σ → Option (σ ⊕ ρ)) (stream : σ → CharStream) :
    Prop where
  ends : ∀ s extra, (turn ((stream s).size + 1 + extra) s).isSome
  advances : ∀ s extra s', turn ((stream s).size + 1 + extra) s = some (.inl s') →
    (stream s).Advances (stream s')

/-- A loop that computes a function with the size of its stream for a variant makes progress. -/
theorem progresses_of_computes {σ ρ : Type} {turn : ℕ → σ → Option (σ ⊕ ρ)}
    {stream : σ → CharStream} {f : σ → ρ}
    (h : ∀ n s, (stream s).size < n → Loop.Computes (turn n) (fun s => (stream s).size) f s) :
    Progresses turn stream := by
  constructor
  · intro s extra
    rcases h ((stream s).size + 1 + extra) s (by omega) with hleave | ⟨s', hgo, -, -⟩
    · rw [hleave]
      rfl
    · rw [hgo]
      rfl
  · intro s extra s' hs'
    rw [CharStream.advances_iff]
    rcases h ((stream s).size + 1 + extra) s (by omega) with hleave | ⟨s'', hgo, hsmaller, -⟩
    · rw [hleave] at hs'
      cases hs'
    · rw [hgo] at hs'
      obtain rfl := Sum.inl.inj (Option.some.inj hs')
      exact hsmaller

/-- A turn of `skip_space` makes progress. -/
theorem progresses_skipSpaceTurn : Progresses (fun _ s => some (skipSpaceTurn s)) id :=
  progresses_of_computes fun _ s _ => computes_skipSpaceTurn s

/-- A turn of the loop of `read_value` makes progress, with every terminator: it gets a character
unless the end has been reached. -/
theorem progresses_readTurn (token : Token) (ends : UInt8) :
    Progresses (fun _ state => some (readTurn token ends state)) Prod.snd := by
  refine ⟨fun _ _ => rfl, fun state extra state' h => ?_⟩
  obtain ⟨value, s⟩ := state
  have hturn := Option.some.inj h
  simp only [readTurn] at hturn
  split_ifs at hturn with heof
  · obtain rfl := Sum.inl.inj hturn
    exact CharStream.advances_get heof
  · obtain rfl := Sum.inl.inj hturn
    exact CharStream.advances_get heof

/-- A turn of the loop of `parse_data_field` makes progress. -/
theorem progresses_fieldsTurn (hasKey : Bool) :
    Progresses (fun n => fieldsTurn n hasKey) Prod.snd :=
  progresses_of_computes fun _ state hs => computes_fieldsTurn hasKey state hs

/-- A turn of the loop of `run` makes progress. -/
theorem progresses_runTurn : Progresses runTurn Prod.snd :=
  progresses_of_computes fun _ state hs => computes_runTurn state hs

/-- A run ends, and returns what the parser returns. -/
theorem runWithin_eq (schema : Schema) (file : Option Bytes) {n : ℕ}
    (hn : ∀ text, file = some text → text.length + 2 ≤ n) :
    runWithin n schema file = some (schema.run file) := by
  cases file with
  | none => rfl
  | some text =>
      have hsize : ((schema.fields, .good text) : List SchemaField × CharStream).2.size < n :=
        hn text rfl
      rw [runWithin, Loop.run_eq_some (fun state hs => computes_runTurn state hs) hsize]
      rfl

/-- **The parser ends.** Each of its loops makes progress with every turn, whatever the characters
in front of it and whatever the terminator; and on every text, well formed or not, it ends within
two turns of each loop more than the text has bytes, with the result of `Schema.run`. -/
theorem run_ends :
    (Progresses (fun _ s => some (skipSpaceTurn s)) id ∧
      (∀ token ends, Progresses (fun _ state => some (readTurn token ends state)) Prod.snd) ∧
      (∀ hasKey, Progresses (fun n => fieldsTurn n hasKey) Prod.snd) ∧
      Progresses runTurn Prod.snd) ∧
    ∀ (schema : Schema) (text : Bytes) (extra : ℕ),
      runWithin (text.length + 2 + extra) schema (some text) = some (schema.run (some text)) := by
  refine ⟨⟨progresses_skipSpaceTurn, progresses_readTurn, progresses_fieldsTurn,
    progresses_runTurn⟩, fun schema text extra => runWithin_eq schema _ fun text' htext => ?_⟩
  obtain rfl := Option.some.inj htext
  omega

end Aquarius.Lazytool
