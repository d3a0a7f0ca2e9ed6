import Aquarius.SchemaParser
import Mathlib.Data.Fintype.EquivFin

/-!
# Blanks in Schemas

The parser of `lazytool/schema.cpp` as an automaton over characters. A state is what has been
declared so far, the word that is expected next, and what has been read of it. `read_value` passes
over a blank wherever it meets one, with one exception: a word that ends at a space.

The automaton says what the recursive parser does with a text in one pass from the left, so that two
texts which differ in one place can be compared there: after the same characters it is in the same
state.

## Main results

* `scan_readValue`: one word of the parser is one run of the automaton.
* `scan_declarations`: **the automaton declares what the parser declares**, for every text.
* `scan_blank`: what a run of blanks does in each state.
* `open_apart`, `resume_apart`: a word that ends at a space goes on, or has ended, and some text
  tells which.
* `replaceable_iff`: **blanks can be replaced by others** exactly unless a word is open that ends at
  a space, and one of the two has a space and the other has none.
* `not_replaceable_tab`: a tab in the place of the space behind a type.
-/

open Decoding

namespace Aquarius.Lazytool

/-! ### The automaton -/

/-- The block that is being read: of a structure or an enumeration, which has no types, or a part of
a message. -/
inductive OpenBlock where
  | declaration (hasKey : Bool)
  | request (name router : Bytes)
  | response (name router : Bytes) (request : FieldBase)

/-- The word that is expected next. -/
inductive Expects where
  | keyword
  | blockName (type : StructType) (hasKey : Bool)
  | fieldType (block : OpenBlock) (field : FieldBase)
  | element (block : OpenBlock) (field : FieldBase)
  | mapKey (block : OpenBlock) (field : FieldBase)
  | mapValue (block : OpenBlock) (field : FieldBase) (key : Bytes)
  | fieldName (block : OpenBlock) (field : FieldBase) (type : Bytes)
  | messageName
  | arrow (name : Bytes)
  | router (name : Bytes)
  | label (name router : Bytes) (request : Option FieldBase)
  | failed

/-- The characters the word may contain. -/
def Expects.token : Expects → Token
  | keyword | mapValue _ _ _ | label _ _ _ => .strict
  | router _ | failed => .loose
  | _ => .standard

/-- The character the word ends at. -/
def Expects.ends : Expects → UInt8
  | keyword | fieldType _ _ | element _ _ | mapValue _ _ _ => 32
  | blockName _ _ | router _ | label _ _ _ => 123
  | mapKey _ _ => 44
  | fieldName _ _ _ => 59
  | messageName => 45
  | arrow _ => 62
  | failed => 125

/-- A state of the automaton: what is declared, which word is expected, and what has been read of
it, `none` in front of its first character. -/
structure Scan where
  pushed : List SchemaField
  expects : Expects
  word : Option Bytes := none

/-- The next entry of a block. -/
def OpenBlock.next (block : OpenBlock) (field : FieldBase) : Expects :=
  match block with
  | .declaration false => .fieldName block field []
  | _ => .fieldType block field

/-- The end of a block. -/
def OpenBlock.close (pushed : List SchemaField) (field : FieldBase) : OpenBlock → Scan
  | .declaration _ => { pushed := pushed ++ [.field field], expects := .keyword }
  | .request name router => { pushed := pushed, expects := .label name router (some field) }
  | .response name router body =>
      { pushed := pushed ++ [.message { name := name, router := router, request := body
                                        response := field }]
        expects := .keyword }

/-- What a keyword makes the parser expect. -/
def expectsAfter (keyword : Bytes) : Expects :=
  if keyword = textBytes "message" then .messageName
  else if keyword = textBytes "struct" then .blockName .structure true
  else if keyword = textBytes "enum" then .blockName .enumture false
  else .failed

/-- The state after a word has been read, or not. -/
def Expects.resume (pushed : List SchemaField) : Expects → Except Bool Bytes → Scan
  | keyword, .error _ => { pushed := pushed, expects := .keyword }
  | keyword, .ok v => { pushed := pushed, expects := expectsAfter v }
  | blockName type hasKey, .ok v =>
      { pushed := pushed
        expects := (OpenBlock.declaration hasKey).next { type := type, name := v, fields := [] } }
  | fieldType block field, .error true => block.close pushed field
  | fieldType block field, .ok v =>
      { pushed := pushed
        expects :=
          if v = textBytes "repeated" then .element block field
          else if v = textBytes "map" then .mapKey block field
          else .fieldName block field v }
  | element block field, .ok v =>
      { pushed := pushed
        expects := .fieldName block field (textBytes "std::vector<" ++ v ++ textBytes ">") }
  | mapKey block field, .ok v => { pushed := pushed, expects := .mapValue block field v }
  | mapValue block field key, .ok v =>
      { pushed := pushed
        expects := .fieldName block field
          (textBytes "std::map<" ++ key ++ textBytes ", " ++ v ++ textBytes ">") }
  | fieldName block field _, .error true => block.close pushed field
  | fieldName block field type, .ok v =>
      { pushed := pushed, expects := block.next (field.addField type v) }
  | messageName, .ok v => { pushed := pushed, expects := .arrow v }
  | arrow name, .ok _ => { pushed := pushed, expects := .router name }
  | router name, .ok v => { pushed := pushed, expects := .label name v none }
  | label name path first, .ok v =>
      { pushed := pushed
        expects :=
          if v ≠ textBytes "request" ∧ v ≠ textBytes "response" then .failed
          else
            match first with
            | none => .fieldType (.request name path) (bodyField .request name)
            | some body => .fieldType (.response name path body) (bodyField .response name) }
  | _, _ => { pushed := pushed, expects := .failed }

namespace Scan

/-- One character of a word that is open. -/
def take (st : Scan) (value : Bytes) (b : UInt8) : Scan :=
  if b = st.expects.ends then st.expects.resume st.pushed (.ok value)
  else if isSpace b then { st with word := some value }
  else if st.expects.token.admits b then { st with word := some (value ++ [b]) }
  else st.expects.resume st.pushed (.error (b = 125))

/-- One character. -/
def step (st : Scan) (b : UInt8) : Scan :=
  match st.word with
  | none => if isSpace b then st else st.take [] b
  | some value => st.take value b

/-- A text. -/
def run (st : Scan) (text : Bytes) : Scan := text.foldl step st

/-- What is declared at the end of the file, and whether a parser throws there: it does where
anything but a keyword is expected. -/
def verdict (st : Scan) : List SchemaField × Bool :=
  (st.pushed, match st.expects with
    | .keyword => false
    | _ => true)

/-- The verdict on a stream. -/
def verdictOn (st : Scan) : CharStream → List SchemaField × Bool
  | .good rest => (st.run rest).verdict
  | .eof => st.verdict

@[simp] theorem run_nil (st : Scan) : st.run [] = st := rfl

@[simp] theorem run_cons (st : Scan) (b : UInt8) (text : Bytes) :
    st.run (b :: text) = (st.step b).run text := rfl

theorem run_append (st : Scan) (a b : Bytes) : st.run (a ++ b) = (st.run a).run b :=
  List.foldl_append ..

/-- One character of a word that is open. -/
theorem step_open (pushed : List SchemaField) (e : Expects) (value : Bytes) (b : UInt8) :
    (Scan.mk pushed e (some value)).step b =
      if b = e.ends then e.resume pushed (.ok value)
      else if isSpace b then Scan.mk pushed e (some value)
      else if e.token.admits b then Scan.mk pushed e (some (value ++ [b]))
      else e.resume pushed (.error (b = 125)) := rfl

end Scan

/-- In front of the text of a file. -/
def Scan.start : Scan := { pushed := [], expects := .keyword }

/-! ### The automaton and the parser -/

/-- A word that is not read at the end of the file leaves the verdict as it is. -/
theorem verdict_resume_end (pushed : List SchemaField) (e : Expects) (word : Option Bytes) :
    (e.resume pushed (.error false)).verdict = (Scan.mk pushed e word).verdict := by
  cases e <;> rfl

/-- A word that is open is read to its end. -/
theorem verdict_readLoop (pushed : List SchemaField) (e : Expects) (value text : Bytes) :
    ((Scan.mk pushed e (some value)).run text).verdict =
      (e.resume pushed (readLoop e.token e.ends value text).1).verdictOn
        (readLoop e.token e.ends value text).2 := by
  induction text generalizing value with
  | nil => exact (verdict_resume_end pushed e _).symm
  | cons b text ih =>
      rw [Scan.run_cons, Scan.step_open, readLoop]
      by_cases hends : b = e.ends
      · rw [if_pos hends, if_pos hends]
        rfl
      rw [if_neg hends, if_neg hends]
      by_cases hspace : isSpace b = true
      · rw [if_pos hspace, if_pos hspace]
        exact ih value
      rw [if_neg hspace, if_neg hspace]
      by_cases hadm : e.token.admits b = true
      · rw [if_pos hadm, if_pos hadm]
        exact ih (value ++ [b])
      · rw [if_neg hadm, if_neg hadm]
        rfl

/-- **One word**: where the automaton expects it, it goes on as the parser does after reading it. -/
theorem scan_readValue (pushed : List SchemaField) (e : Expects) (s : CharStream) :
    (Scan.mk pushed e none).verdictOn s =
      (e.resume pushed (readValue e.token e.ends s).1).verdictOn
        (readValue e.token e.ends s).2 := by
  cases s with
  | eof => exact (verdict_resume_end pushed e none).symm
  | good text =>
      induction text with
      | nil => exact (verdict_resume_end pushed e none).symm
      | cons b text ih =>
          by_cases hspace : isSpace b = true
          · have hskip : (CharStream.good (b :: text)).skipSpace =
                (CharStream.good text).skipSpace := by
              rw [CharStream.skipSpace, CharStream.skipBlanks, if_pos hspace]
              rfl
            have hstep : (Scan.mk pushed e none).step b = Scan.mk pushed e none := if_pos hspace
            have hrun : (Scan.mk pushed e none).verdictOn (.good (b :: text)) =
                (Scan.mk pushed e none).verdictOn (.good text) := by
              rw [Scan.verdictOn, Scan.run_cons, hstep]
              rfl
            rw [readValue, hskip, hrun, ih]
            rfl
          · have hskip : (CharStream.good (b :: text)).skipSpace = .good (b :: text) := by
              rw [CharStream.skipSpace, CharStream.skipBlanks, if_neg hspace]
            have hstep : (Scan.mk pushed e none).step b = (Scan.mk pushed e (some [])).step b :=
              if_neg hspace
            rw [readValue, hskip]
            refine Eq.trans ?_ (verdict_readLoop pushed e [] (b :: text))
            rw [Scan.verdictOn, Scan.run_cons, hstep]
            rfl

/-- The same with the class and the end of the word written out. -/
theorem scan_word (pushed : List SchemaField) (e : Expects) (token : Token) (ends : UInt8)
    (htoken : e.token = token) (hends : e.ends = ends) (s : CharStream) :
    (Scan.mk pushed e none).verdictOn s =
      (e.resume pushed (readValue token ends s).1).verdictOn (readValue token ends s).2 := by
  rw [scan_readValue, htoken, hends]

/-- After a failure nothing is declared any more. -/
theorem verdictOn_failed (pushed : List SchemaField) (s : CharStream) :
    (Scan.mk pushed .failed none).verdictOn s = (pushed, true) := by
  have hresume : ∀ r, Expects.failed.resume pushed r = Scan.mk pushed .failed none := by
    rintro (_ | _) <;> rfl
  have hsize : ∀ n, ∀ s : CharStream, s.size ≤ n →
      (Scan.mk pushed .failed none).verdictOn s = (pushed, true) := by
    intro n
    induction n with
    | zero =>
        intro s hs
        cases s with
        | good rest => exact absurd hs (by simp [CharStream.size])
        | eof => rfl
    | succ n ih =>
        intro s hs
        by_cases heof : s = .eof
        · rw [heof]
          rfl
        · have hlt := size_readValue_lt .loose 125 heof
          rw [scan_word pushed .failed .loose 125 rfl rfl, hresume]
          exact ih _ (by omega)
  exact hsize s.size s le_rfl

/-- The type of a field. -/
theorem scan_readType (pushed : List SchemaField) (block : OpenBlock) (field : FieldBase)
    (s : CharStream) :
    (Scan.mk pushed (.fieldType block field) none).verdictOn s =
      match readType s with
      | (.error true, s) => (block.close pushed field).verdictOn s
      | (.error false, _) => (pushed, true)
      | (.ok type, s) => (Scan.mk pushed (.fieldName block field type) none).verdictOn s := by
  rw [scan_word pushed (.fieldType block field) .standard 32 rfl rfl, readType]
  rcases readValue .standard 32 s with ⟨e | v, s₁⟩
  · cases e with
    | true => rfl
    | false => exact verdictOn_failed pushed s₁
  by_cases hrepeated : v = textBytes "repeated"
  · subst hrepeated
    simp only [Expects.resume, if_true]
    rw [scan_word pushed (.element block field) .standard 32 rfl rfl]
    rcases readValue .standard 32 s₁ with ⟨e | t, s₂⟩
    · exact verdictOn_failed pushed s₂
    · rfl
  by_cases hmap : v = textBytes "map"
  · subst hmap
    simp only [Expects.resume, if_neg hrepeated, if_true]
    rw [scan_word pushed (.mapKey block field) .standard 44 rfl rfl]
    rcases readValue .standard 44 s₁ with ⟨e | key, s₂⟩
    · exact verdictOn_failed pushed s₂
    simp only [Expects.resume]
    rw [scan_word pushed (.mapValue block field key) .strict 32 rfl rfl]
    rcases readValue .strict 32 s₂ with ⟨e | value, s₃⟩
    · exact verdictOn_failed pushed s₃
    · rfl
  · simp only [Expects.resume, if_neg hrepeated, if_neg hmap]

/-- The name of an entry. -/
theorem scan_fieldName (pushed : List SchemaField) (block : OpenBlock) (field : FieldBase)
    (type : Bytes) (s : CharStream) :
    (Scan.mk pushed (.fieldName block field type) none).verdictOn s =
      match readValue .standard 59 s with
      | (.error true, s) => (block.close pushed field).verdictOn s
      | (.error false, _) => (pushed, true)
      | (.ok value, s) =>
          (Scan.mk pushed (block.next (field.addField type value)) none).verdictOn s := by
  rw [scan_word pushed (.fieldName block field type) .standard 59 rfl rfl]
  rcases readValue .standard 59 s with ⟨e | v, s₁⟩
  · cases e with
    | true => rfl
    | false => exact verdictOn_failed pushed s₁
  · rfl

/-- An entry of a block. -/
theorem scan_readEntry (pushed : List SchemaField) (block : OpenBlock) (field : FieldBase)
    {hasKey : Bool} (hnext : ∀ field, block.next field =
      if hasKey then .fieldType block field else .fieldName block field []) (s : CharStream) :
    (Scan.mk pushed (block.next field) none).verdictOn s =
      match readEntry hasKey s with
      | (.error true, s) => (block.close pushed field).verdictOn s
      | (.error false, _) => (pushed, true)
      | (.ok (type, value), s) =>
          (Scan.mk pushed (block.next (field.addField type value)) none).verdictOn s := by
  rw [hnext, readEntry]
  cases hasKey with
  | true =>
      rw [if_pos rfl, if_pos rfl, scan_readType]
      rcases readType s with ⟨e | type, s₁⟩
      · cases e with
        | true => rfl
        | false => rfl
      · simp only [scan_fieldName]
        rcases readValue .standard 59 s₁ with ⟨e | v, s₂⟩
        · cases e with
          | true => rfl
          | false => rfl
        · rfl
  | false =>
      rw [if_neg Bool.false_ne_true, if_neg Bool.false_ne_true, scan_fieldName]
      simp only
      rcases readValue .standard 59 s with ⟨e | v, s₂⟩
      · cases e with
        | true => rfl
        | false => rfl
      · rfl

/-- A word that is read leaves the stream good. -/
theorem ne_eof_of_readValue_ok {token : Token} {ends : UInt8} {s s' : CharStream} {v : Bytes}
    (h : readValue token ends s = (.ok v, s')) : s' ≠ .eof := by
  have hloop : ∀ text value, readLoop token ends value text = (.ok v, s') → s' ≠ .eof := by
    intro text
    induction text with
    | nil =>
        intro value hread
        cases hread
    | cons b text ih =>
        intro value hread
        rw [readLoop] at hread
        split at hread
        · obtain ⟨-, rfl⟩ := Prod.mk.inj hread
          simp
        · split at hread
          · exact ih value hread
          · split at hread
            · exact ih _ hread
            · cases (Prod.mk.inj hread).1
  rw [readValue] at h
  split at h
  · cases h
  · exact hloop _ [] h

/-- An entry that is read leaves the stream good. -/
theorem ne_eof_of_readEntry_ok {hasKey : Bool} {s s' : CharStream} {p : Bytes × Bytes}
    (h : readEntry hasKey s = (.ok p, s')) : s' ≠ .eof := by
  revert h
  fun_cases readEntry hasKey s <;> grind [→ ne_eof_of_readValue_ok]

/-- **The entries of a block**, up to its end. -/
theorem scan_parseFields (pushed : List SchemaField) (block : OpenBlock) {hasKey : Bool}
    (hnext : ∀ field, block.next field =
      if hasKey then .fieldType block field else .fieldName block field [])
    (field : FieldBase) {s : CharStream} (hs : s ≠ .eof) :
    (Scan.mk pushed (block.next field) none).verdictOn s =
      match parseFields hasKey field s with
      | (true, field', s') => (block.close pushed field').verdictOn s'
      | (false, _, _) => (pushed, true) := by
  fun_induction parseFields hasKey field s with
  | case1 => exact absurd rfl hs
  | case2 field s _ e s' h =>
      rw [scan_readEntry pushed block field hnext, h]
      cases e with
      | true => rfl
      | false => rfl
  | case3 field s _ type value s' h ih =>
      rw [scan_readEntry pushed block field hnext, h]
      exact ih (ne_eof_of_readEntry_ok h)

/-- A structure or an enumeration. -/
theorem scan_parseBlock (pushed : List SchemaField) (type : StructType) (hasKey : Bool)
    (s : CharStream) :
    (Scan.mk pushed (.blockName type hasKey) none).verdictOn s =
      match parseBlock type hasKey s with
      | (none, _) => (pushed, true)
      | (some f, s) => (Scan.mk (pushed ++ [f]) .keyword none).verdictOn s := by
  have hnext : ∀ field, (OpenBlock.declaration hasKey).next field =
      if hasKey then .fieldType (.declaration hasKey) field
      else .fieldName (.declaration hasKey) field [] := by
    cases hasKey <;> exact fun _ => rfl
  rw [scan_word pushed (.blockName type hasKey) .standard 123 rfl rfl, parseBlock, parseDataField,
    if_neg Bool.false_ne_true]
  cases hread : readValue .standard 123 s with
  | mk r s₁ =>
      cases r with
      | error e => exact verdictOn_failed pushed s₁
      | ok name =>
          have hfields := scan_parseFields pushed (.declaration hasKey) hnext
            { type := type, name := name, fields := [] } (ne_eof_of_readValue_ok hread)
          refine hfields.trans ?_
          simp only
          rcases parseFields hasKey { type := type, name := name, fields := [] } s₁ with
            ⟨_ | _, field, s₂⟩
          · rfl
          · rfl

/-- The part of a message that a label opens: the first part is the request. -/
def partBlock (name router : Bytes) : Option FieldBase → OpenBlock
  | none => .request name router
  | some body => .response name router body

/-- The body it is read into. -/
def partField (name : Bytes) : Option FieldBase → FieldBase
  | none => bodyField .request name
  | some _ => bodyField .response name

/-- Behind a label its part is read, whichever of the two labels it is. -/
theorem resume_label (pushed : List SchemaField) (name router : Bytes) (first : Option FieldBase)
    (v : Bytes) :
    (Expects.label name router first).resume pushed (.ok v) =
      if v ≠ textBytes "request" ∧ v ≠ textBytes "response" then Scan.mk pushed .failed none
      else Scan.mk pushed ((partBlock name router first).next (partField name first)) none := by
  rw [← apply_ite (fun e => Scan.mk pushed e none)]
  cases first <;> rfl

/-- A part of a message. -/
theorem scan_readProtocol (pushed : List SchemaField) (name router : Bytes)
    (first : Option FieldBase) (s : CharStream) :
    (Scan.mk pushed (.label name router first) none).verdictOn s =
      match readProtocol (partField name first) s with
      | (none, _) => (pushed, true)
      | (some field, s) => ((partBlock name router first).close pushed field).verdictOn s := by
  have hnext : ∀ field, (partBlock name router first).next field =
      if true then .fieldType (partBlock name router first) field
      else .fieldName (partBlock name router first) field [] := by
    cases first <;> exact fun _ => rfl
  rw [scan_word pushed (.label name router first) .strict 123 rfl rfl, readProtocol]
  cases hread : readValue .strict 123 s with
  | mk r s₁ =>
      cases r with
      | error e => exact verdictOn_failed pushed s₁
      | ok v =>
          simp only [resume_label]
          split
          · exact verdictOn_failed pushed s₁
          · rw [scan_parseFields pushed _ hnext _ (ne_eof_of_readValue_ok hread), parseDataField,
              if_pos rfl]
            rcases parseFields true (partField name first) s₁ with ⟨_ | _, field, s₂⟩
            · rfl
            · rfl

/-- The router of a message. -/
theorem scan_parseRouter (pushed : List SchemaField) (name : Bytes) (s : CharStream) :
    (Scan.mk pushed (.arrow name) none).verdictOn s =
      match parseRouter s with
      | (none, _) => (pushed, true)
      | (some router, s) => (Scan.mk pushed (.label name router none) none).verdictOn s := by
  rw [scan_word pushed (.arrow name) .standard 62 rfl rfl, parseRouter]
  rcases readValue .standard 62 s with ⟨e | v, s₁⟩
  · exact verdictOn_failed pushed s₁
  refine (scan_word pushed (.router name) .loose 123 rfl rfl s₁).trans ?_
  simp only
  rcases readValue .loose 123 s₁ with ⟨e | v, s₂⟩
  · exact verdictOn_failed pushed s₂
  · rfl

/-- A message. -/
theorem scan_parseMessageField (pushed : List SchemaField) (s : CharStream) :
    (Scan.mk pushed .messageName none).verdictOn s =
      match parseMessageField s with
      | (none, _) => (pushed, true)
      | (some m, s) => (Scan.mk (pushed ++ [.message m]) .keyword none).verdictOn s := by
  rw [scan_word pushed .messageName .standard 45 rfl rfl, parseMessageField]
  rcases readValue .standard 45 s with ⟨e | name, s₁⟩
  · exact verdictOn_failed pushed s₁
  refine (scan_parseRouter pushed name s₁).trans ?_
  simp only
  rcases parseRouter s₁ with ⟨_ | router, s₂⟩
  · rfl
  simp only
  rw [scan_readProtocol, partField]
  rcases readProtocol (bodyField .request name) s₂ with ⟨_ | request, s₃⟩
  · rfl
  refine (scan_readProtocol pushed name router (some request) s₃).trans ?_
  rw [partField]
  simp only
  rcases readProtocol (bodyField .response name) s₃ with ⟨_ | response, s₄⟩
  · rfl
  · rfl

/-- A declaration, behind its keyword. -/
theorem scan_invoke (pushed : List SchemaField) (keyword : Bytes) (s : CharStream) :
    (Scan.mk pushed (expectsAfter keyword) none).verdictOn s =
      match invoke keyword s with
      | (none, _) => (pushed, true)
      | (some f, s) => (Scan.mk (pushed ++ [f]) .keyword none).verdictOn s := by
  rw [expectsAfter, invoke]
  split
  · rw [scan_parseMessageField]
    rcases parseMessageField s with ⟨_ | m, s₁⟩
    · rfl
    · rfl
  split
  · exact scan_parseBlock pushed .structure true s
  split
  · exact scan_parseBlock pushed .enumture false s
  · exact verdictOn_failed pushed s

/-- **The automaton declares what the parser declares**, on every stream. -/
theorem scan_declarations (pushed : List SchemaField) (s : CharStream) :
    (Scan.mk pushed .keyword none).verdictOn s =
      (pushed ++ (declarations s).1, (declarations s).2) := by
  fun_induction declarations s generalizing pushed with
  | case1 => simp [Scan.verdictOn, Scan.verdict]
  | case2 s hs e s' hread ih =>
      rw [scan_word pushed .keyword .strict 32 rfl rfl, hread]
      exact ih pushed
  | case3 s hs keyword s' hread s'' hinvoke =>
      rw [scan_word pushed .keyword .strict 32 rfl rfl, hread]
      refine (scan_invoke pushed keyword s').trans ?_
      rw [hinvoke]
      simp
  | case4 s hs keyword s' hread f s'' hinvoke ih =>
      rw [scan_word pushed .keyword .strict 32 rfl rfl, hread]
      refine (scan_invoke pushed keyword s').trans ?_
      rw [hinvoke]
      refine (ih (pushed ++ [f])).trans ?_
      simp

/-! ### Blanks -/

/-- A word is open that ends at a space. -/
def Scan.SpaceOpen (st : Scan) : Prop := st.word ≠ none ∧ st.expects.ends = 32

instance (st : Scan) : Decidable st.SpaceOpen := inferInstanceAs (Decidable (_ ∧ _))

/-- Behind a word none is open. -/
theorem word_resume (pushed : List SchemaField) (e : Expects) (r : Except Bool Bytes) :
    (e.resume pushed r).word = none := by
  have hclose : ∀ (block : OpenBlock) field, (block.close pushed field).word = none := by
    intro block field
    cases block <;> rfl
  fun_cases Expects.resume pushed e r <;> first | rfl | exact hclose ..

/-- The one blank that ends a word is the space. -/
theorem eq_space_of_ends {e : Expects} (h : isSpace e.ends = true) : e.ends = 32 := by
  cases e <;> first | rfl | (simp only [Expects.ends] at h; exact absurd h (by decide))

/-- Blanks in front of a word are passed over. -/
theorem run_blank_of_none {st : Scan} (hst : st.word = none) {w : Bytes} (hw : Blank w) :
    st.run w = st := by
  induction w with
  | nil => rfl
  | cons b w ih =>
      have hstep : st.step b = st := by
        rw [Scan.step, hst]
        exact if_pos (hw b List.mem_cons_self)
      rw [Scan.run_cons, hstep]
      exact ih fun x hx => hw x (List.mem_cons_of_mem b hx)

/-- **A run of blanks** ends a word that is open and ends at a space, if it has a space; otherwise
it does nothing. -/
theorem scan_blank (st : Scan) {w : Bytes} (hw : Blank w) :
    st.run w =
      if st.SpaceOpen ∧ 32 ∈ w then st.expects.resume st.pushed (.ok (st.word.getD []))
      else st := by
  obtain ⟨pushed, e, word⟩ := st
  cases word with
  | none =>
      rw [if_neg fun h => h.1.1 rfl]
      exact run_blank_of_none rfl hw
  | some value =>
      induction w with
      | nil => rw [if_neg fun h => absurd h.2 List.not_mem_nil, Scan.run_nil]
      | cons b w ih =>
          have hrest : Blank w := fun x hx => hw x (List.mem_cons_of_mem b hx)
          have hb : isSpace b = true := hw b List.mem_cons_self
          rw [Scan.run_cons, Scan.step_open]
          by_cases hends : b = e.ends
          · have he : e.ends = 32 := eq_space_of_ends (hends ▸ hb)
            have hopen : (Scan.mk pushed e (some value)).SpaceOpen := ⟨Option.some_ne_none _, he⟩
            rw [if_pos hends, run_blank_of_none (word_resume ..) hrest,
              if_pos ⟨hopen, hends.trans he ▸ List.mem_cons_self⟩]
            rfl
          · rw [if_neg hends, if_pos hb, ih hrest]
            have hmem : (Scan.mk pushed e (some value)).SpaceOpen ∧ 32 ∈ b :: w ↔
                (Scan.mk pushed e (some value)).SpaceOpen ∧ 32 ∈ w := by
              refine and_congr_right fun hopen => ?_
              have hne : (32 : UInt8) ≠ b := fun h => hends (h ▸ hopen.2.symm)
              rw [List.mem_cons, or_iff_right hne]
            simp only [hmem]

/-! ### What tells two states apart -/

/-- A word that is open takes more of it. -/
theorem run_word (pushed : List SchemaField) (e : Expects) (value : Bytes) {word : Bytes}
    (hword : Word e.token e.ends word) :
    (Scan.mk pushed e (some value)).run word = Scan.mk pushed e (some (value ++ word)) := by
  induction word generalizing value with
  | nil => rw [Scan.run_nil, List.append_nil]
  | cons b word ih =>
      obtain ⟨hne, hspace, hadm⟩ := hword b List.mem_cons_self
      rw [Scan.run_cons, Scan.step_open, if_neg hne, if_neg (ne_true_of_eq_false hspace),
        if_pos hadm, ih _ (fun c hc => hword c (List.mem_cons_of_mem b hc)), List.append_assoc,
        List.singleton_append]

/-- A word that is open, up to its end. -/
theorem run_word_ends (pushed : List SchemaField) (e : Expects) (value : Bytes) {word : Bytes}
    (hword : Word e.token e.ends word) (rest : Bytes) :
    (Scan.mk pushed e (some value)).run (word ++ e.ends :: rest) =
      (e.resume pushed (.ok (value ++ word))).run rest := by
  rw [Scan.run_append, run_word pushed e value hword, Scan.run_cons, Scan.step_open, if_pos rfl]

/-- A word opens at its first character. -/
theorem run_of_none (pushed : List SchemaField) (e : Expects) {b : UInt8}
    (hb : isSpace b = false) (rest : Bytes) :
    (Scan.mk pushed e none).run (b :: rest) = (Scan.mk pushed e (some [])).run (b :: rest) := by
  rw [Scan.run_cons, Scan.run_cons]
  exact congrArg (Scan.run · rest) (if_neg (ne_true_of_eq_false hb))

/-- What closes a block, and with it the declaration it is part of. -/
def OpenBlock.closing : OpenBlock → Bytes
  | .request _ _ => 125 :: (textBytes "response" ++ [123, 125])
  | .declaration _ | .response _ _ _ => [125]

/-- The declaration that is closed. -/
def OpenBlock.declared (field : FieldBase) : OpenBlock → SchemaField
  | .declaration _ => .field field
  | .request name router =>
      .message { name := name, router := router, request := field
                 response := bodyField .response name }
  | .response name router body =>
      .message { name := name, router := router, request := body, response := field }

/-- A closing brace where an entry is expected. -/
theorem step_close (pushed : List SchemaField) (block : OpenBlock) (field : FieldBase) :
    (Scan.mk pushed (block.next field) none).step 125 = block.close pushed field := by
  have hname : ∀ type, (Scan.mk pushed (.fieldName block field type) none).step 125 =
      block.close pushed field := fun _ => rfl
  have htype : (Scan.mk pushed (.fieldType block field) none).step 125 =
      block.close pushed field := rfl
  cases block with
  | declaration hasKey =>
      cases hasKey with
      | true => exact htype
      | false => exact hname []
  | request name router => exact htype
  | response name router body => exact htype

/-- A label, where a part of a message is expected. -/
theorem run_label (pushed : List SchemaField) (name router : Bytes) (first : Option FieldBase)
    {label : Bytes} (hlabel : label = textBytes "request" ∨ label = textBytes "response")
    (rest : Bytes) :
    (Scan.mk pushed (.label name router first) none).run (label ++ 123 :: rest) =
      (Scan.mk pushed ((partBlock name router first).next (partField name first)) none).run
        rest := by
  have hword : Word .strict 123 label := by
    rcases hlabel with rfl | rfl
    · exact word_of_all (by decide)
    · exact word_of_all (by decide)
  have hopen : (Scan.mk pushed (.label name router first) none).run (label ++ 123 :: rest) =
      (Scan.mk pushed (.label name router first) (some [])).run (label ++ 123 :: rest) := by
    rcases hlabel with rfl | rfl
    · exact run_of_none pushed _ (by decide) _
    · exact run_of_none pushed _ (by decide) _
  refine hopen.trans ((run_word_ends pushed (.label name router first) [] hword rest).trans ?_)
  rw [List.nil_append, resume_label, if_neg]
  tauto

/-- A block is closed. -/
theorem verdict_closing (pushed : List SchemaField) (block : OpenBlock) (field : FieldBase) :
    ((Scan.mk pushed (block.next field) none).run block.closing).verdict =
      (pushed ++ [block.declared field], false) := by
  cases block with
  | declaration hasKey =>
      rw [OpenBlock.closing, Scan.run_cons, step_close]
      rfl
  | response name router body =>
      rw [OpenBlock.closing, Scan.run_cons, step_close]
      rfl
  | request name router =>
      rw [OpenBlock.closing, Scan.run_cons, step_close]
      change ((Scan.mk pushed (.label name router (some field)) none).run _).verdict = _
      rw [run_label pushed name router (some field) (.inr rfl), Scan.run_cons, step_close]
      rfl

/-- The declaration tells the fields of its block. -/
theorem declared_injective (block : OpenBlock) {field field' : FieldBase}
    (h : block.declared field = block.declared field') : field = field' := by
  cases block with
  | declaration hasKey => exact SchemaField.field.inj h
  | request name router => exact congrArg MessageField.request (SchemaField.message.inj h)
  | response name router body => exact congrArg MessageField.response (SchemaField.message.inj h)

/-- The last name of a block. -/
theorem verdict_name (pushed : List SchemaField) (block : OpenBlock) (field : FieldBase)
    (type value : Bytes) {word : Bytes} (hword : Word .standard 59 word) :
    ((Scan.mk pushed (.fieldName block field type) (some value)).run
      (word ++ 59 :: block.closing)).verdict =
      (pushed ++ [block.declared (field.addField type (value ++ word))], false) := by
  have hrun := run_word_ends pushed (.fieldName block field type) value hword block.closing
  exact (congrArg Scan.verdict hrun).trans (verdict_closing pushed block _)

/-- A name that a block does not have. -/
theorem exists_new_name (field : FieldBase) :
    ∃ n, List.replicate (n + 1) 97 ∉ field.fields.map Prod.snd := by
  obtain ⟨n, hn⟩ := Infinite.exists_notMem_finset
    ((field.fields.map fun p => p.2.length - 1).toFinset)
  refine ⟨n, fun hmem => hn ?_⟩
  obtain ⟨p, hp, heq⟩ := List.mem_map.mp hmem
  refine List.mem_toFinset.mpr (List.mem_map.mpr ⟨p, hp, ?_⟩)
  rw [heq, List.length_replicate, Nat.add_sub_cancel]

/-- A letter repeated is a word, wherever one is expected. -/
theorem word_replicate (e : Expects) (n : Nat) : Word e.token e.ends (List.replicate n 97) := by
  intro b hb
  rw [List.eq_of_mem_replicate hb]
  cases e <;> (simp only [Expects.token, Expects.ends]; decide)

/-- A name at the end of a block. -/
theorem verdict_new_name (pushed : List SchemaField) (block : OpenBlock) (field : FieldBase)
    (type : Bytes) (n : Nat) :
    ((Scan.mk pushed (.fieldName block field type) none).run
      (List.replicate (n + 1) 97 ++ 59 :: block.closing)).verdict =
      (pushed ++ [block.declared (field.addField type (List.replicate (n + 1) 97))], false) := by
  have hopen := run_of_none pushed (.fieldName block field type) (b := 97) (by decide)
    (List.replicate n 97 ++ 59 :: block.closing)
  exact (congrArg Scan.verdict hopen).trans
    (verdict_name pushed block field type [] (word_replicate (.fieldName block field type) (n + 1)))

/-- The block and the field that are read, where the type of a field is. -/
def Expects.typed : Expects → Option (OpenBlock × FieldBase)
  | .fieldType block field | .element block field | .mapValue block field _ => some (block, field)
  | _ => none

/-- A word that ends at a space is a keyword or part of a type. -/
theorem eq_keyword_or_typed {e : Expects} (h : e.ends = 32) :
    e = .keyword ∨ ∃ block field, e.typed = some (block, field) := by
  cases e <;> first
    | exact .inl rfl
    | exact .inr ⟨_, _, rfl⟩
    | (simp only [Expects.ends] at h; exact absurd h (by decide))

/-- Such a word ends at a space, and may contain any letter. -/
theorem ends_of_typed {e : Expects} {p : OpenBlock × FieldBase} (he : e.typed = some p) :
    e.ends = 32 ∧ Word e.token 32 [120] := by
  have hstandard : Word .standard 32 [120] := word_of_all (by decide)
  have hstrict : Word .strict 32 [120] := word_of_all (by decide)
  cases e <;> cases he
  case fieldType => exact ⟨rfl, hstandard⟩
  case element => exact ⟨rfl, hstandard⟩
  case mapValue => exact ⟨rfl, hstrict⟩

/-- Behind the type comes the name. -/
theorem exists_resume_typed (pushed : List SchemaField) {e : Expects} {block : OpenBlock}
    {field : FieldBase} (he : e.typed = some (block, field)) (v : Bytes) :
    ∃ type, e.resume pushed (.ok (v ++ [120])) =
      Scan.mk pushed (.fieldName block field type) none := by
  have hlast : ∀ w : Bytes, w.getLast? ≠ some 120 → v ++ [120] ≠ w := by
    rintro w hw rfl
    exact hw List.getLast?_concat
  cases e <;> cases he
  case fieldType =>
    refine ⟨v ++ [120], ?_⟩
    rw [Expects.resume, if_neg (hlast _ (by decide)), if_neg (hlast _ (by decide))]
  case element => exact ⟨_, rfl⟩
  case mapValue => exact ⟨_, rfl⟩

/-- An entry whose name is `a…a`, with a letter and a space in front, and the end of the block. -/
def OpenBlock.probe (block : OpenBlock) (n : Nat) : Bytes :=
  [120] ++ 32 :: (List.replicate (n + 1) 97 ++ 59 :: block.closing)

/-- The probe, where a type is open: the letter belongs to it, and the space ends it. -/
theorem verdict_probe_typed (pushed : List SchemaField) (e : Expects) {block : OpenBlock}
    {field : FieldBase} (he : e.typed = some (block, field)) {v type : Bytes}
    (hresume : e.resume pushed (.ok (v ++ [120])) =
      Scan.mk pushed (.fieldName block field type) none) (n : Nat) :
    ((Scan.mk pushed e (some v)).run (block.probe n)).verdict =
      (pushed ++ [block.declared (field.addField type (List.replicate (n + 1) 97))], false) := by
  obtain ⟨hends, hword⟩ := ends_of_typed he
  have hrun := run_word_ends pushed e v (hends.symm ▸ hword)
    (List.replicate (n + 1) 97 ++ 59 :: block.closing)
  rw [hends, hresume] at hrun
  exact (congrArg Scan.verdict hrun).trans (verdict_new_name pushed block field type n)

/-- The probe, where a word of a type is expected. -/
theorem verdict_probe_none (pushed : List SchemaField) (e : Expects) {block : OpenBlock}
    {field : FieldBase} (he : e.typed = some (block, field)) {type : Bytes}
    (hresume : e.resume pushed (.ok [120]) =
      Scan.mk pushed (.fieldName block field type) none) (n : Nat) :
    ((Scan.mk pushed e none).run (block.probe n)).verdict =
      (pushed ++ [block.declared (field.addField type (List.replicate (n + 1) 97))], false) := by
  have hopen := run_of_none pushed e (b := 120) (by decide)
    (32 :: (List.replicate (n + 1) 97 ++ 59 :: block.closing))
  exact (congrArg Scan.verdict hopen).trans (verdict_probe_typed pushed e he hresume n)

/-- The probe, where the name is expected: the letter belongs to it. -/
theorem verdict_probe_name (pushed : List SchemaField) (block : OpenBlock) (field : FieldBase)
    (type : Bytes) (n : Nat) :
    ((Scan.mk pushed (.fieldName block field type) none).run (block.probe n)).verdict =
      (pushed ++ [block.declared (field.addField type (120 :: List.replicate (n + 1) 97))],
        false) :=
  verdict_name pushed block field type [120] (word_replicate (.fieldName block field type) (n + 1))

/-- Some text is accepted from the first state, and not read the same from the second. -/
def Scan.Apart (st st' : Scan) : Prop :=
  ∃ q, (st.run q).verdict.2 = false ∧ (st'.run q).verdict ≠ (st.run q).verdict

/-- What a word of a type makes the parser expect: the name, or more of the type. -/
theorem resume_typed_cases (pushed : List SchemaField) {e : Expects} {block : OpenBlock}
    {field : FieldBase} (he : e.typed = some (block, field)) (v : Bytes) :
    (∃ type, e.resume pushed (.ok v) = Scan.mk pushed (.fieldName block field type) none) ∨
      (e = .fieldType block field ∧ v = textBytes "repeated") ∨
      (e = .fieldType block field ∧ v = textBytes "map") := by
  cases e <;> cases he
  case fieldType =>
    by_cases hrepeated : v = textBytes "repeated"
    · exact .inr (.inl ⟨rfl, hrepeated⟩)
    by_cases hmap : v = textBytes "map"
    · exact .inr (.inr ⟨rfl, hmap⟩)
    · exact .inl ⟨v, by rw [Expects.resume, if_neg hrepeated, if_neg hmap]⟩
  case element => exact .inl ⟨_, rfl⟩
  case mapValue => exact .inl ⟨_, rfl⟩

/-- A new name under two types, or longer by a letter, gives two blocks. -/
theorem addField_ne {field : FieldBase} {y : Bytes} (hy : y ∉ field.fields.map Prod.snd)
    {type type' value : Bytes} (h : type' ≠ type ∨ value ≠ y) :
    field.addField type' value ≠ field.addField type y := by
  rw [addField_of_notMem hy, FieldBase.addField]
  intro heq
  split at heq
  · have hlen := congrArg (fun f => f.fields.length) heq
    simp at hlen
  · have hlast := List.append_cancel_left (congrArg FieldBase.fields heq)
    obtain ⟨htype, hvalue⟩ := Prod.mk.inj (List.cons.inj hlast).1
    exact h.elim (fun h => h htype) fun h => h hvalue

/-- Two verdicts on a block differ where the fields do. -/
theorem verdict_ne (pushed : List SchemaField) (block : OpenBlock) {field field' : FieldBase}
    (h : field ≠ field') :
    (pushed ++ [block.declared field], false) ≠ (pushed ++ [block.declared field'], false) := by
  intro heq
  have hdeclared := (List.cons.inj (List.append_cancel_left (Prod.mk.inj heq).1)).1
  exact h (declared_injective block hdeclared)

/-- Two states that accept a text and declare two blocks are apart, on both sides. -/
theorem apart_of_declared {st st' : Scan} {q : Bytes} {pushed : List SchemaField}
    {block : OpenBlock} {field field' : FieldBase}
    (h : (st.run q).verdict = (pushed ++ [block.declared field], false))
    (h' : (st'.run q).verdict = (pushed ++ [block.declared field'], false))
    (hne : field' ≠ field) : st.Apart st' ∧ st'.Apart st := by
  refine ⟨⟨q, congrArg Prod.snd h, ?_⟩, q, congrArg Prod.snd h', ?_⟩
  · rw [h, h']
    exact verdict_ne pushed block hne
  · rw [h, h']
    exact verdict_ne pushed block hne.symm

/-- A character that no word takes, where a word is open that has to be read. -/
theorem verdict_broken (pushed : List SchemaField) {e : Expects}
    (hfailed : e.resume pushed (.error false) = Scan.mk pushed .failed none) (value : Bytes)
    {b : UInt8} (hb : b ≠ e.ends ∧ isSpace b = false ∧ e.token.admits b = false ∧ b ≠ 125)
    (rest : Bytes) :
    ((Scan.mk pushed e (some value)).run (b :: rest)).verdict = (pushed, true) := by
  obtain ⟨hends, hspace, hadm, hbrace⟩ := hb
  rw [Scan.run_cons, Scan.step_open, if_neg hends, if_neg (ne_true_of_eq_false hspace),
    if_neg (ne_true_of_eq_false hadm), decide_eq_false hbrace, hfailed]
  exact verdictOn_failed pushed (.good rest)

/-- Two states of which one accepts a text are apart. -/
theorem apart_of_failed {st st' : Scan} {q : Bytes} {ds ds' : List SchemaField}
    (h : (st.run q).verdict = (ds, false)) (h' : (st'.run q).verdict = (ds', true)) :
    st.Apart st' := by
  refine ⟨q, congrArg Prod.snd h, fun heq => ?_⟩
  rw [h, h'] at heq
  cases (Prod.mk.inj heq).2

/-- `repeated` that goes on, and `repeated` with its space. -/
theorem apart_repeated (pushed : List SchemaField) (block : OpenBlock) (field : FieldBase) :
    (Scan.mk pushed (.fieldType block field) (some (textBytes "repeated"))).Apart
        (Scan.mk pushed (.element block field) none) ∧
      (Scan.mk pushed (.element block field) none).Apart
        (Scan.mk pushed (.fieldType block field) (some (textBytes "repeated"))) := by
  obtain ⟨n, hnew⟩ := exists_new_name field
  have hlong : (Expects.fieldType block field).resume pushed (.ok (textBytes "repeated" ++ [120])) =
      Scan.mk pushed (.fieldName block field (textBytes "repeatedx")) none := rfl
  have helement : (Expects.element block field).resume pushed (.ok [120]) =
      Scan.mk pushed (.fieldName block field (textBytes "std::vector<x>")) none := rfl
  exact apart_of_declared (verdict_probe_typed pushed (.fieldType block field) rfl hlong n)
    (verdict_probe_none pushed (.element block field) rfl helement n)
    (addField_ne hnew (.inl (by decide)))

/-- `map` that goes on, and `map` with its space. -/
theorem apart_map (pushed : List SchemaField) (block : OpenBlock) (field : FieldBase) :
    (Scan.mk pushed (.fieldType block field) (some (textBytes "map"))).Apart
        (Scan.mk pushed (.mapKey block field) none) ∧
      (Scan.mk pushed (.mapKey block field) none).Apart
        (Scan.mk pushed (.fieldType block field) (some (textBytes "map"))) := by
  have hlong : (Expects.fieldType block field).resume pushed (.ok (textBytes "map" ++ [120])) =
      Scan.mk pushed (.fieldName block field (textBytes "mapx")) none := rfl
  have hvalue : (Expects.mapValue block field []).resume pushed (.ok [120]) =
      Scan.mk pushed (.fieldName block field (textBytes "std::map<, x>")) none := rfl
  have hsemicolon : (59 : UInt8) ≠ 44 ∧ isSpace 59 = false ∧ Token.standard.admits 59 = false ∧
      (59 : UInt8) ≠ 125 := by decide
  have hcomma : (44 : UInt8) ≠ 32 ∧ isSpace 44 = false ∧ Token.standard.admits 44 = false ∧
      (44 : UInt8) ≠ 125 := by decide
  constructor
  · -- the key has no comma in front of the semicolon
    have hkey : ((Scan.mk pushed (.mapKey block field) none).run (block.probe 0)).verdict =
        (pushed, true) :=
      verdict_broken pushed (e := .mapKey block field) rfl [120, 97] hsemicolon block.closing
    exact apart_of_failed (verdict_probe_typed pushed (.fieldType block field) rfl hlong 0) hkey
  · -- a type has no comma
    have hmap :
        ((Scan.mk pushed (.mapKey block field) none).run (44 :: block.probe 0)).verdict = _ :=
      verdict_probe_none pushed (.mapValue block field []) rfl hvalue 0
    exact apart_of_failed hmap
      (verdict_broken pushed (e := .fieldType block field) rfl _ hcomma (block.probe 0))

/-- **The type of a field is read differently** when its first word goes on and when it has
ended. -/
theorem apart_typed (pushed : List SchemaField) {e : Expects} {block : OpenBlock}
    {field : FieldBase} (he : e.typed = some (block, field)) (v : Bytes) :
    (Scan.mk pushed e (some v)).Apart (e.resume pushed (.ok v)) ∧
      (e.resume pushed (.ok v)).Apart (Scan.mk pushed e (some v)) := by
  rcases resume_typed_cases pushed he v with ⟨type', hname⟩ | ⟨rfl, rfl⟩ | ⟨rfl, rfl⟩
  · obtain ⟨n, hnew⟩ := exists_new_name field
    obtain ⟨type, htype⟩ := exists_resume_typed pushed he v
    rw [hname]
    exact apart_of_declared (verdict_probe_typed pushed e he htype n)
      (verdict_probe_name pushed block field type' n)
      (addField_ne hnew (.inr (List.cons_ne_self _ _)))
  · exact apart_repeated pushed block field
  · exact apart_map pushed block field

/-- Without a space no keyword is read, and nothing is declared. -/
theorem run_keyword_spaceless (pushed : List SchemaField) (word : Option Bytes) {q : Bytes}
    (hq : 32 ∉ q) :
    ∃ word', (Scan.mk pushed .keyword word).run q = Scan.mk pushed .keyword word' := by
  induction q generalizing word with
  | nil => exact ⟨word, rfl⟩
  | cons b q ih =>
      have hb : b ≠ Expects.keyword.ends := fun h => hq (h ▸ List.mem_cons_self)
      have htake : ∀ value, ∃ word', (Scan.mk pushed .keyword (some value)).step b =
          Scan.mk pushed .keyword word' := by
        intro value
        rw [Scan.step_open, if_neg hb]
        split
        · exact ⟨_, rfl⟩
        split
        · exact ⟨_, rfl⟩
        · exact ⟨none, rfl⟩
      have hstep : ∃ word', (Scan.mk pushed .keyword word).step b =
          Scan.mk pushed .keyword word' := by
        cases word with
        | none =>
            by_cases hspace : isSpace b = true
            · exact ⟨none, if_pos hspace⟩
            · obtain ⟨word', hword'⟩ := htake []
              exact ⟨word', (if_neg hspace).trans hword'⟩
        | some value => exact htake value
      obtain ⟨word', hword'⟩ := hstep
      rw [Scan.run_cons, hword']
      exact ih word' fun h => hq (List.mem_cons_of_mem b h)

/-- A keyword that goes on, and one with its space: the semicolon breaks what follows. -/
theorem apart_keyword (pushed : List SchemaField) (v : Bytes) :
    (Scan.mk pushed .keyword (some v)).Apart (Scan.mk pushed (expectsAfter v) none) := by
  have hopen : ((Scan.mk pushed .keyword (some v)).run [59]).verdict = (pushed, false) := rfl
  have hresumed : ((Scan.mk pushed (expectsAfter v) none).run [59]).verdict = (pushed, true) := by
    rw [expectsAfter]
    split
    · rfl
    split
    · rfl
    split
    · rfl
    · rfl
  exact apart_of_failed hopen hresumed

/-- Behind a keyword of the language there is a declaration without a space. -/
theorem exists_declared (pushed : List SchemaField) {v : Bytes} (hv : expectsAfter v ≠ .failed) :
    ∃ q f, 32 ∉ q ∧
      ((Scan.mk pushed (expectsAfter v) none).run q).verdict = (pushed ++ [f], false) := by
  rw [expectsAfter] at hv ⊢
  split
  · refine ⟨[45, 62, 123] ++ (textBytes "request" ++ 123 :: (OpenBlock.request [] []).closing),
      (OpenBlock.request [] []).declared (bodyField .request []), by decide, ?_⟩
    have harrow : (Scan.mk pushed .messageName none).run [45, 62, 123] =
        Scan.mk pushed (.label [] [] none) none := rfl
    rw [Scan.run_append, harrow, run_label pushed [] [] none (.inl rfl)]
    exact verdict_closing pushed (.request [] []) _
  split
  · exact ⟨[123, 125], _, by decide, rfl⟩
  split
  · exact ⟨[123, 125], _, by decide, rfl⟩
  · rename_i hmessage hstruct henum
    exact absurd (by rw [if_neg hmessage, if_neg hstruct, if_neg henum]) hv

/-- The other way round: without its space the keyword declares nothing. -/
theorem keyword_apart (pushed : List SchemaField) {v : Bytes} (hv : expectsAfter v ≠ .failed) :
    (Scan.mk pushed (expectsAfter v) none).Apart (Scan.mk pushed .keyword (some v)) := by
  obtain ⟨q, f, hq, hverdict⟩ := exists_declared pushed hv
  refine ⟨q, congrArg Prod.snd hverdict, fun heq => ?_⟩
  obtain ⟨word', hword'⟩ := run_keyword_spaceless pushed (some v) hq
  rw [hverdict, hword'] at heq
  have hlen := congrArg (fun r => r.1.length) heq
  simp [Scan.verdict] at hlen

/-- **A word that ends at a space** goes on, or has ended: some text is accepted where it goes on,
and not read the same where it has ended. -/
theorem open_apart (pushed : List SchemaField) {e : Expects} (hends : e.ends = 32) (v : Bytes) :
    (Scan.mk pushed e (some v)).Apart (e.resume pushed (.ok v)) := by
  rcases eq_keyword_or_typed hends with rfl | ⟨block, field, he⟩
  · exact apart_keyword pushed v
  · exact (apart_typed pushed he v).1

/-- And the other way round, if any text is accepted there. -/
theorem resume_apart (pushed : List SchemaField) {e : Expects} (hends : e.ends = 32) {v q : Bytes}
    (hq : ((e.resume pushed (.ok v)).run q).verdict.2 = false) :
    (e.resume pushed (.ok v)).Apart (Scan.mk pushed e (some v)) := by
  rcases eq_keyword_or_typed hends with rfl | ⟨block, field, he⟩
  · refine keyword_apart pushed fun hfailed => ?_
    have hverdict : ((Scan.mk pushed (expectsAfter v) none).run q).verdict = (pushed, true) := by
      rw [hfailed]
      exact verdictOn_failed pushed (.good q)
    rw [Expects.resume, hverdict] at hq
    cases hq
  · exact (apart_typed pushed he v).2

/-! ### Replacing blanks -/

/-- `schema::run` reads the text to its end: no parser throws. -/
def Accepts (text : Bytes) : Prop := (declarations (.good text)).2 = false

instance (text : Bytes) : Decidable (Accepts text) := inferInstanceAs (Decidable (_ = _))

/-- **Blanks at a place may be replaced by others**: every text that has the first and is accepted
is accepted with the second, and the same declarations are returned. -/
def Replaceable (p w w' : Bytes) : Prop :=
  ∀ q, Accepts (p ++ w ++ q) →
    Accepts (p ++ w' ++ q) ∧
      ∀ schema : Schema, schema.run (some (p ++ w' ++ q)) = schema.run (some (p ++ w ++ q))

/-- What a text declares is the verdict at its end. -/
theorem declarations_eq_verdict (text : Bytes) :
    declarations (.good text) = (Scan.start.run text).verdict := by
  have hscan := scan_declarations [] (.good text)
  rw [List.nil_append] at hscan
  exact hscan.symm

/-- The verdict behind a place. -/
theorem declarations_append (p w q : Bytes) :
    declarations (.good (p ++ w ++ q)) = (((Scan.start.run p).run w).run q).verdict := by
  rw [declarations_eq_verdict, Scan.run_append, Scan.run_append]

/-- Two states that are apart are not behind blanks that may be replaced. -/
theorem not_replaceable_of_apart (p w w' : Bytes)
    (h : ((Scan.start.run p).run w).Apart ((Scan.start.run p).run w')) : ¬ Replaceable p w w' := by
  intro hreplace
  obtain ⟨q, haccepts, hne⟩ := h
  rw [← declarations_append] at haccepts
  obtain ⟨haccepts', hrun⟩ := hreplace q haccepts
  have hpushed := congrArg (fun r => r.2.fields) (hrun {})
  simp only [Schema.run, runLoop_eq_declarations, List.nil_append] at hpushed
  rw [← declarations_append, ← declarations_append] at hne
  exact hne (Prod.ext hpushed (haccepts'.trans haccepts.symm))

/-- **When blanks may be replaced**, at a place of a text that is accepted: unless the parser is
inside a word that ends at a space, always; there, when both have a space or neither has. -/
theorem replaceable_iff {p w w' q : Bytes} (hw : Blank w) (hw' : Blank w')
    (hq : Accepts (p ++ w ++ q)) :
    Replaceable p w w' ↔ ((Scan.start.run p).SpaceOpen → (32 ∈ w ↔ 32 ∈ w')) := by
  have hrun := scan_blank (Scan.start.run p) hw
  have hrun' := scan_blank (Scan.start.run p) hw'
  constructor
  · intro hreplace hopen
    rw [Accepts, declarations_append] at hq
    have hapart := not_replaceable_of_apart p w w'
    generalize Scan.start.run p = st at *
    obtain ⟨pushed, e, word⟩ := st
    obtain ⟨v, rfl⟩ := Option.ne_none_iff_exists'.mp hopen.1
    by_cases hmem : 32 ∈ w
    · refine iff_of_true hmem (by_contra fun hmem' => hapart ?_ hreplace)
      rw [if_pos ⟨hopen, hmem⟩] at hrun
      rw [if_neg fun h => hmem' h.2] at hrun'
      rw [hrun] at hq
      rw [hrun, hrun']
      exact resume_apart pushed hopen.2 hq
    · refine iff_of_false hmem fun hmem' => hapart ?_ hreplace
      rw [if_neg fun h => hmem h.2] at hrun
      rw [if_pos ⟨hopen, hmem'⟩] at hrun'
      rw [hrun, hrun']
      exact open_apart pushed hopen.2 v
  · intro hspace q haccepts
    have hsame : declarations (.good (p ++ w' ++ q)) = declarations (.good (p ++ w ++ q)) := by
      rw [declarations_append, declarations_append, hrun, hrun']
      simp only [and_congr_right hspace]
    refine ⟨(congrArg Prod.snd hsame).trans haccepts, fun schema => ?_⟩
    simp only [Schema.run, runLoop_eq_declarations, hsame]

/-- The space behind a type, with a line break in front of it. -/
theorem replaceable_lineBreak :
    Replaceable (textBytes "struct a\x7bint32") (textBytes " ") (textBytes "\n ") :=
  (replaceable_iff (by decide) (by decide)
    (show Accepts (textBytes "struct a\x7bint32" ++ textBytes " " ++ textBytes "x;\x7d") by
      rw [Accepts, declarations_eq_verdict]; decide +kernel)).mpr fun _ => by decide

/-- A tab in the place of the space behind a type: the type goes on in the name, and the semicolon
breaks it. -/
theorem not_replaceable_tab :
    ¬ ∀ p w w' q, Blank w → w ≠ [] → Blank w' → w' ≠ [] → Accepts (p ++ w ++ q) →
      Accepts (p ++ w' ++ q) ∧
        ∀ schema : Schema, schema.run (some (p ++ w' ++ q)) = schema.run (some (p ++ w ++ q)) := by
  intro h
  have haccepts : Accepts (textBytes "struct a\x7bint32" ++ textBytes " " ++ textBytes "x;\x7d") := by
    rw [Accepts, declarations_eq_verdict]
    decide +kernel
  have htab := (h (textBytes "struct a\x7bint32") (textBytes " ") (textBytes "\t")
    (textBytes "x;\x7d") (by decide) (by decide) (by decide) (by decide) haccepts).1
  rw [Accepts, declarations_eq_verdict] at htab
  exact absurd htab (by decide +kernel)

end Aquarius.Lazytool
