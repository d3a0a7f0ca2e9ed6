import Aquarius.SchemaParser

/-!
# Map Fields

The line `map K,V name;` in a structure or a part of a message, among fields of all kinds
(`lazytool/schema.cpp`). `parse_data_field` reads the type of the key as every other type is read,
with letters, digits and underscores, but the type of the value with letters only. A file with one
other value type gives no declarations at all.

## Main results

* `readEntry_map`: what becomes of one line.
* `parseFields_fieldLines`: a block of lines is read, or the parser returns false.
* `run_mapped_iff`: **a file with maps is recovered** exactly when all their value types are made of
  letters.
* `not_run_mapped_int32`: the line of the documentation.
-/

open Decoding

namespace Aquarius.Lazytool

/-! ### Files with maps -/

/-- A line of a block: a field as before, or a map. -/
inductive FieldLine where
  | field (type : FieldType) (name : Identifier)
  | map (key value name : Identifier)

/-- The line, with what it declares. -/
def FieldLine.entry : FieldLine → Entry
  | field type name => type.entry name
  | map key value name =>
      { line := textBytes "map " ++ (key.text ++ 44 :: (value.text ++ 32 :: (name.text ++ [59])))
        declared := (textBytes "std::map<" ++ key.text ++ textBytes ", " ++ value.text ++
          textBytes ">", name.text) }

/-- The value type of a map is made of letters. -/
def FieldLine.ValueAlpha : FieldLine → Prop
  | field _ _ => True
  | map _ value _ => ∀ b ∈ value.text, isAlpha b = true

/-- The lines of a block, with names of their own. -/
structure FieldLines where
  lines : List FieldLine
  distinct : (lines.map fun l => l.entry.declared.2).Nodup

/-- The lines with what they declare. -/
def FieldLines.entries (f : FieldLines) : List Entry := f.lines.map FieldLine.entry

/-- All value types are made of letters. -/
def FieldLines.ValuesAlpha (f : FieldLines) : Prop := ∀ l ∈ f.lines, l.ValueAlpha

/-- A declaration, which may have maps in it. -/
inductive MapDeclaration where
  | plain (d : Declaration)
  | struct (name : Identifier) (fields : FieldLines)
  | message (name : Identifier) (router : Router) (request response : FieldLines)

/-- What the parser should make of a declaration. -/
def MapDeclaration.parsed : MapDeclaration → SchemaField
  | plain d => d.parsed
  | struct name fields =>
      .field { type := .structure, name := name.text
               fields := fields.entries.map (·.declared) }
  | message name router request response =>
      .message
        { name := name.text
          router := router.text
          request := { bodyField .request name.text with
                       fields := request.entries.map (·.declared) }
          response := { bodyField .response name.text with
                        fields := response.entries.map (·.declared) } }

/-- All value types of a declaration are made of letters. -/
def MapDeclaration.ValuesAlpha : MapDeclaration → Prop
  | plain _ => True
  | struct _ fields => fields.ValuesAlpha
  | message _ _ request response => request.ValuesAlpha ∧ response.ValuesAlpha

/-- The word a declaration starts with. -/
def MapDeclaration.keyword : MapDeclaration → Bytes
  | plain d => d.keyword
  | struct _ _ => textBytes "struct"
  | message _ _ _ _ => textBytes "message"

/-- The text behind the keyword and its space. Blanks in front of a brace, a line or a part of a
message are free. -/
inductive MapDeclaration.Layout : MapDeclaration → Bytes → Prop
  | plain {d : Declaration} {block : Bytes} (h : d.Layout block) : Layout (.plain d) block
  | struct {name : Identifier} {fields : FieldLines} {w body : Bytes} (hw : Blank w)
      (hbody : Lines fields.entries body) :
      Layout (.struct name fields) (name.text ++ (w ++ 123 :: (body ++ [125])))
  | message {name : Identifier} {router : Router} {request response : FieldLines}
      {w w₁ w₁' w₂ w₂' w₃ body₁ body₂ : Bytes} (hw : Blank w)
      (hw₁ : Blank w₁) (hw₁' : Blank w₁') (hbody₁ : Lines request.entries body₁)
      (hw₂ : Blank w₂) (hw₂' : Blank w₂') (hbody₂ : Lines response.entries body₂)
      (hw₃ : Blank w₃) :
      Layout (.message name router request response)
        (name.text ++ (32 :: 45 :: 62 :: 32 :: (router.text ++ (w ++ 123 ::
            (w₁ ++ (textBytes "request" ++ (w₁' ++ 123 :: (body₁ ++ 125 ::
            (w₂ ++ (textBytes "response" ++ (w₂' ++ 123 :: (body₂ ++ 125 ::
            (w₃ ++ [125])))))))))))))

/-- The text of a file: its declarations, with any blanks around them. -/
inductive PrintsMapped : List MapDeclaration → Bytes → Prop
  | nil {w : Bytes} (hw : Blank w) : PrintsMapped [] w
  | cons {d : MapDeclaration} {ds : List MapDeclaration} {w block text : Bytes} (hw : Blank w)
      (hblock : d.Layout block) (h : PrintsMapped ds text) :
      PrintsMapped (d :: ds) (w ++ (d.keyword ++ 32 :: (block ++ text)))

/-! ### One line -/

/-- The loop of `read_value` stops at the first character that is no letter, in a type. -/
theorem readLoop_strict_of_not_alpha {word : Bytes} (hadm : ∀ b ∈ word, Token.standard.admits b = true)
    (hnot : ¬ ∀ b ∈ word, isAlpha b = true) (value s : Bytes) :
    ∃ rest, readLoop .strict 32 value (word ++ s) = (.error false, .good rest) := by
  induction word generalizing value with
  | nil => exact absurd (fun _ h => absurd h List.not_mem_nil) hnot
  | cons b word ih =>
      have hb := hadm b List.mem_cons_self
      have hne : b ≠ 32 := by
        rintro rfl
        exact absurd hb (by decide)
      rw [List.cons_append, readLoop, if_neg hne, if_neg (ne_true_of_eq_false (isSpace_of_admits hb))]
      by_cases halpha : isAlpha b = true
      · rw [if_pos (show Token.strict.admits b = true from halpha)]
        refine ih (fun c hc => hadm c (List.mem_cons_of_mem b hc)) ?_ _
        exact fun h => hnot (List.forall_mem_cons.mpr ⟨halpha, h⟩)
      · have hbrace : b ≠ 125 := by
          rintro rfl
          exact absurd hb (by decide)
        rw [if_neg (show ¬ Token.strict.admits b = true from halpha)]
        exact ⟨word ++ s, by simp [hbrace]⟩

/-- The value type of a map is read up to its space if it is made of letters, and else not at
all. -/
theorem readValue_valueType (value : Identifier) (s : Bytes) :
    ((∀ b ∈ value.text, isAlpha b = true) ∧
      readValue .strict 32 (.good (value.text ++ 32 :: s)) = (.ok value.text, .good s)) ∨
    (¬ (∀ b ∈ value.text, isAlpha b = true) ∧
      ∃ rest, readValue .strict 32 (.good (value.text ++ 32 :: s)) = (.error false, .good rest)) := by
  have hword := value.word 32 (by decide)
  by_cases halpha : ∀ b ∈ value.text, isAlpha b = true
  · have hstrict : Word .strict 32 value.text := fun b hb =>
      ⟨(hword b hb).1, (hword b hb).2.1, halpha b hb⟩
    have hread := readValue_spaced blank_nil hstrict value.ne_nil s
    rw [List.nil_append] at hread
    exact .inl ⟨halpha, hread⟩
  · refine .inr ⟨halpha, ?_⟩
    obtain ⟨b, word, hcons⟩ := List.exists_cons_of_ne_nil value.ne_nil
    have hskip : (CharStream.good (value.text ++ 32 :: s)).skipSpace =
        .good (value.text ++ 32 :: s) := by
      have hb : isSpace b = false := (hword b (by rw [hcons]; exact List.mem_cons_self)).2.1
      rw [hcons, List.cons_append]
      exact CharStream.skipSpace_blank blank_nil hb _
    rw [readValue, hskip]
    exact readLoop_strict_of_not_alpha (fun b hb => (hword b hb).2.2) halpha [] _

/-- The type of a map: read if the value type is, and else the parser returns false. -/
theorem readType_map (key value : Identifier) {w : Bytes} (hw : Blank w) (s : Bytes) :
    readType (.good (w ++ (textBytes "map" ++ 32 :: (key.text ++ 44 :: (value.text ++ 32 :: s))))) =
      match readValue .strict 32 (.good (value.text ++ 32 :: s)) with
      | (.error _, s) => (.error false, s)
      | (.ok v, s) =>
          (.ok (textBytes "std::map<" ++ key.text ++ textBytes ", " ++ v ++ textBytes ">"), s) := by
  have hmap : Word .standard 32 (textBytes "map") := word_of_all (by decide)
  have hkey : ∀ t, readValue .standard 44 (.good (key.text ++ 44 :: t)) =
      (.ok key.text, .good t) := fun t =>
    readValue_word rfl blank_nil (key.word 44 (by decide)) blank_nil t
  have hother : ¬ textBytes "map" = textBytes "repeated" := by decide
  rw [readType, readValue_spaced hw hmap (by decide)]
  rcases hvalue : readValue .strict 32 (.good (value.text ++ 32 :: s)) with ⟨e | v, s'⟩
  · simp only [if_neg hother, if_true, hkey, hvalue]
  · simp only [if_neg hother, if_true, hkey, hvalue]

/-- A line on which the parser returns false. -/
def Entry.Fails (e : Entry) : Prop :=
  ∀ w, Blank w → ∀ s, ∃ rest, readEntry true (.good (w ++ (e.line ++ s))) = (.error false, rest)

/-- **What becomes of a line**: it is read as it is declared, unless the value type of a map is not
made of letters. -/
theorem readEntry_line (l : FieldLine) :
    (l.ValueAlpha ∧ l.entry.ReadAs true) ∨ (¬ l.ValueAlpha ∧ l.entry.Fails) := by
  cases l with
  | field type name => exact .inl ⟨trivial, readAs_field type name⟩
  | map key value name =>
      have hspace : textBytes "map " = textBytes "map" ++ [32] := by decide
      have hline : ∀ (w s : Bytes), w ++ ((FieldLine.map key value name).entry.line ++ s) =
          w ++ (textBytes "map" ++ 32 :: (key.text ++ 44 :: (value.text ++ 32 ::
            (name.text ++ 59 :: s)))) := by
        intro w s
        simp [FieldLine.entry, hspace]
      by_cases halpha : ∀ b ∈ value.text, isAlpha b = true
      · refine .inl ⟨halpha, fun w hw s => ?_⟩
        have hread : readValue .strict 32 (.good (value.text ++ 32 :: (name.text ++ 59 :: s))) =
            (.ok value.text, .good (name.text ++ 59 :: s)) := by
          rcases readValue_valueType value (name.text ++ 59 :: s) with ⟨-, h⟩ | ⟨h, -⟩
          · exact h
          · exact absurd halpha h
        have hname := readValue_name name blank_nil s
        rw [List.nil_append] at hname
        rw [hline, readEntry, if_pos rfl, readType_map key value hw, hread]
        simp only [hname]
        rfl
      · refine .inr ⟨halpha, fun w hw s => ?_⟩
        obtain ⟨rest, hread⟩ : ∃ rest,
            readValue .strict 32 (.good (value.text ++ 32 :: (name.text ++ 59 :: s))) =
              (.error false, .good rest) := by
          rcases readValue_valueType value (name.text ++ 59 :: s) with ⟨h, -⟩ | ⟨-, h⟩
          · exact absurd h halpha
          · exact h
        refine ⟨.good rest, ?_⟩
        rw [hline, readEntry, if_pos rfl, readType_map key value hw, hread]

/-! ### Blocks -/

/-- A block with a line that fails, behind lines that are read. -/
theorem parseFields_of_fails {lines : List FieldLine} {body : Bytes}
    (hlines : Lines (lines.map FieldLine.entry) body)
    (hfails : ¬ ∀ l ∈ lines, l.ValueAlpha) (field : FieldBase) (s : Bytes) :
    ∃ field' rest, parseFields true field (.good (body ++ 125 :: s)) = (false, field', rest) := by
  induction lines generalizing field body with
  | nil => exact absurd (fun _ h => absurd h List.not_mem_nil) hfails
  | cons l lines ih =>
      rw [List.map_cons] at hlines
      cases hlines with
      | @cons _ _ w text hw htext =>
          have hassoc : w ++ (l.entry.line ++ text) ++ 125 :: s =
              w ++ (l.entry.line ++ (text ++ 125 :: s)) := by
            simp
          rw [hassoc, parseFields, if_neg (by simp)]
          rcases readEntry_line l with ⟨halpha, hread⟩ | ⟨-, hfail⟩
          · have hrest : ¬ ∀ l ∈ lines, l.ValueAlpha := fun h =>
              hfails (List.forall_mem_cons.mpr ⟨halpha, h⟩)
            rw [hread w hw]
            exact ih htext hrest _
          · obtain ⟨rest, hrest⟩ := hfail w hw (text ++ 125 :: s)
            rw [hrest]
            exact ⟨field, rest, rfl⟩

/-- **A block of lines** fills an empty field, or makes the parser return false. -/
theorem parseFields_fieldLines (fields : FieldLines) {body : Bytes}
    (hbody : Lines fields.entries body) {field : FieldBase} (hempty : field.fields = [])
    (s : Bytes) :
    (fields.ValuesAlpha ∧ parseFields true field (.good (body ++ 125 :: s)) =
      (true, { field with fields := fields.entries.map (·.declared) }, .good s)) ∨
    (¬ fields.ValuesAlpha ∧
      ∃ field' rest, parseFields true field (.good (body ++ 125 :: s)) = (false, field', rest)) := by
  by_cases halpha : fields.ValuesAlpha
  · refine .inl ⟨halpha, ?_⟩
    rw [parseFields_lines hbody, hempty, List.nil_append]
    · intro e he
      obtain ⟨l, hl, rfl⟩ := List.mem_map.mp he
      rcases readEntry_line l with ⟨-, hread⟩ | ⟨hnot, -⟩
      · exact hread
      · exact absurd (halpha l hl) hnot
    · rw [hempty, FieldLines.entries, List.map_map]
      exact fields.distinct
  · exact .inr ⟨halpha, parseFields_of_fails hbody halpha field s⟩

/-- A part of a message: read into its body, or the message is not read. -/
private theorem readProtocol_fieldLines {keyword : Bytes}
    (hkeyword : keyword = textBytes "request" ∨ keyword = textBytes "response")
    {field : FieldBase} (hempty : field.fields = []) (fields : FieldLines) {w w' body : Bytes}
    (hw : Blank w) (hw' : Blank w') (hbody : Lines fields.entries body) (s : Bytes) :
    (fields.ValuesAlpha ∧
      readProtocol field (.good (w ++ (keyword ++ (w' ++ 123 :: (body ++ 125 :: s))))) =
        (some { field with fields := fields.entries.map (·.declared) }, .good s)) ∨
    (¬ fields.ValuesAlpha ∧
      ∃ rest, readProtocol field (.good (w ++ (keyword ++ (w' ++ 123 :: (body ++ 125 :: s))))) =
        (none, rest)) := by
  rw [readProtocol_of_keyword hkeyword field hw hw']
  rcases parseFields_fieldLines fields hbody hempty s with
    ⟨halpha, hparse⟩ | ⟨hnot, field', rest, hparse⟩
  · rw [hparse]
    exact .inl ⟨halpha, rfl⟩
  · rw [hparse]
    exact .inr ⟨hnot, rest, rfl⟩

/-- The parser of a message. -/
private theorem parseMessageField_fieldLines (name : Identifier) (router : Router)
    {request response : FieldLines} {w w₁ w₁' w₂ w₂' body₁ body₂ : Bytes} (hw : Blank w)
    (hw₁ : Blank w₁) (hw₁' : Blank w₁') (hbody₁ : Lines request.entries body₁)
    (hw₂ : Blank w₂) (hw₂' : Blank w₂') (hbody₂ : Lines response.entries body₂) {s text : Bytes}
    (htext : text = w₁ ++ (textBytes "request" ++ (w₁' ++ 123 :: (body₁ ++ 125 ::
      (w₂ ++ (textBytes "response" ++ (w₂' ++ 123 :: (body₂ ++ 125 :: s)))))))) :
    ((request.ValuesAlpha ∧ response.ValuesAlpha) ∧
      parseMessageField (.good (name.text ++ (32 :: 45 :: 62 :: 32 :: (router.text ++
        (w ++ 123 :: text))))) =
      (some { name := name.text
              router := router.text
              request := { bodyField .request name.text with
                           fields := request.entries.map (·.declared) }
              response := { bodyField .response name.text with
                            fields := response.entries.map (·.declared) } }, .good s)) ∨
    (¬ (request.ValuesAlpha ∧ response.ValuesAlpha) ∧
      (parseMessageField (.good (name.text ++ (32 :: 45 :: 62 :: 32 :: (router.text ++
        (w ++ 123 :: text)))))).1 = none) := by
  rw [parseMessageField_of_router name router hw, htext]
  rcases readProtocol_fieldLines (.inl rfl) (rfl : (bodyField .request name.text).fields = [])
    request hw₁ hw₁' hbody₁ (w₂ ++ (textBytes "response" ++ (w₂' ++ 123 :: (body₂ ++ 125 :: s)))) with
    ⟨hrequest, hread₁⟩ | ⟨hrequest, rest, hread₁⟩
  · rw [hread₁]
    rcases readProtocol_fieldLines (.inr rfl) (rfl : (bodyField .response name.text).fields = [])
      response hw₂ hw₂' hbody₂ s with ⟨hresponse, hread₂⟩ | ⟨hresponse, rest, hread₂⟩
    · simp only [hread₂]
      exact .inl ⟨⟨hrequest, hresponse⟩, trivial⟩
    · simp only [hread₂]
      exact .inr ⟨fun h => hresponse h.2, trivial⟩
  · rw [hread₁]
    exact .inr ⟨fun h => hrequest h.1, rfl⟩

/-- **One declaration** is read, or its parser throws. -/
theorem invoke_mapped {d : MapDeclaration} {block : Bytes} (h : d.Layout block) (s : Bytes) :
    (d.ValuesAlpha ∧ ∃ rest, invoke d.keyword (.good (block ++ s)) = (some d.parsed, .good rest) ∧
      ∀ fields, runLoop fields (.good rest) = runLoop fields (.good s)) ∨
    (¬ d.ValuesAlpha ∧ ∃ rest, invoke d.keyword (.good (block ++ s)) = (none, rest)) := by
  cases h with
  | plain h => exact .inl ⟨trivial, invoke_layout h s⟩
  | @struct name fields w body hw hbody =>
      have hassoc : name.text ++ (w ++ 123 :: (body ++ [125])) ++ s =
          name.text ++ (w ++ 123 :: (body ++ 125 :: s)) := by
        simp
      rw [hassoc, MapDeclaration.keyword, invoke, if_neg (by decide), if_pos rfl]
      rcases parseFields_fieldLines fields hbody
        (rfl : (FieldBase.mk .structure name.text []).fields = []) s with
        ⟨halpha, hparse⟩ | ⟨hnot, field', rest, hparse⟩
      · exact .inl ⟨halpha, s, parseBlock_of_fields name hw hparse, fun _ => rfl⟩
      · have hname : ∀ text, readValue .standard 123 (.good (name.text ++ (w ++ 123 :: text))) =
            (.ok name.text, .good text) := fun text =>
          readValue_word (w := []) rfl blank_nil (name.word 123 rfl) hw text
        refine .inr ⟨hnot, rest, ?_⟩
        simp only [parseBlock, parseDataField, Bool.false_eq_true, if_false, hname, hparse]
  | @message name router request response w w₁ w₁' w₂ w₂' w₃ body₁ body₂ hw hw₁ hw₁' hbody₁
      hw₂ hw₂' hbody₂ hw₃ =>
      rw [MapDeclaration.keyword, invoke, if_pos rfl]
      simp only [List.append_assoc, List.cons_append, List.nil_append]
      rcases parseMessageField_fieldLines name router hw hw₁ hw₁' hbody₁ hw₂ hw₂' hbody₂
        (s := w₃ ++ 125 :: s) rfl with ⟨halpha, hparse⟩ | ⟨hnot, hparse⟩
      · refine .inl ⟨halpha, w₃ ++ 125 :: s, ?_, fun fields => runLoop_brace fields hw₃ s⟩
        rw [hparse]
        rfl
      · refine .inr ⟨hnot, ?_⟩
        rw [hparse]
        exact ⟨_, rfl⟩

/-! ### Files -/

/-- The keyword of a declaration is read up to its space. -/
private theorem word_mapKeyword (d : MapDeclaration) :
    Word .strict 32 d.keyword ∧ d.keyword ≠ [] := by
  have hstruct : Word .strict 32 (textBytes "struct") := word_of_all (by decide)
  have hmessage : Word .strict 32 (textBytes "message") := word_of_all (by decide)
  cases d with
  | plain d => exact word_keyword d
  | struct name fields => exact ⟨hstruct, List.cons_ne_nil _ _⟩
  | message name router request response => exact ⟨hmessage, List.cons_ne_nil _ _⟩

/-- **The loop over a file** reads all declarations, or the run ends with an exception. -/
theorem runLoop_mapped {ds : List MapDeclaration} {text : Bytes} (h : PrintsMapped ds text)
    (fields : List SchemaField) :
    ((∀ d ∈ ds, d.ValuesAlpha) ∧
      (runLoop fields (.good text)).1 = fields ++ ds.map MapDeclaration.parsed) ∨
    (¬ (∀ d ∈ ds, d.ValuesAlpha) ∧ (runLoop fields (.good text)).1 = []) := by
  induction h generalizing fields with
  | @nil w hw =>
      have hread : readValue .strict 32 (.good w) = (.error false, .eof) := by
        rw [readValue, CharStream.skipSpace_blank_only hw]
      rw [runLoop_skip hread, runLoop_eof]
      exact .inl ⟨fun _ h => absurd h List.not_mem_nil, by simp⟩
  | @cons d ds w block text hw hblock _ ih =>
      obtain ⟨hword, hne⟩ := word_mapKeyword d
      have hread := readValue_spaced hw hword hne (block ++ text)
      rcases invoke_mapped hblock text with ⟨halpha, rest, hinvoke, hrest⟩ | ⟨hnot, rest, hinvoke⟩
      · rw [runLoop_declared hread hinvoke, hrest]
        rcases ih (fields ++ [d.parsed]) with ⟨hall, hrun⟩ | ⟨hsome, hrun⟩
        · refine .inl ⟨List.forall_mem_cons.mpr ⟨halpha, hall⟩, ?_⟩
          rw [hrun, List.append_assoc]
          rfl
        · exact .inr ⟨fun h => hsome (List.forall_mem_cons.mp h).2, hrun⟩
      · refine .inr ⟨fun h => hnot (List.forall_mem_cons.mp h).1, ?_⟩
        rw [runLoop_eq_declarations, declarations_of_keyword (by simp) hread, hinvoke]
        rfl

/-- **When a file with maps is recovered.** For every list of declarations with plain, repeated and
map fields, in structures and in both parts of messages, and every layout of them: a new parser
returns them as they are declared exactly when the value types of all maps are made of letters. -/
theorem run_mapped_iff {ds : List MapDeclaration} {text : Bytes} (h : PrintsMapped ds text) :
    (Schema.run {} (some text)).1 = ds.map MapDeclaration.parsed ↔ ∀ d ∈ ds, d.ValuesAlpha := by
  rw [Schema.run]
  rcases runLoop_mapped h [] with ⟨hall, hrun⟩ | ⟨hsome, hrun⟩
  · exact iff_of_true (by rw [hrun, List.nil_append]) hall
  · refine iff_of_false (fun hempty => hsome ?_) hsome
    rw [hrun] at hempty
    have hnil : ds = [] := List.map_eq_nil_iff.mp hempty.symm
    rw [hnil]
    exact fun _ h => absurd h List.not_mem_nil

/-- The type of a text is an identifier. -/
private theorem isIdentifier_string : isIdentifier (textBytes "string") = true := by
  decide

/-- A type that is no keyword. -/
private theorem bool_ne_keyword :
    textBytes "bool" ≠ textBytes "repeated" ∧ textBytes "bool" ≠ textBytes "map" := by
  decide

/-- The names of the fields of a structure. -/
private theorem nodup_mapStruct : [textBytes "b", textBytes "keys", textBytes "c"].Nodup := by
  decide

/-- The structure `a` with a number, the map of a key type to a value type, and a text. -/
def mapStruct (key value : Identifier) : MapDeclaration :=
  .struct ⟨textBytes "a", by decide⟩
    ⟨[.field (.named ⟨textBytes "bool", by decide⟩ bool_ne_keyword) ⟨textBytes "b", by decide⟩,
      .map key value ⟨textBytes "keys", by decide⟩,
      .field (.repeated ⟨textBytes "string", isIdentifier_string⟩) ⟨textBytes "c", by decide⟩],
     nodup_mapStruct⟩

/-- How the structure is written. -/
private theorem prints_mapStruct (key value : Identifier) :
    PrintsMapped [mapStruct key value]
      (textBytes "struct a\x7b bool b; map " ++ (key.text ++ 44 :: (value.text ++
        textBytes " keys; repeated string c;\x7d"))) := by
  have hspace : Blank [32] := by decide
  have hlines := Lines.cons (e := (FieldLine.field (.named ⟨textBytes "bool", by decide⟩
      bool_ne_keyword) ⟨textBytes "b", by decide⟩).entry) hspace
    (Lines.cons (e := (FieldLine.map key value ⟨textBytes "keys", by decide⟩).entry) hspace
      (Lines.cons (e := (FieldLine.field (.repeated ⟨textBytes "string", by decide⟩)
        ⟨textBytes "c", by decide⟩).entry) hspace (Lines.nil blank_nil)))
  have hblock : (mapStruct key value).Layout _ := MapDeclaration.Layout.struct blank_nil hlines
  have hprints := PrintsMapped.cons blank_nil hblock (PrintsMapped.nil blank_nil)
  refine (congrArg (PrintsMapped [mapStruct key value]) ?_).mpr hprints
  simp [mapStruct, MapDeclaration.keyword, FieldLine.entry, FieldType.entry, FieldType.text,
    textBytes]

/-- The theorem at a map of numbers to texts, between two other fields. -/
theorem run_mapped_string :
    (Schema.run {} (some (textBytes "struct a\x7b bool b; map " ++ (textBytes "int32" ++ 44 ::
        (textBytes "string" ++ textBytes " keys; repeated string c;\x7d"))))).1 =
      [(mapStruct ⟨textBytes "int32", by decide⟩ ⟨textBytes "string", by decide⟩).parsed] := by
  refine (run_mapped_iff (prints_mapStruct ⟨textBytes "int32", by decide⟩
    ⟨textBytes "string", by decide⟩)).mpr ?_
  intro d hd
  obtain rfl := List.mem_singleton.mp hd
  intro l hl
  simp only [List.mem_cons, List.not_mem_nil, or_false] at hl
  rcases hl with rfl | rfl | rfl
  · trivial
  · exact List.all_eq_true.mp (by decide)
  · trivial

/-- **The line of the documentation**, `map int32,int32 keys;`: the file has no declarations. -/
theorem not_run_mapped_int32 :
    (Schema.run {} (some (textBytes "struct a\x7b bool b; map " ++ (textBytes "int32" ++ 44 ::
        (textBytes "int32" ++ textBytes " keys; repeated string c;\x7d"))))).1 = [] ∧
      ¬ (Schema.run {} (some (textBytes "struct a\x7b bool b; map " ++ (textBytes "int32" ++ 44 ::
        (textBytes "int32" ++ textBytes " keys; repeated string c;\x7d"))))).1 =
          [(mapStruct ⟨textBytes "int32", by decide⟩ ⟨textBytes "int32", by decide⟩).parsed] := by
  have hrun : (Schema.run {} (some (textBytes "struct a\x7b bool b; map " ++ (textBytes "int32" ++ 44 ::
      (textBytes "int32" ++ textBytes " keys; repeated string c;\x7d"))))).1 = [] := by
    rcases runLoop_mapped (prints_mapStruct ⟨textBytes "int32", by decide⟩
      ⟨textBytes "int32", by decide⟩) [] with ⟨hall, -⟩ | ⟨-, hrun⟩
    · have hmap := hall _ List.mem_cons_self (.map ⟨textBytes "int32", by decide⟩
        ⟨textBytes "int32", by decide⟩ ⟨textBytes "keys", by decide⟩) (by simp)
      exact absurd (List.all_eq_true.mpr hmap) (by decide)
    · exact hrun
  refine ⟨hrun, ?_⟩
  rw [hrun]
  intro h
  cases h

end Aquarius.Lazytool
