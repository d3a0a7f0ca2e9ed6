import Aquarius.SchemaBlanks

/-!
# Blocks and Bodies of a Message

A message of a schema has labelled blocks, and `parse_message_field` fills the two bodies of a
message from them. It reads each label and checks that it is one of the two, and then takes the
body by position: the first block is the request, whatever its label says, and the second the
response. What stands behind the second block is not looked at as part of the message.

The blocks are defined on the text alone: it is cut at the braces of a message, and each piece in
front of a brace is the label of what stands in it.

## Main results

* `delimited_readEntry`: no part of a field passes a closing brace.
* `parseFields_closed`: **a block is read up to its closing brace**, and depends on nothing behind.
* `blocks_of_parseMessageField`: what the bodies of a message are read from.
* `labelled_iff`: **which messages have the bodies they are labelled with**.
* `not_labelled_swapped`: a response in front of the request.
-/

open Decoding

namespace Aquarius.Lazytool

/-! ### What a word takes -/

/-- The characters in front of the end of a word: letters of the word and blanks. -/
def Stuff (token : Token) (ends : UInt8) (taken : Bytes) : Prop :=
  ∀ b ∈ taken, b ≠ ends ∧ (isSpace b = true ∨ token.admits b = true)

/-- A word keeps the characters that are no blanks. -/
def letters (taken : Bytes) : Bytes := taken.filter fun b => !isSpace b

/-- Blanks in front make no difference. -/
theorem letters_blank_append {w : Bytes} (hw : Blank w) (taken : Bytes) :
    letters (w ++ taken) = letters taken := by
  have hnone : letters w = [] := List.filter_eq_nil_iff.mpr fun b hb => by simp [hw b hb]
  rw [letters, List.filter_append, ← letters, hnone, List.nil_append, letters]

/-- The loop takes the stuff of a word. -/
theorem readLoop_stuff {token : Token} {ends : UInt8} {taken : Bytes}
    (h : Stuff token ends taken) (value x : Bytes) :
    readLoop token ends value (taken ++ x) = readLoop token ends (value ++ letters taken) x := by
  induction taken generalizing value with
  | nil => rw [List.nil_append, letters, List.filter_nil, List.append_nil]
  | cons b taken ih =>
      obtain ⟨hne, hb⟩ := h b List.mem_cons_self
      have hrest : Stuff token ends taken := fun c hc => h c (List.mem_cons_of_mem b hc)
      rw [List.cons_append, readLoop, if_neg hne]
      by_cases hspace : isSpace b = true
      · rw [if_pos hspace, ih hrest, letters, letters, List.filter_cons_of_neg (by simp [hspace])]
      · rw [if_neg hspace, if_pos (hb.resolve_left hspace), ih hrest, letters, letters,
          List.filter_cons_of_pos (by simp [hspace]), List.append_assoc, List.singleton_append]

/-- **A word that is read** is the stuff in front of its end. -/
theorem exists_of_readLoop_ok {token : Token} {ends : UInt8} {value t v : Bytes} {s' : CharStream}
    (h : readLoop token ends value t = (.ok v, s')) :
    ∃ taken rest, t = taken ++ ends :: rest ∧ Stuff token ends taken ∧
      v = value ++ letters taken ∧ s' = .good rest := by
  induction t generalizing value with
  | nil => cases h
  | cons b t ih =>
      have hcons : ∀ value', readLoop token ends value' t = (.ok v, s') → b ≠ ends →
          (isSpace b = true ∨ token.admits b = true) → value' = value ++ letters [b] →
          ∃ taken rest, b :: t = taken ++ ends :: rest ∧ Stuff token ends taken ∧
            v = value ++ letters taken ∧ s' = .good rest := by
        intro value' hread hne hb hvalue
        obtain ⟨taken, rest, rfl, hstuff, rfl, rfl⟩ := ih hread
        refine ⟨b :: taken, rest, rfl, List.forall_mem_cons.mpr ⟨⟨hne, hb⟩, hstuff⟩, ?_, rfl⟩
        rw [hvalue, List.append_assoc, letters, letters, letters, ← List.filter_append]
        rfl
      rw [readLoop] at h
      split at h
      case isTrue hends =>
        obtain ⟨hv, rfl⟩ := Prod.mk.inj h
        cases hv
        exact ⟨[], t, by rw [hends]; rfl, fun c hc => absurd hc List.not_mem_nil,
          (List.append_nil _).symm, rfl⟩
      case isFalse hends =>
        split at h
        case isTrue hspace =>
          exact hcons value h hends (.inl hspace) (by simp [letters, hspace])
        case isFalse hspace =>
          split at h
          case isTrue hadm =>
            exact hcons _ h hends (.inr hadm) (by simp [letters, hspace])
          case isFalse => cases (Prod.mk.inj h).1

/-- A word that a closing brace cuts. -/
theorem exists_of_readLoop_closed {token : Token} {ends : UInt8} {value t : Bytes}
    {s' : CharStream} (h : readLoop token ends value t = (.error true, s')) :
    ∃ taken rest, t = taken ++ 125 :: rest ∧ Stuff token ends taken ∧ s' = .good rest := by
  induction t generalizing value with
  | nil => cases h
  | cons b t ih =>
      have hcons : ∀ value', readLoop token ends value' t = (.error true, s') → b ≠ ends →
          (isSpace b = true ∨ token.admits b = true) →
          ∃ taken rest, b :: t = taken ++ 125 :: rest ∧ Stuff token ends taken ∧
            s' = .good rest := by
        intro value' hread hne hb
        obtain ⟨taken, rest, rfl, hstuff, rfl⟩ := ih hread
        exact ⟨b :: taken, rest, rfl, List.forall_mem_cons.mpr ⟨⟨hne, hb⟩, hstuff⟩, rfl⟩
      rw [readLoop] at h
      split at h
      case isTrue => cases (Prod.mk.inj h).1
      case isFalse hends =>
        split at h
        case isTrue hspace => exact hcons value h hends (.inl hspace)
        case isFalse hspace =>
          split at h
          case isTrue hadm => exact hcons _ h hends (.inr hadm)
          case isFalse =>
            obtain ⟨hbrace, rfl⟩ := Prod.mk.inj h
            have hb : b = 125 := by simpa using hbrace
            exact ⟨[], t, by rw [hb]; rfl, fun c hc => absurd hc List.not_mem_nil, rfl⟩

/-- `read_value` is its loop on a text that starts with no blank. -/
theorem readValue_of_head {token : Token} {ends b : UInt8} {w t : Bytes} (hw : Blank w)
    (hb : isSpace b = false) (ht : t.head? = some b) :
    readValue token ends (.good (w ++ t)) = readLoop token ends [] t := by
  cases t with
  | nil => cases ht
  | cons c t =>
      obtain rfl : c = b := Option.some.inj ht
      rw [readValue, CharStream.skipSpace_blank hw hb]

/-- **The characters of a word**, from the blanks in front to its end. -/
theorem exists_of_readValue_ok {token : Token} {ends : UInt8} {t v : Bytes} {s' : CharStream}
    (h : readValue token ends (.good t) = (.ok v, s')) :
    ∃ w taken rest, t = w ++ (taken ++ ends :: rest) ∧ Blank w ∧ Stuff token ends taken ∧
      v = letters taken ∧ s' = .good rest ∧
      ∀ x, readValue token ends (.good (w ++ (taken ++ ends :: x))) = (.ok v, .good x) := by
  rcases CharStream.skipSpace_cases t with heof | ⟨w, b, rest, rfl, hw, hb⟩
  · rw [readValue, heof] at h
    cases h
  · rw [readValue_of_head hw hb rfl] at h
    obtain ⟨taken, rest', ht, hstuff, hv, hs⟩ := exists_of_readLoop_ok h
    rw [List.nil_append] at hv
    refine ⟨w, taken, rest', by rw [ht], hw, hstuff, hv, hs, fun x => ?_⟩
    have hhead : (taken ++ ends :: x).head? = some b := by
      have hhead' : (taken ++ ends :: rest').head? = some b := by rw [← ht]; rfl
      cases taken <;> exact hhead'
    rw [readValue_of_head hw hb hhead, readLoop_stuff hstuff, readLoop_ends, hv, List.nil_append]

/-- The characters of a word that a closing brace cuts. -/
theorem exists_of_readValue_closed {token : Token} {ends : UInt8}
    (htoken : token.admits 125 = false) (hends : ends ≠ 125) {t : Bytes} {s' : CharStream}
    (h : readValue token ends (.good t) = (.error true, s')) :
    ∃ w taken rest, t = w ++ (taken ++ 125 :: rest) ∧ Blank w ∧ Stuff token ends taken ∧
      s' = .good rest ∧
      ∀ x, readValue token ends (.good (w ++ (taken ++ 125 :: x))) = (.error true, .good x) := by
  rcases CharStream.skipSpace_cases t with heof | ⟨w, b, rest, rfl, hw, hb⟩
  · rw [readValue, heof] at h
    cases h
  · rw [readValue_of_head hw hb rfl] at h
    obtain ⟨taken, rest', ht, hstuff, hs⟩ := exists_of_readLoop_closed h
    refine ⟨w, taken, rest', by rw [ht], hw, hstuff, hs, fun x => ?_⟩
    have hhead : (taken ++ 125 :: x).head? = some b := by
      have hhead' : (taken ++ 125 :: rest').head? = some b := by rw [← ht]; rfl
      cases taken <;> exact hhead'
    rw [readValue_of_head hw hb hhead, readLoop_stuff hstuff, readLoop, if_neg (Ne.symm hends),
      if_neg (by decide), if_neg (ne_true_of_eq_false htoken)]
    simp

/-! ### Fields do not pass a brace -/

/-- No brace. -/
def BraceFree (b : UInt8) : Prop := b ≠ 123 ∧ b ≠ 125

instance (b : UInt8) : Decidable (BraceFree b) := inferInstanceAs (Decidable (_ ∧ _))

/-- Blanks are no braces. -/
theorem braceFree_of_isSpace {b : UInt8} (hb : isSpace b = true) : BraceFree b := by
  constructor <;> (rintro rfl; cases hb)

/-- A word of a field has no brace. -/
theorem braceFree_of_admits {token : Token} (htoken : token ≠ .loose) {b : UInt8}
    (hb : token.admits b = true) : BraceFree b := by
  cases token with
  | loose => exact absurd rfl htoken
  | strict => constructor <;> (rintro rfl; cases hb)
  | standard => constructor <;> (rintro rfl; cases hb)

/-- Neither has what is read of it, with the blanks in front. -/
theorem braceFree_of_stuff {token : Token} (htoken : token ≠ .loose) {ends : UInt8}
    {w taken : Bytes} (hw : Blank w) (htaken : Stuff token ends taken) :
    ∀ b ∈ w ++ taken, BraceFree b := by
  refine List.forall_mem_append.mpr ⟨fun b hb => braceFree_of_isSpace (hw b hb), fun b hb => ?_⟩
  exact (htaken b hb).2.elim braceFree_of_isSpace (braceFree_of_admits htoken)

/-- **`read_value` does not pass a brace**, where the word may contain none. -/
theorem delimited_readValue {token : Token} (htoken : token ≠ .loose) {ends : UInt8}
    (hends : BraceFree ends) : CharStream.Delimited 125 BraceFree (readValue token ends) := by
  constructor
  · intro t v s' h
    obtain ⟨w, taken, rest, rfl, hw, htaken, -, rfl, hall⟩ := exists_of_readValue_ok h
    refine ⟨w ++ taken ++ [ends], rest, by simp, ?_, rfl, fun x => ?_⟩
    · exact List.forall_mem_append.mpr
        ⟨braceFree_of_stuff htoken hw htaken, List.forall_mem_singleton.mpr hends⟩
    · rw [← hall x]
      simp
  · intro t s' h
    have hbrace : token.admits 125 = false :=
      eq_false_of_ne_true fun hadm => (braceFree_of_admits htoken hadm).2 rfl
    obtain ⟨w, taken, rest, rfl, hw, htaken, rfl, hall⟩ :=
      exists_of_readValue_closed hbrace hends.2 h
    refine ⟨w ++ taken, rest, by simp, braceFree_of_stuff htoken hw htaken, rfl, fun x => ?_⟩
    rw [← hall x, List.append_assoc]

/-- The type of a field is words in a row. -/
theorem readType_eq_andThen :
    readType = CharStream.andThen true (readValue .standard 32) fun type =>
      if type = textBytes "repeated" then
        CharStream.andThen false (readValue .standard 32) fun t s =>
          (.ok (textBytes "std::vector<" ++ t ++ textBytes ">"), s)
      else if type = textBytes "map" then
        CharStream.andThen false (readValue .standard 44) fun key =>
          CharStream.andThen false (readValue .strict 32) fun value s =>
            (.ok (textBytes "std::map<" ++ key ++ textBytes ", " ++ value ++ textBytes ">"), s)
      else fun s => (.ok type, s) := by
  funext s
  rw [readType, CharStream.andThen]
  rcases readValue .standard 32 s with ⟨e | type, s₁⟩
  · rfl
  simp only
  by_cases hrepeated : type = textBytes "repeated"
  · rw [if_pos hrepeated, if_pos hrepeated, CharStream.andThen]
    rcases readValue .standard 32 s₁ with ⟨e | t, s₂⟩
    · rfl
    · rfl
  rw [if_neg hrepeated, if_neg hrepeated]
  by_cases hmap : type = textBytes "map"
  · rw [if_pos hmap, if_pos hmap, CharStream.andThen]
    rcases readValue .standard 44 s₁ with ⟨e | key, s₂⟩
    · rfl
    simp only
    rw [CharStream.andThen]
    rcases readValue .strict 32 s₂ with ⟨e | value, s₃⟩
    · rfl
    · rfl
  · rw [if_neg hmap, if_neg hmap]

/-- The type of a field does not pass a brace. -/
theorem delimited_readType : CharStream.Delimited 125 BraceFree readType := by
  have hspace : BraceFree 32 := by decide
  rw [readType_eq_andThen]
  refine (delimited_readValue Token.noConfusion hspace).andThen fun type => ?_
  split
  · exact (delimited_readValue Token.noConfusion hspace).andThen fun t => .pure 125 BraceFree _
  split
  · refine (delimited_readValue Token.noConfusion (by decide)).andThen fun key => ?_
    exact (delimited_readValue Token.noConfusion hspace).andThen fun value => .pure 125 BraceFree _
  · exact .pure 125 BraceFree _

/-- **An entry of a block** does not pass a brace. -/
theorem delimited_readEntry (hasKey : Bool) :
    CharStream.Delimited 125 BraceFree (readEntry hasKey) := by
  have hname : CharStream.Delimited 125 BraceFree (readValue .standard 59) :=
    delimited_readValue Token.noConfusion (by decide)
  have hentry : readEntry hasKey =
      CharStream.andThen true (fun s => if hasKey then readType s else (.ok [], s)) fun type =>
        CharStream.andThen true (readValue .standard 59) fun value s => (.ok (type, value), s) := by
    funext s
    rw [readEntry, CharStream.andThen]
    rcases (if hasKey then readType s else (.ok [], s)) with ⟨e | type, s₁⟩
    · rfl
    simp only
    rw [CharStream.andThen]
    rcases readValue .standard 59 s₁ with ⟨e | value, s₂⟩
    · rfl
    · rfl
  rw [hentry]
  have htype : CharStream.Delimited 125 BraceFree
      fun s => if hasKey then readType s else (.ok [], s) := by
    cases hasKey with
    | true => exact delimited_readType
    | false => exact .pure 125 BraceFree []
  exact htype.andThen fun type => hname.andThen fun value => .pure 125 BraceFree _

/-- **A block** is read up to the brace that closes it. What it holds depends on nothing behind. -/
theorem parseFields_closed {hasKey : Bool} {field field' : FieldBase} {t : Bytes} {s' : CharStream}
    (h : parseFields hasKey field (.good t) = (true, field', s')) :
    ∃ body rest, t = body ++ 125 :: rest ∧ (∀ b ∈ body, BraceFree b) ∧ s' = .good rest ∧
      ∀ x, parseFields hasKey field (.good (body ++ 125 :: x)) = (true, field', .good x) := by
  generalize hs : CharStream.good t = s at h
  fun_induction parseFields hasKey field s generalizing t with
  | case1 => cases hs
  | case2 field s _ e s₁ hread =>
      subst hs
      obtain ⟨rfl, rfl, rfl⟩ : e = true ∧ field = field' ∧ s₁ = s' := by simpa using h
      obtain ⟨body, rest, rfl, hbody, rfl, hall⟩ := (delimited_readEntry hasKey).closed hread
      refine ⟨body, rest, rfl, hbody, rfl, fun x => ?_⟩
      rw [parseFields, if_neg CharStream.noConfusion, hall]
  | case3 field s _ type value s₁ hread ih =>
      subst hs
      obtain ⟨taken, rest, rfl, htaken, rfl, hall⟩ := (delimited_readEntry hasKey).ok hread
      obtain ⟨body, rest', rfl, hbody, rfl, hall'⟩ := ih rfl h
      refine ⟨taken ++ body, rest', (List.append_assoc ..).symm,
        List.forall_mem_append.mpr ⟨htaken, hbody⟩, rfl, fun x => ?_⟩
      rw [List.append_assoc, parseFields, if_neg CharStream.noConfusion, hall]
      exact hall' x

/-! ### The blocks of a message -/

/-- The blocks of a text up to the brace that closes it: each label without its blanks, and the
text between the braces of its block. `inside` is what is read of a block that is open, with the
number of braces open in it. -/
def blocksFrom (label : Bytes) (inside : Option (ℕ × Bytes)) : Bytes → List (Bytes × Bytes)
  | [] => []
  | b :: rest =>
      match inside with
      | none =>
          if b = 123 then blocksFrom label (some (0, [])) rest
          else if b = 125 then []
          else blocksFrom (label ++ [b]) none rest
      | some (0, body) =>
          if b = 125 then (letters label, body) :: blocksFrom [] none rest
          else blocksFrom label (some (if b = 123 then 1 else 0, body ++ [b])) rest
      | some (depth + 1, body) =>
          blocksFrom label
            (some (if b = 125 then depth else if b = 123 then depth + 2 else depth + 1,
              body ++ [b])) rest

/-- The blocks of a message, in the text behind its keyword. -/
def messageBlocks (text : Bytes) : List (Bytes × Bytes) :=
  blocksFrom [] none ((text.dropWhile fun b => b != 123).drop 1)

/-- The field list of a block: what `parse_data_field` reads in it. -/
def blockFields (body : Bytes) : List (Bytes × Bytes) :=
  (parseFields true { type := .request, name := [], fields := [] }
    (.good (body ++ [125]))).2.1.fields

/-- A label. -/
theorem blocksFrom_label {pre : Bytes} (hpre : ∀ b ∈ pre, BraceFree b) (label rest : Bytes) :
    blocksFrom label none (pre ++ 123 :: rest) = blocksFrom (label ++ pre) (some (0, [])) rest := by
  induction pre generalizing label with
  | nil => rw [List.append_nil, List.nil_append, blocksFrom, if_pos rfl]
  | cons b pre ih =>
      obtain ⟨hopen, hclose⟩ := hpre b List.mem_cons_self
      rw [List.cons_append, blocksFrom, if_neg hopen, if_neg hclose,
        ih fun c hc => hpre c (List.mem_cons_of_mem b hc), List.append_assoc, List.singleton_append]

/-- A block that has no braces in it. -/
theorem blocksFrom_body {body : Bytes} (hbody : ∀ b ∈ body, BraceFree b) (label read rest : Bytes) :
    blocksFrom label (some (0, read)) (body ++ 125 :: rest) =
      (letters label, read ++ body) :: blocksFrom [] none rest := by
  induction body generalizing read with
  | nil => rw [List.append_nil, List.nil_append, blocksFrom, if_pos rfl]
  | cons b body ih =>
      obtain ⟨hopen, hclose⟩ := hbody b List.mem_cons_self
      rw [List.cons_append, blocksFrom, if_neg hclose, if_neg hopen,
        ih fun c hc => hbody c (List.mem_cons_of_mem b hc), List.append_assoc,
        List.singleton_append]

/-- The fields of a block do not depend on what kind of block they are read into. -/
theorem parseFields_congr (hasKey : Bool) {field other : FieldBase} (s : CharStream)
    (h : field.fields = other.fields) :
    (parseFields hasKey field s).1 = (parseFields hasKey other s).1 ∧
      (parseFields hasKey field s).2.1.fields = (parseFields hasKey other s).2.1.fields := by
  fun_induction parseFields hasKey field s generalizing other with
  | case1 =>
      rw [parseFields, if_pos rfl]
      exact ⟨rfl, h⟩
  | case2 field s hs e s' hread =>
      rw [parseFields, if_neg hs, hread]
      exact ⟨rfl, h⟩
  | case3 field s hs type value s' hread ih =>
      have hadd : (field.addField type value).fields = (other.addField type value).fields := by
        rw [FieldBase.addField, FieldBase.addField, h]
        split
        · exact h
        · rfl
      have hother : parseFields hasKey other s =
          parseFields hasKey (other.addField type value) s' := by
        rw [parseFields, if_neg hs, hread]
      rw [hother]
      exact ih hadd

/-- A label is one of two. -/
def IsLabel (label : Bytes) : Prop := label = textBytes "request" ∨ label = textBytes "response"

instance (label : Bytes) : Decidable (IsLabel label) := inferInstanceAs (Decidable (_ ∨ _))

/-- **One block of a message**: its label is one of the two, and the body it is read into gets its
fields. -/
theorem exists_of_readProtocol {field f : FieldBase} {t : Bytes} {s' : CharStream}
    (hfield : field.fields = []) (h : readProtocol field (.good t) = (some f, s')) :
    ∃ label body rest, s' = .good rest ∧ IsLabel label ∧ f.fields = blockFields body ∧
      blocksFrom [] none t = (label, body) :: blocksFrom [] none rest := by
  rw [readProtocol] at h
  rcases hread : readValue .strict 123 (.good t) with ⟨e | label, s₁⟩
  · rw [hread] at h
    cases (Prod.mk.inj h).1
  obtain ⟨w, taken, rest, rfl, hw, htaken, hlabel, rfl, -⟩ := exists_of_readValue_ok hread
  rw [hread] at h
  simp only [parseDataField, if_true] at h
  split at h
  · cases (Prod.mk.inj h).1
  rename_i hne
  have hlabels : IsLabel label := by
    rw [IsLabel]
    tauto
  rcases hfields : parseFields true field (.good rest) with ⟨_ | _, field', s₂⟩
  · rw [hfields] at h
    cases (Prod.mk.inj h).1
  rw [hfields] at h
  obtain ⟨hf, rfl⟩ := Prod.mk.inj h
  obtain rfl := Option.some.inj hf
  obtain ⟨body, rest', rfl, hbody, rfl, hall⟩ := parseFields_closed hfields
  have hpre := braceFree_of_stuff Token.noConfusion hw htaken
  have hletters : letters (w ++ taken) = label := by rw [letters_blank_append hw, hlabel]
  refine ⟨label, body, rest', rfl, hlabels, ?_, ?_⟩
  · have hcongr : (parseFields true field (.good (body ++ [125]))).2.1.fields = blockFields body :=
      (parseFields_congr true _ hfield).2
    rw [← hcongr, hall []]
  · rw [← List.append_assoc, blocksFrom_label hpre, blocksFrom_body hbody, List.nil_append,
      List.nil_append, hletters]

/-- The text behind the name and the router starts behind the first opening brace. -/
theorem messageBlocks_append {pre : Bytes} (hpre : ∀ b ∈ pre, b ≠ 123) (rest : Bytes) :
    messageBlocks (pre ++ 123 :: rest) = blocksFrom [] none rest := by
  have hdrop : (pre ++ 123 :: rest).dropWhile (fun b => b != 123) = 123 :: rest := by
    rw [List.dropWhile_append_of_pos fun b hb => bne_iff_ne.mpr (hpre b hb)]
    rfl
  rw [messageBlocks, hdrop, List.drop_one, List.tail_cons]

/-- A word in front of the router has no brace. -/
theorem exists_of_readValue_standard {ends : UInt8} (hends : BraceFree ends) {t v : Bytes}
    {s' : CharStream} (h : readValue .standard ends (.good t) = (.ok v, s')) :
    ∃ pre rest, t = pre ++ rest ∧ (∀ b ∈ pre, b ≠ 123) ∧ s' = .good rest := by
  obtain ⟨pre, rest, ht, hpre, hs, -⟩ :=
    (delimited_readValue Token.noConfusion hends).ok h
  exact ⟨pre, rest, ht, fun b hb => (hpre b hb).1, hs⟩

/-- The router ends at the first opening brace. -/
theorem exists_of_parseRouter {t router : Bytes} {s' : CharStream}
    (h : parseRouter (.good t) = (some router, s')) :
    ∃ pre rest, t = pre ++ 123 :: rest ∧ (∀ b ∈ pre, b ≠ 123) ∧ s' = .good rest := by
  revert h
  fun_cases parseRouter (.good t) with
  | case1 =>
      intro h
      cases (Prod.mk.inj h).1
  | case2 =>
      intro h
      cases (Prod.mk.inj h).1
  | case3 arrow s₁ harrow path s₂ hpath =>
      intro h
      obtain ⟨-, rfl⟩ := Prod.mk.inj h
      obtain ⟨pre, rest, rfl, hpre, rfl⟩ := exists_of_readValue_standard (by decide) harrow
      obtain ⟨w, taken, rest', rfl, hw, htaken, -, rfl, -⟩ := exists_of_readValue_ok hpath
      have hblank : ∀ b ∈ w, b ≠ 123 := fun b hb => (braceFree_of_isSpace (hw b hb)).1
      have hrouter : ∀ b ∈ taken, b ≠ 123 := fun b hb => (htaken b hb).1
      exact ⟨pre ++ (w ++ taken), rest', by simp,
        List.forall_mem_append.mpr ⟨hpre, List.forall_mem_append.mpr ⟨hblank, hrouter⟩⟩, rfl⟩

/-- **The blocks the bodies are read from**: the first for the request and the second for the
response, whatever their labels are. -/
theorem blocks_of_parseMessageField {t : Bytes} {m : MessageField} {s' : CharStream}
    (h : parseMessageField (.good t) = (some m, s')) :
    ∃ first second rest, messageBlocks t = first :: second :: rest ∧
      IsLabel first.1 ∧ IsLabel second.1 ∧
      m.request.fields = blockFields first.2 ∧ m.response.fields = blockFields second.2 := by
  revert h
  fun_cases parseMessageField (.good t) with
  | case1 =>
      intro h
      cases (Prod.mk.inj h).1
  | case2 =>
      intro h
      cases (Prod.mk.inj h).1
  | case3 =>
      intro h
      cases (Prod.mk.inj h).1
  | case4 =>
      intro h
      cases (Prod.mk.inj h).1
  | case5 name s₁ hname router s₂ hrouter request s₃ hrequest response s₄ hresponse =>
      intro h
      obtain ⟨hm, -⟩ := Prod.mk.inj h
      obtain rfl := Option.some.inj hm
      obtain ⟨pre, rest, rfl, hpre, rfl⟩ := exists_of_readValue_standard (by decide) hname
      obtain ⟨path, rest', rfl, hpath, rfl⟩ := exists_of_parseRouter hrouter
      obtain ⟨label, body, rest₁, rfl, hlabel, hfields, hblocks⟩ :=
        exists_of_readProtocol rfl hrequest
      obtain ⟨label', body', rest₂, -, hlabel', hfields', hblocks'⟩ :=
        exists_of_readProtocol rfl hresponse
      refine ⟨(label, body), (label', body'), blocksFrom [] none rest₂, ?_, hlabel, hlabel',
        hfields, hfields'⟩
      have hfront : ∀ b ∈ pre ++ path, b ≠ 123 := List.forall_mem_append.mpr ⟨hpre, hpath⟩
      rw [← List.append_assoc, messageBlocks_append hfront, hblocks, hblocks']

/-! ### The messages of a text -/

/-- The declarations of a stream, each with the text behind its keyword. -/
def located (s : CharStream) : List (SchemaField × Bytes) :=
  if _hs : s = .eof then []
  else
    match _hread : readValue .strict 32 s with
    | (.error _, s') => located s'
    | (.ok keyword, s') =>
        match _hinvoke : invoke keyword s' with
        | (none, _) => []
        | (some f, s'') => (f, s'.left) :: located s''
termination_by s.size
decreasing_by
  · have hlt := size_readValue_lt .strict 32 _hs
    rwa [_hread] at hlt
  · exact (size_le_of_invoke _hinvoke).trans_lt (size_lt_of_readValue_ok _hread)

/-- They are the declarations of the stream. -/
theorem map_fst_located (s : CharStream) : (located s).map Prod.fst = (declarations s).1 := by
  fun_induction located s with
  | case1 => rw [declarations, dif_pos rfl]; rfl
  | case2 s hs e s' hread ih =>
      rw [declarations, dif_neg hs, hread]
      exact ih
  | case3 s hs keyword s' hread s'' hinvoke =>
      rw [declarations_of_keyword hs hread, hinvoke]
      rfl
  | case4 s hs keyword s' hread f s'' hinvoke ih =>
      rw [declarations_of_keyword hs hread, hinvoke]
      exact congrArg (f :: ·) ih

/-- A message comes from the parser of messages. -/
theorem parseMessageField_of_invoke {keyword : Bytes} {s s' : CharStream} {m : MessageField}
    (h : invoke keyword s = (some (.message m), s')) : parseMessageField s = (some m, s') := by
  have hblock : ∀ type hasKey, parseBlock type hasKey s ≠ (some (.message m), s') := by
    intro type hasKey
    fun_cases parseBlock type hasKey s with
    | case1 =>
        intro h
        cases (Prod.mk.inj h).1
    | case2 =>
        intro h
        cases (Prod.mk.inj h).1
  rw [invoke] at h
  split at h
  · obtain ⟨hm, rfl⟩ := Prod.mk.inj h
    obtain ⟨m', hm', heq⟩ := Option.map_eq_some_iff.mp hm
    exact Prod.ext (hm'.trans (congrArg some (SchemaField.message.inj heq))) rfl
  split at h
  · exact absurd h (hblock .structure true)
  split at h
  · exact absurd h (hblock .enumture false)
  · cases (Prod.mk.inj h).1

/-- The text behind the keyword of a message is read as that message. -/
theorem parseMessageField_of_located {s : CharStream} {m : MessageField} {t : Bytes}
    (h : (.message m, t) ∈ located s) : ∃ s', parseMessageField (.good t) = (some m, s') := by
  fun_induction located s with
  | case1 => cases h
  | case2 s hs e s' hread ih => exact ih h
  | case3 => cases h
  | case4 s hs keyword s' hread f s'' hinvoke ih =>
      rcases List.mem_cons.mp h with heq | h
      · obtain ⟨rfl, ht⟩ := Prod.mk.inj heq
        cases s' with
        | eof => exact absurd rfl (ne_eof_of_readValue_ok hread)
        | good rest =>
            obtain rfl : t = rest := ht
            exact ⟨s'', parseMessageField_of_invoke hinvoke⟩
      · exact ih h

/-- The first declaration stands behind the first keyword. -/
theorem mem_located_of_first {s s' : CharStream} {keyword : Bytes} {f : SchemaField}
    {fs : List SchemaField} (hread : readValue .strict 32 s = (.ok keyword, s'))
    (hfirst : (declarations s).1 = f :: fs) : (f, s'.left) ∈ located s := by
  have hs : s ≠ .eof := by
    rintro rfl
    cases hread
  rw [declarations_of_keyword hs hread] at hfirst
  rw [located, dif_neg hs, hread]
  split at hfirst
  · cases hfirst
  · rename_i f' s'' hinvoke
    obtain ⟨rfl, -⟩ := List.cons.inj hfirst
    show _ ∈ (match _hinvoke : invoke keyword s' with
      | (none, _) => []
      | (some f, s'') => (f, s'.left) :: located s'')
    rw [hinvoke]
    exact List.mem_cons_self

/-! ### Labels and bodies -/

/-- The bodies a message has are those of its labelled blocks: one block has the label of each,
and the body has its fields. -/
structure Labelled (m : MessageField) (blocks : List (Bytes × Bytes)) : Prop where
  request : ∃ block, (blocks.filter fun b => b.1 = textBytes "request") = [block] ∧
    m.request.fields = blockFields block.2
  response : ∃ block, (blocks.filter fun b => b.1 = textBytes "response") = [block] ∧
    m.response.fields = blockFields block.2

/-- The first block is the request and the second the response, or they are the other way round
and have the same fields. No other block has one of the two labels. -/
def InOrder : List (Bytes × Bytes) → Prop
  | first :: second :: rest =>
      (first.1 = textBytes "request" ∧ second.1 = textBytes "response" ∨
        first.1 = textBytes "response" ∧ second.1 = textBytes "request" ∧
          blockFields first.2 = blockFields second.2) ∧
        ∀ block ∈ rest, ¬ IsLabel block.1
  | _ => False

/-- No block has the label. -/
theorem filter_label_eq_nil {blocks : List (Bytes × Bytes)}
    (h : ∀ block ∈ blocks, ¬ IsLabel block.1) {label : Bytes} (hlabel : IsLabel label) :
    (blocks.filter fun b => b.1 = label) = [] := by
  refine List.filter_eq_nil_iff.mpr fun block hblock heq => h block hblock ?_
  rwa [of_decide_eq_true heq]

/-- Blocks in order have the bodies of their labels. -/
theorem labelled_of_inOrder {m : MessageField} {first second : Bytes × Bytes}
    {rest : List (Bytes × Bytes)} (hrequest : m.request.fields = blockFields first.2)
    (hresponse : m.response.fields = blockFields second.2)
    (h : InOrder (first :: second :: rest)) : Labelled m (first :: second :: rest) := by
  obtain ⟨horder, hrest⟩ := h
  have hne : textBytes "request" ≠ textBytes "response" := by decide
  have hnone := fun {label : Bytes} => @filter_label_eq_nil rest hrest label
  rcases horder with ⟨hfirst, hsecond⟩ | ⟨hfirst, hsecond, hsame⟩
  · refine ⟨⟨first, ?_, hrequest⟩, second, ?_, hresponse⟩
    · simp [hfirst, hsecond, hne.symm, hnone (.inl rfl)]
    · simp [hfirst, hsecond, hne, hnone (.inr rfl)]
  · refine ⟨⟨second, ?_, hrequest.trans hsame⟩, first, ?_, hresponse.trans hsame.symm⟩
    · simp [hfirst, hsecond, hne.symm, hnone (.inl rfl)]
    · simp [hfirst, hsecond, hne, hnone (.inr rfl)]

/-- The bodies of their labels have only blocks in order. -/
theorem inOrder_of_labelled {m : MessageField} {first second : Bytes × Bytes}
    {rest : List (Bytes × Bytes)} (hfirst : IsLabel first.1) (hsecond : IsLabel second.1)
    (hrequest : m.request.fields = blockFields first.2)
    (h : Labelled m (first :: second :: rest)) : InOrder (first :: second :: rest) := by
  obtain ⟨⟨block, hblock, hfields⟩, block', hblock', -⟩ := h
  have hne : textBytes "request" ≠ textBytes "response" := by decide
  have hrest : (∀ label body, (label, body) ∈ rest → ¬ label = textBytes "request") →
      (∀ label body, (label, body) ∈ rest → ¬ label = textBytes "response") →
      ∀ b ∈ rest, ¬ IsLabel b.1 := by
    intro hnone hnone' b hb hlabel
    exact hlabel.elim (hnone b.1 b.2 hb) (hnone' b.1 b.2 hb)
  rcases hfirst with hfirst | hfirst <;> rcases hsecond with hsecond | hsecond
  · -- two requests
    simp [hfirst, hsecond] at hblock
  · obtain ⟨-, hnone⟩ : first = block ∧
        ∀ label body, (label, body) ∈ rest → ¬ label = textBytes "request" := by
      simpa [hfirst, hsecond, hne.symm] using hblock
    obtain ⟨-, hnone'⟩ : second = block' ∧
        ∀ label body, (label, body) ∈ rest → ¬ label = textBytes "response" := by
      simpa [hfirst, hsecond, hne] using hblock'
    exact ⟨.inl ⟨hfirst, hsecond⟩, hrest hnone hnone'⟩
  · obtain ⟨rfl, hnone⟩ : second = block ∧
        ∀ label body, (label, body) ∈ rest → ¬ label = textBytes "request" := by
      simpa [hfirst, hsecond, hne.symm] using hblock
    obtain ⟨-, hnone'⟩ : first = block' ∧
        ∀ label body, (label, body) ∈ rest → ¬ label = textBytes "response" := by
      simpa [hfirst, hsecond, hne] using hblock'
    exact ⟨.inr ⟨hfirst, hsecond, hrequest.symm.trans hfields⟩, hrest hnone hnone'⟩
  · -- two responses
    simp [hfirst, hsecond] at hblock'

/-- **Which messages have the bodies they are labelled with**: those whose blocks are in the order
in which the parser fills the bodies, whatever it is that it reads. -/
theorem labelled_iff {text t : Bytes} {m : MessageField}
    (h : (.message m, t) ∈ located (.good text)) :
    Labelled m (messageBlocks t) ↔ InOrder (messageBlocks t) := by
  obtain ⟨s', hparse⟩ := parseMessageField_of_located h
  obtain ⟨first, second, rest, hblocks, hfirst, hsecond, hrequest, hresponse⟩ :=
    blocks_of_parseMessageField hparse
  rw [hblocks]
  exact ⟨inOrder_of_labelled hfirst hsecond hrequest, labelled_of_inOrder hrequest hresponse⟩

/-- A message behind its keyword, with its blocks in the order of the repository's files. -/
def orderedMessage : Bytes :=
  textBytes "m -> /r\n\x7b\n\trequest \x7b int32 a; \x7d\n\tresponse \x7b repeated string b; \x7d\n\x7d"

/-- Its bodies are those of its labels. -/
theorem labelled_orderedMessage :
    ∃ m, (.message m, orderedMessage) ∈ located (.good (textBytes "message " ++ orderedMessage)) ∧
      Labelled m (messageBlocks orderedMessage) := by
  have hread : readValue .strict 32 (.good (textBytes "message " ++ orderedMessage)) =
      (.ok (textBytes "message"), .good orderedMessage) := by decide +kernel
  have hdeclared : declarations (.good (textBytes "message " ++ orderedMessage)) =
      ([.message
        { name := textBytes "m"
          router := textBytes "/r"
          request :=
            { bodyField .request (textBytes "m") with
              fields := [(textBytes "int32", textBytes "a")] }
          response :=
            { bodyField .response (textBytes "m") with
              fields := [(textBytes "std::vector<string>", textBytes "b")] } }], false) := by
    rw [declarations_eq_verdict]
    decide +kernel
  have hlocated := mem_located_of_first hread (congrArg Prod.fst hdeclared)
  have hblocks : messageBlocks orderedMessage =
      [(textBytes "request", textBytes " int32 a; "),
        (textBytes "response", textBytes " repeated string b; ")] := by decide +kernel
  refine ⟨_, hlocated, (labelled_iff hlocated).mpr ?_⟩
  rw [CharStream.left, hblocks]
  exact ⟨.inl ⟨rfl, rfl⟩, fun block hblock => absurd hblock List.not_mem_nil⟩

/-- An empty block. -/
theorem blockFields_nil : blockFields [] = [] := by
  rw [blockFields, parseFields, if_neg CharStream.noConfusion,
    readEntry_close true blank_nil []]

/-- A message behind its keyword, with the response in front. -/
def swappedMessage : Bytes :=
  textBytes "m->/r\x7bresponse\x7bint32 a;\x7drequest\x7b\x7d\x7d"

/-- A response in front of the request: its fields are read into the request. -/
theorem not_labelled_swapped :
    ¬ ∀ text m t, Accepts text → (.message m, t) ∈ located (.good text) →
      Labelled m (messageBlocks t) := by
  intro h
  have hread : readValue .strict 32 (.good (textBytes "message " ++ swappedMessage)) =
      (.ok (textBytes "message"), .good swappedMessage) := by decide +kernel
  have hdeclared : declarations (.good (textBytes "message " ++ swappedMessage)) =
      ([.message
        { name := textBytes "m"
          router := textBytes "/r"
          request :=
            { bodyField .request (textBytes "m") with
              fields := [(textBytes "int32", textBytes "a")] }
          response := bodyField .response (textBytes "m") }], false) := by
    rw [declarations_eq_verdict]
    decide +kernel
  have hblocks : messageBlocks swappedMessage =
      [(textBytes "response", textBytes "int32 a;"), (textBytes "request", [])] := by
    decide +kernel
  have hlabelled := h _ _ _ (congrArg Prod.snd hdeclared)
    (mem_located_of_first hread (congrArg Prod.fst hdeclared))
  obtain ⟨block, hblock, hfields⟩ := hlabelled.request
  rw [CharStream.left, hblocks] at hblock
  obtain rfl : (textBytes "request", []) = block := (List.cons.inj hblock).1
  rw [blockFields_nil] at hfields
  cases hfields

end Aquarius.Lazytool
