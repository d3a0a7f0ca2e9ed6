import Aquarius.Convert
import Mathlib.Data.Int.ModEq

/-!
# Two Readers of `Content-Length`

The length of a body is read twice from the same bytes: `http::recv` searches everything in the buffer
for the text `Content-Length` and converts what stands behind it with `atoll` (`ip/http.hpp`), and
`http_header::content_length` looks the field up in the map that `deserialize` has made of the lines
(`virgo/http_header.hpp`).

The first reader takes the first mention of the text for the field, be it the end of a longer name, part
of a value or of the body.

## Main results

* `contentLength_mention`: what `recv` reads is the number behind the first mention.
* `readersAgree_iff`: exactly when the two readers agree.
* `not_readersAgree_longerName`: a field `X-Content-Length` is enough to make them differ.
-/

open Decoding

namespace Aquarius

/-- `http_header::content_length()`; `none` where the value is blank, as `to_integer` then returns a
variable that nothing was read into. -/
def HttpFields.readContentLength (fields : HttpFields) : Option ℕ :=
  let value := fields.find contentLengthKey
  if value ≠ [] ∧ value.all isSpace = true then none else some fields.contentLength

/-- The two readers agree on the bytes of a header and a body: both lengths are defined, and equal as
values of `std::size_t`. -/
def ReadersAgree (order : HttpFields) (body : Bytes) : Prop :=
  ∃ v header rest n, contentLength (HttpHeader.serialize order ++ body) = some v ∧
    HttpHeader.deserialize {} (HttpHeader.serialize order ++ body) = (header, .ok rest) ∧
    header.fields.readContentLength = some n ∧ BitVec.ofInt 64 v = BitVec.ofNat 64 n

/-! ### The first mention -/

/-- The number that the text behind a mention of the key says: none, that is zero, unless a colon
follows at once, a line end somewhere, and more than one character in between. -/
def numberBehind : Bytes → Option ℤ
  | 58 :: s =>
      match s.findIdx? isCrlf with
      | none => some 0
      | some i => if i = 1 ∨ s.drop 1 = [] then some 0 else atoll (s.drop 1)
  | _ => some 0

section Mention

variable {pre rest : Bytes}

/-- Without a mention there is no length. -/
theorem contentLength_of_find_none {text : Bytes} (h : find contentLengthKey text = none) :
    contentLength text = some 0 := by
  simp only [contentLength, filterKey, h, if_true]

/-- The offset of a byte behind the key. -/
private theorem findFirstOf_mention {p : UInt8 → Bool} (hkey : ∀ c ∈ contentLengthKey, p c = false) :
    findFirstOf p (pre ++ (contentLengthKey ++ rest)) pre.length =
      (rest.findIdx? p).map (· + (pre.length + 14)) := by
  have hnone : contentLengthKey.findIdx? p = none := List.findIdx?_eq_none_iff.mpr hkey
  have hlen : contentLengthKey.length = 14 := rfl
  rw [findFirstOf, List.drop_left, List.findIdx?_append, hnone, hlen, Option.none_or,
    Option.map_map]
  congr 1
  funext i
  simp only [Function.comp_apply]
  omega

/-- The text from the first mention to the next colon is the key only if the colon follows at once. -/
private theorem bytes_substr_mention {start : ℕ} (hstart : pre.length + 14 < start)
    (hrest : rest ≠ []) :
    (substr (pre ++ (contentLengthKey ++ rest)) pre.length (start - pre.length)).bytes ≠
      contentLengthKey := by
  intro h
  have hlen := congrArg List.length h
  have hkey : contentLengthKey.length = 14 := rfl
  have hpos : 0 < rest.length := List.length_pos_of_ne_nil hrest
  rw [StringView.bytes, substr, List.drop_left] at hlen
  simp only [List.length_take, List.length_append, hkey] at hlen
  omega

/-- The size of a text with a mention in it. -/
private theorem length_mention :
    (pre ++ (contentLengthKey ++ rest)).length = pre.length + 14 + rest.length := by
  rw [List.length_append, List.length_append]
  change pre.length + (14 + rest.length) = _
  omega

/-- The view behind a mention that a colon follows at once: it starts behind the character that comes
after the colon, and reaches to the line end. -/
private theorem filterKey_colon {s : Bytes} {i : ℕ}
    (hfind : find contentLengthKey (pre ++ (contentLengthKey ++ 58 :: s)) = some pre.length)
    (hsize : (pre ++ (contentLengthKey ++ 58 :: s)).length ≤ maxSize)
    (hline : s.findIdx? isCrlf = some i) :
    filterKey (pre ++ (contentLengthKey ++ 58 :: s)) contentLengthKey =
      ⟨s.drop 1, min ((2 ^ 64 + i - 1) % 2 ^ 64) (s.length - 1)⟩ := by
  have hlen : (pre ++ (contentLengthKey ++ 58 :: s)).length = pre.length + 14 + (s.length + 1) :=
    length_mention
  have hmax : maxSize = 2 ^ 63 - 1 := rfl
  rw [hlen, hmax] at hsize
  have hfirst : List.findIdx? isColon (58 :: s) = some 0 := rfl
  have hcrlf : List.findIdx? isCrlf (58 :: s) = some (i + 1) := by
    rw [List.findIdx?_cons, hline]
    rfl
  have hkey : (substr (pre ++ (contentLengthKey ++ 58 :: s)) pre.length
      (pre.length + 14 - pre.length)).bytes = contentLengthKey := by
    rw [StringView.bytes, substr, List.drop_left, Nat.add_sub_cancel_left, hlen,
      Nat.min_eq_left (by omega)]
    rfl
  have hdrop : (pre ++ (contentLengthKey ++ 58 :: s)).drop (pre.length + 14 + 2) = s.drop 1 := by
    rw [Nat.add_assoc, List.drop_length_add_append]
    rfl
  rw [filterKey, hfind]
  simp only [findFirstOf_mention (p := isCrlf) (by simp [contentLengthKey, isCrlf]),
    findFirstOf_mention (p := isColon) (by simp [contentLengthKey, isColon]), hfirst, hcrlf,
    Option.map_some, Option.getD_some, Nat.zero_add]
  rw [if_pos hkey, Nat.mod_eq_of_lt (by omega), substr, hdrop, hlen]
  congr 1
  omega

/-- A mention that no colon follows at once is not taken for the field. -/
private theorem filterKey_other (hcolon : ∀ s, rest ≠ 58 :: s)
    (hfind : find contentLengthKey (pre ++ (contentLengthKey ++ rest)) = some pre.length)
    (hsize : (pre ++ (contentLengthKey ++ rest)).length ≤ maxSize) :
    filterKey (pre ++ (contentLengthKey ++ rest)) contentLengthKey = ⟨[], 0⟩ := by
  have hmax : maxSize = 2 ^ 63 - 1 := rfl
  rw [length_mention, hmax] at hsize
  have hstart : pre.length + 14 <
      ((rest.findIdx? isColon).map (· + (pre.length + 14))).getD npos := by
    cases hindex : rest.findIdx? isColon with
    | none =>
        change pre.length + 14 < 2 ^ 64 - 1
        omega
    | some i =>
        obtain ⟨hi, hbyte, -⟩ := List.findIdx?_eq_some_iff_getElem.mp hindex
        have hpos : i ≠ 0 := by
          rintro rfl
          refine hcolon (rest.drop 1) ?_
          rw [← beq_iff_eq.mp hbyte]
          exact (List.getElem_cons_drop hi).symm
        change pre.length + 14 < i + (pre.length + 14)
        omega
  rw [filterKey, hfind]
  simp only [findFirstOf_mention (p := isCrlf) (by simp [contentLengthKey, isCrlf]),
    findFirstOf_mention (p := isColon) (by simp [contentLengthKey, isColon])]
  cases hline : rest.findIdx? isCrlf with
  | none => rfl
  | some e =>
      have hne : rest ≠ [] := by
        rintro rfl
        cases hline
      exact if_neg (bytes_substr_mention hstart hne)

/-- **What `recv` reads** is the number behind the first mention of the key. -/
theorem contentLength_mention
    (hfind : find contentLengthKey (pre ++ (contentLengthKey ++ rest)) = some pre.length)
    (hsize : (pre ++ (contentLengthKey ++ rest)).length ≤ maxSize) :
    contentLength (pre ++ (contentLengthKey ++ rest)) = numberBehind rest := by
  by_cases hcolon : ∃ s, rest = 58 :: s
  · obtain ⟨s, rfl⟩ := hcolon
    rw [contentLength, numberBehind]
    cases hline : s.findIdx? isCrlf with
    | none =>
        have hnone : List.findIdx? isCrlf (58 :: s) = none := by
          rw [List.findIdx?_cons, hline]
          rfl
        rw [filterKey, hfind]
        simp only [findFirstOf_mention (p := isCrlf) (by simp [contentLengthKey, isCrlf]), hnone]
        rfl
    | some i =>
        have hi : i < s.length := (List.findIdx?_eq_some_iff_getElem.mp hline).1
        have hnil : s.drop 1 = [] ↔ s.length ≤ 1 := List.drop_eq_nil_iff
        have hbound : s.length < 2 ^ 63 := by
          have hmax : maxSize = 2 ^ 63 - 1 := rfl
          rw [length_mention, List.length_cons] at hsize
          omega
        rw [filterKey_colon hfind hsize hline]
        refine if_congr ?_ rfl rfl
        rw [hnil]
        -- A line end right behind the colon makes the size wrap, so that the view is what is left.
        change min _ _ = 0 ↔ _
        omega
  · have hother : numberBehind rest = some 0 := by
      rw [numberBehind]
      exact fun s hs => hcolon ⟨s, hs⟩
    rw [contentLength, filterKey_other (not_exists.mp hcolon) hfind hsize, hother]
    rfl

end Mention

/-- The number that the first mention of the key in a text says; zero where there is none. -/
def mentionedNumber (text : Bytes) : Option ℤ :=
  match find contentLengthKey text with
  | none => some 0
  | some pos => numberBehind (text.drop (pos + 14))

/-- What `recv` reads in a buffer is what the first mention says. -/
theorem contentLength_eq_mentionedNumber {text : Bytes} (hsize : text.length ≤ maxSize) :
    contentLength text = mentionedNumber text := by
  rw [mentionedNumber]
  cases hfind : find contentLengthKey text with
  | none => exact contentLength_of_find_none hfind
  | some pos =>
      obtain ⟨rest, hrest⟩ := find_eq_some hfind
      have htext : text = text.take pos ++ (contentLengthKey ++ rest) := by
        rw [hrest, List.take_append_drop]
      have hpos : (text.take pos).length = pos := by
        have hlen := congrArg List.length hrest
        have hkey : contentLengthKey.length = 14 := rfl
        rw [List.length_append, List.length_drop, hkey] at hlen
        rw [List.length_take]
        omega
      have hbehind : text.drop (pos + 14) = rest := by
        rw [← List.drop_drop, ← hrest]
        rfl
      have hnumber : contentLength text = numberBehind rest := by
        rw [htext] at hfind hsize ⊢
        exact contentLength_mention (hfind.trans (congrArg some hpos.symm)) hsize
      simp only [hnumber, hbehind]

/-! ### The number of the field -/

/-- `atoll` reads the number at the front of a line, unless the line is blank. -/
theorem atoll_line {v : Bytes} (hv : v.all isSpace = false) (s : Bytes) :
    atoll (v ++ 13 :: s) = toLongLong (leadingInteger v) := by
  have hne : v.dropWhile isSpace ≠ [] := by
    intro hnil
    have hall : v.all isSpace = true := List.all_eq_true.mpr (List.dropWhile_eq_nil_iff.mp hnil)
    rw [hall] at hv
    cases hv
  have hskip : (v ++ 13 :: s).dropWhile isSpace = v.dropWhile isSpace ++ 13 :: s := by
    rw [List.dropWhile_append, if_neg (by simpa using hne)]
  have hdigit : isDigit 13 = false := by decide
  rw [atoll, hskip, readSign_append hne]
  simp only [readDigits_append_cons hdigit, leadingInteger]
  cases (readDigits 0 (readSign (v.dropWhile isSpace)).2).2 with
  | nil => rfl
  | cons b t => rfl

/-- What a value of the field says, up to the conversion to `std::size_t`: nothing is zero, and a blank
value says no number. -/
def SaysNumber (value : Bytes) (n : ℤ) : Prop :=
  value = [] ∧ n ≡ 0 [ZMOD 2 ^ 64] ∨
    value.all isSpace = false ∧ n ≡ extractUnsigned 64 value [ZMOD 2 ^ 64]

/-- Equal as values of `std::size_t`. -/
theorem ofInt_eq_ofNat_iff (v : ℤ) (n : ℕ) :
    BitVec.ofInt 64 v = BitVec.ofNat 64 n ↔ v ≡ n [ZMOD 2 ^ 64] := by
  rw [← BitVec.ofInt_natCast, Int.ModEq]
  constructor
  · intro h
    have hnat := congrArg BitVec.toNat h
    rw [BitVec.toNat_ofInt, BitVec.toNat_ofInt] at hnat
    push_cast at hnat
    omega
  · intro h
    refine BitVec.eq_of_toNat_eq ?_
    rw [BitVec.toNat_ofInt, BitVec.toNat_ofInt]
    push_cast
    omega

/-- What the header reads is what the value says. -/
theorem readContentLength_iff (fields : HttpFields) (v : ℤ) :
    (∃ n, fields.readContentLength = some n ∧ BitVec.ofInt 64 v = BitVec.ofNat 64 n) ↔
      SaysNumber (fields.find contentLengthKey) v := by
  simp only [HttpFields.readContentLength, HttpFields.contentLength, ofInt_eq_ofNat_iff, SaysNumber]
  generalize fields.find contentLengthKey = value
  by_cases hnil : value = []
  · subst hnil
    simp
  · by_cases hblank : value.all isSpace = true
    · simp [hnil, hblank]
    · simp [hnil, hblank]

/-- A value that both readers take for the same number: nothing, or a number in the range of
`long long`. -/
def Numeric (v : Bytes) : Prop :=
  v = [] ∨ v.all isSpace = false ∧ -2 ^ 63 ≤ leadingInteger v ∧ leadingInteger v < 2 ^ 63

/-- The number of the field, in its own line. -/
theorem numberBehind_line {v : Bytes} (hv : ∀ b ∈ v, b ≠ 13 ∧ b ≠ 10) (s : Bytes) :
    (∃ n, numberBehind (58 :: 32 :: (v ++ 13 :: s)) = some n ∧ SaysNumber v n) ↔ Numeric v := by
  have hline : (32 :: (v ++ 13 :: s)).findIdx? isCrlf = some (v.length + 1) := by
    have hnone : v.findIdx? isCrlf = none :=
      List.findIdx?_eq_none_iff.mpr fun b hb => by simp [isCrlf, hv b hb]
    have hrest : (v ++ 13 :: s).findIdx? isCrlf = some v.length := by
      rw [List.findIdx?_append, hnone, List.findIdx?_cons]
      simp [isCrlf]
    rw [List.findIdx?_cons, hrest]
    rfl
  have hnumber : numberBehind (58 :: 32 :: (v ++ 13 :: s)) =
      if v = [] then some 0 else atoll (v ++ 13 :: s) := by
    simp only [numberBehind, hline, List.drop_one, List.tail_cons]
    refine if_congr ?_ rfl rfl
    simp
  rw [hnumber, Numeric]
  by_cases hnil : v = []
  · simp [hnil, SaysNumber, Int.ModEq]
  cases hblank : v.all isSpace with
  | true => simp [SaysNumber, hnil, hblank]
  | false =>
      rw [if_neg hnil, atoll_line hblank, toLongLong]
      by_cases hrange : -2 ^ 63 ≤ leadingInteger v ∧ leadingInteger v < 2 ^ 63
      · have hsame : leadingInteger v ≡ extractUnsigned 64 v [ZMOD 2 ^ 64] := by
          rw [extractUnsigned, if_neg (by omega), Int.ModEq]
          omega
        rw [if_pos hrange]
        exact ⟨fun _ => .inr ⟨rfl, hrange⟩, fun _ => ⟨_, rfl, .inr ⟨hblank, hsame⟩⟩⟩
      · rw [if_neg hrange]
        constructor
        · rintro ⟨n, hn, -⟩
          cases hn
        · rintro (h | ⟨-, h⟩)
          · exact absurd h hnil
          · exact absurd h hrange

/-! ### The two readers -/

section Readers

variable {order : HttpFields} {body : Bytes}

/-- The first mention of the key is the name of the field itself, with the value `v`. -/
def OwnMention (order : HttpFields) (body v : Bytes) : Prop :=
  ∃ before after, order = before ++ (contentLengthKey, v) :: after ∧
    find contentLengthKey (HttpHeader.serialize order ++ body) =
      some (before.flatMap fun f => fieldLine f ++ crlf).length

/-- The first mention of the key is not the field, but the number behind it is what the field says, or
zero where there is no field. -/
def OtherMention (order : HttpFields) (body : Bytes) : Prop :=
  ∃ pos n, find contentLengthKey (HttpHeader.serialize order ++ body) = some pos ∧
    (∀ v, ¬ OwnMention order body v) ∧
    numberBehind ((HttpHeader.serialize order ++ body).drop (pos + 14)) = some n ∧
    SaysNumber (order.find contentLengthKey) n

/-- The line of the field, between the lines before it and what follows. -/
theorem serialize_append_cons (before after : HttpFields) (v body : Bytes) :
    HttpHeader.serialize (before ++ (contentLengthKey, v) :: after) ++ body =
      (before.flatMap fun f => fieldLine f ++ crlf) ++
        (contentLengthKey ++ 58 :: 32 :: (v ++ 13 :: (10 :: (HttpHeader.serialize after ++ body)))) := by
  simp [HttpHeader.serialize, fieldLine, crlf]

/-- Where the key is not mentioned there is no field. -/
theorem find_contentLength_of_find_none
    (h : find contentLengthKey (HttpHeader.serialize order ++ body) = none) :
    order.find contentLengthKey = [] := by
  rw [HttpFields.find]
  cases hlookup : order.lookup contentLengthKey with
  | none => rfl
  | some v =>
      obtain ⟨before, after, rfl, -⟩ := List.lookup_eq_some_iff.mp hlookup
      rw [serialize_append_cons] at h
      exact absurd h (find_ne_none _ _ _)

variable (hfields : ∀ f ∈ order, FieldWellFormed f) (hdistinct : order.Distinct)

include hfields hdistinct

/-- The readers agree when `recv` finds what the field says. -/
theorem readersAgree_iff_saysNumber :
    ReadersAgree order body ↔
      ∃ n, contentLength (HttpHeader.serialize order ++ body) = some n ∧
        SaysNumber (order.find contentLengthKey) n := by
  have hread := HttpHeader.deserialize_serialize hfields hdistinct body
  simp only [ReadersAgree, hread, ← readContentLength_iff]
  constructor
  · rintro ⟨v, header, rest, n, hv, heq, hn, hsame⟩
    obtain ⟨rfl, -⟩ := Prod.mk.inj heq
    exact ⟨v, hv, n, hn, hsame⟩
  · rintro ⟨v, hv, n, hn, hsame⟩
    exact ⟨v, _, _, n, hv, rfl, hn, hsame⟩

variable (hsize : (HttpHeader.serialize order ++ body).length ≤ maxSize)

include hsize

/-- A mention of the key is read where it stands. -/
theorem readersAgree_mention {pos : ℕ}
    (hfind : find contentLengthKey (HttpHeader.serialize order ++ body) = some pos) :
    ReadersAgree order body ↔
      ∃ n, numberBehind ((HttpHeader.serialize order ++ body).drop (pos + 14)) = some n ∧
        SaysNumber (order.find contentLengthKey) n := by
  rw [readersAgree_iff_saysNumber hfields hdistinct, contentLength_eq_mentionedNumber hsize,
    mentionedNumber, hfind]

/-- The field's own mention is read as the field is, if the value says a number. -/
theorem readersAgree_ownMention {v : Bytes} (hown : OwnMention order body v) :
    ReadersAgree order body ↔ Numeric v := by
  obtain ⟨before, after, rfl, hfind⟩ := hown
  have hmem : (contentLengthKey, v) ∈ before ++ (contentLengthKey, v) :: after :=
    List.mem_append_right before List.mem_cons_self
  have hbehind : (HttpHeader.serialize (before ++ (contentLengthKey, v) :: after) ++ body).drop
      ((before.flatMap fun f => fieldLine f ++ crlf).length + 14) =
        58 :: 32 :: (v ++ 13 :: (10 :: (HttpHeader.serialize after ++ body))) := by
    rw [serialize_append_cons, List.drop_length_add_append]
    rfl
  rw [readersAgree_mention hfields hdistinct hsize hfind, hbehind, find_of_mem hdistinct hmem]
  exact numberBehind_line (hfields _ hmem).value _

/-- **When the two readers agree.** For all well-formed fields in any order and any body: if the key is
not mentioned at all; if its first mention is the field itself, with an empty value or one with a number
in the range of `long long`; and else only if the number behind the first mention happens to be that of
the field. -/
theorem readersAgree_iff :
    ReadersAgree order body ↔
      find contentLengthKey (HttpHeader.serialize order ++ body) = none ∨
        (∃ v, OwnMention order body v ∧ Numeric v) ∨ OtherMention order body := by
  cases hfind : find contentLengthKey (HttpHeader.serialize order ++ body) with
  | none =>
      rw [readersAgree_iff_saysNumber hfields hdistinct, find_contentLength_of_find_none hfind]
      exact iff_of_true ⟨0, contentLength_of_find_none hfind, .inl ⟨rfl, rfl⟩⟩ (.inl rfl)
  | some pos =>
      simp only [reduceCtorEq, false_or]
      by_cases hown : ∃ v, OwnMention order body v
      · obtain ⟨v, hown⟩ := hown
        rw [readersAgree_ownMention hfields hdistinct hsize hown]
        constructor
        · exact fun hnumeric => .inl ⟨v, hown, hnumeric⟩
        · rintro (⟨w, hw, hnumeric⟩ | ⟨-, -, -, hother, -⟩)
          · exact (readersAgree_ownMention hfields hdistinct hsize hown).mp
              ((readersAgree_ownMention hfields hdistinct hsize hw).mpr hnumeric)
          · exact absurd hown (hother v)
      · rw [readersAgree_mention hfields hdistinct hsize hfind]
        constructor
        · rintro ⟨n, hn, hsays⟩
          exact .inr ⟨pos, n, hfind, not_exists.mp hown, hn, hsays⟩
        · rintro (⟨v, hv, -⟩ | ⟨q, n, hq, -, hn, hsays⟩)
          · exact absurd ⟨v, hv⟩ hown
          · obtain rfl := Option.some.inj (hfind.symm.trans hq)
            exact ⟨n, hn, hsays⟩

end Readers

/-- A host and a length of 5. -/
def hostedFields : HttpFields := [([72, 111, 115, 116], [97]), (contentLengthKey, [53])]

/-- The theorem at a body that mentions the key behind the field. -/
theorem readersAgree_hosted : ReadersAgree hostedFields contentLengthKey := by
  have hfields : ∀ f ∈ hostedFields, FieldWellFormed f := by
    intro f hf
    rcases List.mem_cons.mp hf with rfl | hf
    · exact ⟨by simp, by simp⟩
    · obtain rfl := List.mem_singleton.mp hf
      exact ⟨by simp [contentLengthKey], by simp⟩
  have hdistinct : hostedFields.Distinct := by
    simp [HttpFields.Distinct, hostedFields, contentLengthKey]
  have hown : OwnMention hostedFields contentLengthKey [53] :=
    ⟨[([72, 111, 115, 116], [97])], [], rfl, by decide⟩
  exact (readersAgree_iff hfields hdistinct (by decide)).mpr
    (.inr (.inl ⟨[53], hown, .inr (by decide)⟩))

/-- A field whose name ends in that of the length, in front of the length. -/
def longerNameFields : HttpFields := [(88 :: 45 :: contentLengthKey, [57]), (contentLengthKey, [53])]

/-- **The readers differ**: `X-Content-Length: 9` in front of `Content-Length: 5` is read as 9 by
`recv`, and as 5 by the header. -/
theorem not_readersAgree_longerName :
    (∀ f ∈ longerNameFields, FieldWellFormed f) ∧ longerNameFields.Distinct ∧
      contentLength (HttpHeader.serialize longerNameFields) = some 9 ∧
      longerNameFields.readContentLength = some 5 ∧ ¬ ReadersAgree longerNameFields [] := by
  have hfields : ∀ f ∈ longerNameFields, FieldWellFormed f := by
    intro f hf
    rcases List.mem_cons.mp hf with rfl | hf
    · exact ⟨by simp [contentLengthKey], by simp⟩
    · obtain rfl := List.mem_singleton.mp hf
      exact ⟨by simp [contentLengthKey], by simp⟩
  have hdistinct : longerNameFields.Distinct := by
    simp [HttpFields.Distinct, longerNameFields, contentLengthKey]
  have hrecv : contentLength (HttpHeader.serialize longerNameFields) = some 9 := by decide
  have hheader : longerNameFields.readContentLength = some 5 := by decide
  refine ⟨hfields, hdistinct, hrecv, hheader, ?_⟩
  rintro ⟨v, header, rest, n, hv, hread, hn, hsame⟩
  rw [HttpHeader.deserialize_serialize hfields hdistinct] at hread
  obtain ⟨rfl, -⟩ := Prod.mk.inj hread
  rw [List.append_nil, hrecv] at hv
  obtain rfl := Option.some.inj hv
  obtain rfl := Option.some.inj (hheader.symm.trans hn)
  exact absurd hsame (by decide)

end Aquarius
