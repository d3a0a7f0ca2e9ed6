import Aquarius.HttpProtocol

/-!
# Header Blocks

What `http_header::deserialize` makes of a header block (`virgo/http_header.hpp`): of one that
`serialize` has written, in whatever order the map was enumerated, and of one that a peer has written
with any number of spaces behind the colon.

`deserialize` takes off exactly one character behind the colon, whatever it is.

## Main results

* `deserialize_serialize_perm`: **the map comes back**, with the bytes behind the block left over.
* `storesValues_iff`: exactly when a block with optional spaces is read as it is meant.
* `not_storesValues_unspaced`: without a space the value loses its first character.
-/

open Decoding

namespace Aquarius

/-- **The header block round trip.** A map whose names hold no colon and whose names and values hold
no line end, enumerated in any order and followed by any bytes, is read back into a new header as the
same map, and exactly the bytes that follow are left. -/
theorem deserialize_serialize_perm {fields order : HttpFields}
    (hfields : ∀ f ∈ fields, FieldCrlfFree f) (hdistinct : fields.Distinct)
    (horder : order.Perm fields) (b : Bytes) :
    ∃ header : HttpHeader,
      HttpHeader.deserialize {} (HttpHeader.serialize order ++ b) = (header, .ok b) ∧
        header.fields.Perm fields := by
  have hfree : ∀ f ∈ order, FieldCrlfFree f := fun f hf => hfields f (horder.mem_iff.mp hf)
  have hnodup : order.Distinct := (horder.map Prod.fst).nodup_iff.mpr hdistinct
  exact ⟨_, HttpHeader.deserialize_serialize_of_crlfFree hfree hnodup b, horder⟩

/-- Two fields, one of them empty, and a lone carriage return. -/
def twoFields : HttpFields := [([88], []), ([89], [97, 13])]

/-- The theorem at two fields in the other order, with a body that looks like a header. -/
theorem deserialize_serialize_twoFields :
    ∃ header : HttpHeader, HttpHeader.deserialize {}
        (HttpHeader.serialize twoFields.reverse ++ [90, 58, 32, 13, 10, 13, 10]) =
          (header, .ok [90, 58, 32, 13, 10, 13, 10]) ∧
        header.fields.Perm twoFields := by
  have hfields : ∀ f ∈ twoFields, FieldCrlfFree f := by
    have hsecond : CrlfFree [97, 13] := by
      intro p q h
      rcases p with _ | ⟨a, _ | ⟨b, p⟩⟩ <;> simp at h
    intro f hf
    rcases List.mem_cons.mp hf with rfl | hf
    · exact ⟨by simp, crlfFree_of_forall_ne (by simp), crlfFree_nil⟩
    · obtain rfl := List.mem_singleton.mp hf
      exact ⟨by simp, crlfFree_of_forall_ne (by simp), hsecond⟩
  have hdistinct : twoFields.Distinct := by simp [HttpFields.Distinct, twoFields]
  exact deserialize_serialize_perm hfields hdistinct (List.reverse_perm twoFields) _

/-! ### Optional spaces -/

/-- A line of a header block as a peer may write it: a name, a colon, spaces, and a value that does
not start with one. -/
structure HeaderLine where
  name : Bytes
  spaces : ℕ
  value : Bytes
  colon : ∀ b ∈ name, b ≠ 58
  nameCrlf : CrlfFree name
  valueCrlf : CrlfFree value
  head : value.head? ≠ some 32

namespace HeaderLine

/-- What stands behind the colon. -/
def behind (l : HeaderLine) : Bytes := List.replicate l.spaces 32 ++ l.value

/-- The line. -/
def text (l : HeaderLine) : Bytes := l.name ++ 58 :: l.behind

/-- Nothing stands behind the colon. -/
def Bare (l : HeaderLine) : Prop := l.spaces = 0 ∧ l.value = []

theorem bare_iff (l : HeaderLine) : l.Bare ↔ l.behind = [] := by
  simp [Bare, behind]

/-- A line has no line end in it. -/
theorem crlfFree_text (l : HeaderLine) : CrlfFree l.text := by
  have hspaces : ∀ n, CrlfFree (List.replicate n 32 ++ l.value) := by
    intro n
    induction n with
    | zero => exact l.valueCrlf
    | succ n ih => exact crlfFree_nil.append_cons (by decide) ih
  exact l.nameCrlf.append_cons (by decide) (hspaces l.spaces)

/-- **One character is taken off**, which leaves the value behind one space and nowhere else. -/
theorem drop_behind_iff (l : HeaderLine) (h : ¬ l.Bare) :
    l.behind.drop 1 = l.value ↔ l.spaces = 1 := by
  constructor
  · intro hdrop
    have hlen := congrArg List.length hdrop
    rw [List.length_drop, behind, List.length_append, List.length_replicate] at hlen
    have hne : l.value.length = 0 → l.value = [] := List.length_eq_zero_iff.mp
    by_contra hspaces
    exact h ⟨by omega, hne (by omega)⟩
  · intro hspaces
    rw [behind, hspaces]
    rfl

end HeaderLine

/-- A header block of such lines. -/
def headerBlock (lines : List HeaderLine) : Bytes :=
  (lines.flatMap fun l => l.text ++ crlf) ++ crlf

/-- The lines of a block, up to the blank one. -/
theorem splitCrlf_headerBlock (lines : List HeaderLine) (b : Bytes) :
    HttpHeader.splitCrlf (headerBlock lines ++ b) =
      lines.map HeaderLine.text ++ [] :: HttpHeader.splitCrlf b := by
  induction lines with
  | nil => rfl
  | cons l lines ih =>
      have hcons : headerBlock (l :: lines) ++ b = l.text ++ 13 :: 10 :: (headerBlock lines ++ b) := by
        simp [headerBlock, crlf]
      rw [hcons, HttpHeader.splitCrlf_line l.crlfFree_text, ih]
      rfl

/-- The fields after a line has been read. -/
def storeLine (fields : HttpFields) (l : HeaderLine) : HttpFields :=
  fields.emplace l.name (l.behind.drop 1)

/-- **One line**: it throws when nothing stands behind the colon, and else stores what it leaves of
that. -/
theorem readFields_line (fields : HttpFields) (length : ℕ) (l : HeaderLine) (pieces : List Bytes) :
    HttpHeader.readFields fields length (l.text :: pieces) =
      if l.behind = [] then (fields, .error .outOfRange)
      else HttpHeader.readFields (storeLine fields l) (length + (l.text.length + 2)) pieces := by
  have hcolon : find [58] l.text = some l.name.length := HttpHeader.find_colon l.colon _
  have hdrop : l.text.drop (l.name.length + 1) = l.behind := by
    rw [HeaderLine.text, List.drop_append, List.drop_of_length_le (Nat.le_succ _),
      Nat.add_sub_cancel_left]
    rfl
  have htake : l.text.take l.name.length = l.name := List.take_left
  have hne : ¬ l.text.isEmpty = true := by simp [HeaderLine.text]
  rw [HttpHeader.readFields, if_neg hne, hcolon]
  simp only [hdrop, htake, List.isEmpty_iff, storeLine]

/-- The loop over the lines of a block: it throws at the first bare one, and else stores them all. -/
theorem readFields_headerBlock (lines : List HeaderLine) (pieces : List Bytes)
    (fields : HttpFields) (length : ℕ) :
    (∃ l ∈ lines, l.Bare) ∧ (HttpHeader.readFields fields length
        (lines.map HeaderLine.text ++ [] :: pieces)).2 = .error .outOfRange ∨
    (∀ l ∈ lines, ¬ l.Bare) ∧ HttpHeader.readFields fields length
        (lines.map HeaderLine.text ++ [] :: pieces) = (lines.foldl storeLine fields,
          .ok (length + (lines.flatMap fun l => l.text ++ crlf).length)) := by
  induction lines generalizing fields length with
  | nil => exact .inr ⟨fun _ h => (nomatch h), rfl⟩
  | cons l lines ih =>
      rw [List.map_cons, List.cons_append, readFields_line]
      by_cases hbare : l.Bare
      · rw [if_pos (l.bare_iff.mp hbare)]
        exact .inl ⟨⟨l, List.mem_cons_self, hbare⟩, rfl⟩
      · rw [if_neg fun h => hbare (l.bare_iff.mpr h)]
        rcases ih (storeLine fields l) (length + (l.text.length + 2)) with
          ⟨⟨k, hk, hkbare⟩, herror⟩ | ⟨hall, hok⟩
        · exact .inl ⟨⟨k, List.mem_cons_of_mem l hk, hkbare⟩, herror⟩
        · refine .inr ⟨List.forall_mem_cons.mpr ⟨hbare, hall⟩, ?_⟩
          have hlength : length + (l.text.length + 2) +
              (lines.flatMap fun l => l.text ++ crlf).length =
                length + ((l :: lines).flatMap fun l => l.text ++ crlf).length := by
            simp only [List.flatMap_cons, List.length_append, crlf, List.length_cons,
              List.length_nil]
            omega
          rw [hok, hlength, List.foldl_cons]

/-- A value is added under its name, unless there is one. -/
theorem lookup_emplace (fields : HttpFields) (key v name : Bytes) :
    (fields.emplace key v).lookup name =
      (fields.lookup name).or (if name = key then some v else none) := by
  rw [HttpFields.emplace]
  split
  · rename_i hany
    by_cases hname : name = key
    · obtain ⟨f, hf, hkey⟩ := List.any_eq_true.mp hany
      have hsome : (fields.lookup name).isSome = true :=
        List.lookup_isSome_iff.mpr ⟨f, hf, by simpa [hname] using (of_decide_eq_true hkey).symm⟩
      rw [Option.or_of_isSome hsome]
    · rw [if_neg hname, Option.or_none]
  · have hlast : [(key, v)].lookup name = if name = key then some v else none := by
      by_cases hname : name = key
      · rw [if_pos hname, hname, List.lookup_cons_self]
      · rw [if_neg hname, List.lookup_cons, beq_eq_false_iff_ne.mpr hname]
        rfl
    rw [List.lookup_append, hlast]

/-- **What is stored under a name**: what was there, or what the first line of that name leaves. -/
theorem lookup_foldl_storeLine (lines : List HeaderLine) (name : Bytes) (fields : HttpFields) :
    (lines.foldl storeLine fields).lookup name =
      (fields.lookup name).or
        ((lines.find? fun l => l.name = name).map fun l => l.behind.drop 1) := by
  induction lines generalizing fields with
  | nil => rw [List.foldl_nil, List.find?_nil, Option.map_none, Option.or_none]
  | cons l lines ih =>
      rw [List.foldl_cons, ih, storeLine, lookup_emplace, Option.or_assoc]
      by_cases hname : name = l.name
      · rw [if_pos hname, Option.some_or, List.find?_cons_of_pos (by simp [hname])]
        rfl
      · rw [if_neg hname, Option.none_or,
          List.find?_cons_of_neg (by simpa using fun h => hname h.symm)]

/-- The value under a name that one line has. -/
theorem lookup_foldl_storeLine_of_mem {lines : List HeaderLine} {l : HeaderLine} (hl : l ∈ lines)
    (honce : (lines.map HeaderLine.name).count l.name = 1) (fields : HttpFields) :
    (lines.foldl storeLine fields).lookup l.name =
      (fields.lookup l.name).or (some (l.behind.drop 1)) := by
  obtain ⟨before, after, rfl⟩ := List.append_of_mem hl
  rw [List.map_append, List.map_cons, List.count_append, List.count_cons_self] at honce
  have hbefore : l.name ∉ before.map HeaderLine.name := List.count_eq_zero.mp (by omega)
  have hnone : before.find? (fun k => k.name = l.name) = none := by
    rw [List.find?_eq_none]
    intro k hk hname
    exact hbefore (List.mem_map.mpr ⟨k, hk, of_decide_eq_true hname⟩)
  rw [lookup_foldl_storeLine, List.find?_append, hnone, Option.none_or,
    List.find?_cons_of_pos (by simp)]
  rfl

/-- What is promised of a block read into a header: no exception, and every name that one line has
is stored with the value of the line. -/
def StoresValues (h : HttpHeader) (lines : List HeaderLine) (b : Bytes) : Prop :=
  ∃ header rest, h.deserialize (headerBlock lines ++ b) = (header, .ok rest) ∧
    ∀ l ∈ lines, (lines.map HeaderLine.name).count l.name = 1 →
      header.fields.lookup l.name = some l.value

/-- A line is read as it is meant: one space stands behind the colon. Where the header holds the
name already, it keeps its value. -/
def HeaderLine.Kept (fields : HttpFields) (l : HeaderLine) : Prop :=
  match fields.lookup l.name with
  | none => l.spaces = 1
  | some v => v = l.value

/-- What is stored under the name of a line that is not bare is its value when the line is kept. -/
theorem kept_iff {l : HeaderLine} (hbare : ¬ l.Bare) (fields : HttpFields) :
    (fields.lookup l.name).or (some (l.behind.drop 1)) = some l.value ↔ l.Kept fields := by
  rw [HeaderLine.Kept]
  cases fields.lookup l.name with
  | none => rw [Option.none_or, Option.some.injEq, l.drop_behind_iff hbare]
  | some v => rw [Option.some_or, Option.some.injEq]

/-- **A header block is read as it is meant** exactly when something stands behind every colon, and
exactly one space behind those of the names that occur once. -/
theorem storesValues_iff (h : HttpHeader) (lines : List HeaderLine) (b : Bytes) :
    StoresValues h lines b ↔
      (∀ l ∈ lines, l.spaces = 0 → l.value ≠ []) ∧
        ∀ l ∈ lines, (lines.map HeaderLine.name).count l.name = 1 → l.Kept h.fields := by
  have hbare : (∀ l ∈ lines, l.spaces = 0 → l.value ≠ []) ↔ ∀ l ∈ lines, ¬ l.Bare := by
    simp [HeaderLine.Bare]
  rw [StoresValues, HttpHeader.deserialize, splitCrlf_headerBlock, hbare]
  rcases readFields_headerBlock lines (HttpHeader.splitCrlf b) h.fields 0 with
    ⟨⟨l, hl, hlbare⟩, herror⟩ | ⟨hall, hok⟩
  · refine ⟨?_, fun hmeant => absurd hlbare (hmeant.1 l hl)⟩
    rintro ⟨header, rest, hread, -⟩
    split at hread
    · cases hread
    · rename_i hloop
      rw [hloop] at herror
      cases herror
  · have hstored : ∀ l ∈ lines, (lines.map HeaderLine.name).count l.name = 1 →
        ((lines.foldl storeLine h.fields).lookup l.name = some l.value ↔ l.Kept h.fields) := by
      intro l hl honce
      rw [lookup_foldl_storeLine_of_mem hl honce, kept_iff (hall l hl)]
    rw [hok]
    constructor
    · rintro ⟨header, rest, hread, hvalues⟩
      obtain ⟨rfl, -⟩ := Prod.mk.inj hread
      exact ⟨hall, fun l hl honce => (hstored l hl honce).mp (hvalues l hl honce)⟩
    · rintro ⟨-, hkept⟩
      exact ⟨_, _, rfl, fun l hl honce => (hstored l hl honce).mpr (hkept l hl honce)⟩

/-- The line `X:ab`, without a space. -/
def unspacedLine : HeaderLine where
  name := [88]
  spaces := 0
  value := [97, 98]
  colon := by simp
  nameCrlf := crlfFree_of_forall_ne (by simp)
  valueCrlf := crlfFree_of_forall_ne (by simp)
  head := by simp

/-- Without a space the value loses its first character. -/
theorem not_storesValues_unspaced :
    ¬ StoresValues {} [unspacedLine] [] ∧
      (HttpHeader.deserialize {} (headerBlock [unspacedLine])).1.fields = [([88], [98])] := by
  refine ⟨?_, by decide⟩
  rintro ⟨header, rest, hread, hvalues⟩
  have hfields : header.fields = [([88], [98])] := by
    have hrun := congrArg (fun r => r.1.fields) hread
    exact hrun.symm.trans (by decide)
  have hvalue := hvalues unspacedLine List.mem_cons_self (by decide)
  rw [hfields] at hvalue
  exact absurd hvalue (by decide)

end Aquarius
