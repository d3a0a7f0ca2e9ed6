import Aquarius.Library.Extraction

/-!
# Character Streams That Run Out

An input stream read one character at a time, as `std::istream` is by `peek`, `get` and `eof`:
the stream is good with the characters that are left, or it is at its end. Having no character
left is not yet the end: only a read that finds none sets `eofbit`, and from then on no read
succeeds.

## Main results

* `CharStream.skipSpace_blank`: blanks are skipped up to the first character that is none.
* `CharStream.skipSpace_blank_only`: skipping blanks with nothing behind them ends the stream.
* `CharStream.Delimited.andThen`: readers in a row do not pass a delimiter if none of them does.
-/

namespace Decoding

/-- Characters that are all blank. -/
def Blank (w : Bytes) : Prop := ∀ b ∈ w, isSpace b = true

instance (w : Bytes) : Decidable (Blank w) :=
  decidable_of_iff (w.all isSpace = true) List.all_eq_true

/-- There may be no blank. -/
theorem blank_nil : Blank [] := fun _ hb => absurd hb List.not_mem_nil

/-- The first character of blank text is blank, and so is what follows. -/
theorem blank_cons {b : UInt8} {w : Bytes} (h : Blank (b :: w)) :
    isSpace b = true ∧ Blank w :=
  ⟨h b List.mem_cons_self, fun c hc => h c (List.mem_cons_of_mem b hc)⟩

/-- A stream of characters: the ones left, or the end after a read that found none. -/
inductive CharStream where
  | good (rest : Bytes)
  | eof
  deriving DecidableEq, Repr

namespace CharStream

/-- What reading can still take: every character left, and the end. -/
def size : CharStream → ℕ
  | good rest => rest.length + 1
  | eof => 0

/-- `peek`: the next character, which stays; `none` is `traits::eof`. -/
def peek : CharStream → Option UInt8 × CharStream
  | good (b :: rest) => (some b, good (b :: rest))
  | good [] => (none, eof)
  | eof => (none, eof)

/-- `get`: the next character, which is taken. -/
def get : CharStream → Option UInt8 × CharStream
  | good (b :: rest) => (some b, good rest)
  | good [] => (none, eof)
  | eof => (none, eof)

/-- Blanks are taken one by one; looking for another past the last character ends the
stream. -/
def skipBlanks : Bytes → CharStream
  | [] => eof
  | b :: rest => if isSpace b then skipBlanks rest else good (b :: rest)

/-- `while (!eof()) { if (!isspace(peek())) break; get(); }` -/
def skipSpace : CharStream → CharStream
  | good rest => skipBlanks rest
  | eof => eof

/-- Skipping does not give characters back. -/
theorem size_skipSpace_le (s : CharStream) : s.skipSpace.size ≤ s.size := by
  cases s with
  | eof => exact le_refl _
  | good rest =>
      rw [skipSpace]
      induction rest with
      | nil => exact Nat.zero_le _
      | cons b rest ih =>
          rw [skipBlanks]
          split
          · exact ih.trans (Nat.le_succ _)
          · exact le_refl _

/-- **Skipping blanks** stops in front of the first character that is none. -/
theorem skipSpace_blank {w : Bytes} (hw : Blank w) {b : UInt8} (hb : isSpace b = false)
    (s : Bytes) : (good (w ++ b :: s)).skipSpace = good (b :: s) := by
  rw [skipSpace]
  induction w with
  | nil => rw [List.nil_append, skipBlanks, hb, if_neg Bool.false_ne_true]
  | cons c w ih =>
      obtain ⟨hc, hw⟩ := blank_cons hw
      rw [List.cons_append, skipBlanks, if_pos hc]
      exact ih hw

/-- Skipping blanks with nothing behind them ends the stream. -/
theorem skipSpace_blank_only {w : Bytes} (hw : Blank w) : (good w).skipSpace = eof := by
  rw [skipSpace]
  induction w with
  | nil => rfl
  | cons c w ih =>
      obtain ⟨hc, hw⟩ := blank_cons hw
      rw [skipBlanks, if_pos hc]
      exact ih hw

/-- What skipping blanks does to a text: it takes them all, or stops in front of a character. -/
theorem skipSpace_cases (t : Bytes) :
    (good t).skipSpace = eof ∨
      ∃ w b rest, t = w ++ b :: rest ∧ Blank w ∧ isSpace b = false := by
  induction t with
  | nil => exact .inl rfl
  | cons b t ih =>
      by_cases hb : isSpace b = true
      · rcases ih with heof | ⟨w, c, rest, rfl, hw, hc⟩
        · refine .inl ?_
          rw [skipSpace, skipBlanks, if_pos hb]
          exact heof
        · exact .inr ⟨b :: w, c, rest, rfl, List.forall_mem_cons.mpr ⟨hb, hw⟩, hc⟩
      · exact .inr ⟨[], b, t, rfl, blank_nil, eq_false_of_ne_true hb⟩

/-- The characters that are left. -/
def left : CharStream → Bytes
  | good rest => rest
  | eof => []

/-- From one stream to another at least one character is taken, or the end is reached. -/
def Advances (s s' : CharStream) : Prop :=
  s ≠ eof ∧ (s' = eof ∨ s'.left.length < s.left.length)

/-- A stream that is good is not at its end. -/
theorem good_ne_eof {rest : Bytes} : good rest ≠ eof := by
  intro h
  cases h

/-- The size measures it. -/
theorem advances_iff (s s' : CharStream) : Advances s s' ↔ s'.size < s.size := by
  cases s with
  | eof => exact iff_of_false (fun h => h.1 rfl) (Nat.not_lt_zero _)
  | good rest =>
      cases s' with
      | eof => exact iff_of_true ⟨good_ne_eof, .inl rfl⟩ (Nat.succ_pos _)
      | good rest' =>
          constructor
          · rintro ⟨-, h | h⟩
            · cases h
            · exact Nat.succ_lt_succ h
          · exact fun h => ⟨good_ne_eof, .inr (Nat.lt_of_succ_lt_succ h)⟩

/-- Reading a character advances. -/
theorem advances_get {s : CharStream} (hs : s ≠ eof) : s.Advances s.get.2 := by
  cases s with
  | eof => exact absurd rfl hs
  | good rest =>
      cases rest with
      | nil => exact ⟨hs, .inl rfl⟩
      | cons b rest => exact ⟨hs, .inr (Nat.lt_succ_self _)⟩

/-! ### Readers that stop at a delimiter -/

variable {α β : Type}

/-- A reader that does not pass the character `c`: it takes characters `inside` alone, and where it
meets `c` it takes it and fails with `true`. What it gives depends on nothing behind. -/
structure Delimited (c : UInt8) (inside : UInt8 → Prop)
    (read : CharStream → Except Bool α × CharStream) : Prop where
  ok : ∀ {t v s'}, read (good t) = (.ok v, s') →
    ∃ taken rest, t = taken ++ rest ∧ (∀ b ∈ taken, inside b) ∧ s' = good rest ∧
      ∀ x, read (good (taken ++ x)) = (.ok v, good x)
  closed : ∀ {t s'}, read (good t) = (.error true, s') →
    ∃ taken rest, t = taken ++ c :: rest ∧ (∀ b ∈ taken, inside b) ∧ s' = good rest ∧
      ∀ x, read (good (taken ++ c :: x)) = (.error true, good x)

/-- One reader behind another, which passes the failures `kept` of the first on, and makes the
others failures without the delimiter. -/
def andThen (kept : Bool) (read : CharStream → Except Bool α × CharStream)
    (next : α → CharStream → Except Bool β × CharStream) (s : CharStream) :
    Except Bool β × CharStream :=
  match read s with
  | (.error e, s) => (.error (kept && e), s)
  | (.ok v, s) => next v s

/-- **Readers in a row** do not pass the delimiter if none of them does. -/
theorem Delimited.andThen {c : UInt8} {inside : UInt8 → Prop} {kept : Bool}
    {read : CharStream → Except Bool α × CharStream}
    {next : α → CharStream → Except Bool β × CharStream} (hread : Delimited c inside read)
    (hnext : ∀ v, Delimited c inside (next v)) :
    Delimited c inside (CharStream.andThen kept read next) := by
  have hok : ∀ {v t s'}, read (good t) = (.ok v, s') →
      CharStream.andThen kept read next (good t) = next v s' := by
    intro v t s' h
    rw [CharStream.andThen, h]
  constructor
  · intro t w s' h
    rcases hr : read (good t) with ⟨e | v, s₁⟩
    · rw [CharStream.andThen, hr] at h
      cases h
    · obtain ⟨taken, rest, rfl, hin, rfl, hall⟩ := hread.ok hr
      rw [hok hr] at h
      obtain ⟨taken', rest', rfl, hin', rfl, hall'⟩ := (hnext v).ok h
      refine ⟨taken ++ taken', rest', (List.append_assoc ..).symm,
        List.forall_mem_append.mpr ⟨hin, hin'⟩, rfl, fun x => ?_⟩
      rw [List.append_assoc, hok (hall _), hall']
  · intro t s' h
    rcases hr : read (good t) with ⟨e | v, s₁⟩
    · rw [CharStream.andThen, hr] at h
      obtain ⟨he, rfl⟩ := Prod.mk.inj h
      have hkept : kept = true ∧ e = true := by simpa using he
      obtain ⟨rfl, rfl⟩ := hkept
      obtain ⟨taken, rest, rfl, hin, rfl, hall⟩ := hread.closed hr
      refine ⟨taken, rest, rfl, hin, rfl, fun x => ?_⟩
      rw [CharStream.andThen, hall]
      rfl
    · obtain ⟨taken, rest, rfl, hin, rfl, hall⟩ := hread.ok hr
      rw [hok hr] at h
      obtain ⟨taken', rest', rfl, hin', rfl, hall'⟩ := (hnext v).closed h
      refine ⟨taken ++ taken', rest', (List.append_assoc ..).symm,
        List.forall_mem_append.mpr ⟨hin, hin'⟩, rfl, fun x => ?_⟩
      rw [List.append_assoc, hok (hall _), hall']

/-- A reader that takes nothing. -/
theorem Delimited.pure (c : UInt8) (inside : UInt8 → Prop) (v : α) :
    Delimited c inside fun s => (.ok v, s) := by
  constructor
  · intro t w s' h
    obtain ⟨hw, rfl⟩ := Prod.mk.inj h
    cases hw
    exact ⟨[], t, rfl, fun b hb => absurd hb List.not_mem_nil, rfl, fun x => rfl⟩
  · intro t s' h
    cases (Prod.mk.inj h).1

end CharStream

end Decoding
