import Aquarius.Library.Decoder

/-!
# Quoted Literals

A string literal between double quotes, as an SQL server reads it: a quote inside is doubled or
escaped, a backslash escapes the byte behind it.

## Main results

* `readQuoted_eq_self_iff`: the texts that are the value of the literal that holds them as they are,
  exactly: those without quotes whose backslashes all stand in front of a wildcard, where they are
  kept. A text without backslashes is one of them (`verbatim_of_plain`).
-/

namespace Decoding

/-- A text between double quotes, as it is. -/
def quoted (s : Bytes) : Bytes := 34 :: (s ++ [34])

/-- What a backslash and the byte behind it stand for. -/
def unescape (b : UInt8) : Bytes :=
  if b = 48 then [0]
  else if b = 98 then [8]
  else if b = 110 then [10]
  else if b = 114 then [13]
  else if b = 116 then [9]
  else if b = 90 then [26]
  else if b = 37 ∨ b = 95 then [92, b]
  else [b]

/-- The value of a literal behind its opening quote, and what follows the closing one. -/
def readQuoted : Bytes → Option (Bytes × Bytes)
  | [] => none
  | 34 :: 34 :: s => (readQuoted s).map fun r => (34 :: r.1, r.2)
  | 34 :: s => some ([], s)
  | 92 :: b :: s => (readQuoted s).map fun r => (unescape b ++ r.1, r.2)
  | [92] => none
  | b :: s => (readQuoted s).map fun r => (b :: r.1, r.2)

/-- No byte of the text means anything else inside a literal. -/
def Plain (s : Bytes) : Prop := ∀ b ∈ s, b ≠ 34 ∧ b ≠ 92

/-- A byte that means nothing else is read as it is. -/
theorem readQuoted_cons {b : UInt8} (hquote : b ≠ 34) (hslash : b ≠ 92) (s : Bytes) :
    readQuoted (b :: s) = (readQuoted s).map fun r => (b :: r.1, r.2) := by
  rw [readQuoted] <;> simp [hquote, hslash]

/-- A quote with no second one behind it ends the literal. -/
theorem readQuoted_close {t : Bytes} (ht : t.head? ≠ some 34) :
    readQuoted (34 :: t) = some ([], t) := by
  rw [readQuoted]
  rintro u rfl
  exact ht rfl

section Inversion

variable {b : UInt8} {s x r : Bytes}

/-- What was read of two quotes and the rest. -/
theorem readQuoted_double (h : readQuoted (34 :: 34 :: s) = some (x, r)) :
    ∃ v, readQuoted s = some (v, r) ∧ x = 34 :: v := by
  rw [readQuoted, Option.map_eq_some_iff] at h
  obtain ⟨⟨v, r'⟩, hv, hvr⟩ := h
  obtain ⟨rfl, rfl⟩ := Prod.mk.inj hvr
  exact ⟨v, hv, rfl⟩

/-- What was read of a backslash, the byte behind it and the rest. -/
theorem readQuoted_escape (h : readQuoted (92 :: b :: s) = some (x, r)) :
    ∃ v, readQuoted s = some (v, r) ∧ x = unescape b ++ v := by
  rw [readQuoted, Option.map_eq_some_iff] at h
  obtain ⟨⟨v, r'⟩, hv, hvr⟩ := h
  obtain ⟨rfl, rfl⟩ := Prod.mk.inj hvr
  exact ⟨v, hv, rfl⟩

/-- What was read of a byte that means nothing else, and the rest. -/
theorem readQuoted_plain (hquote : b ≠ 34) (hslash : b ≠ 92)
    (h : readQuoted (b :: s) = some (x, r)) : ∃ v, readQuoted s = some (v, r) ∧ x = b :: v := by
  rw [readQuoted_cons hquote hslash, Option.map_eq_some_iff] at h
  obtain ⟨⟨v, r'⟩, hv, hvr⟩ := h
  obtain ⟨rfl, rfl⟩ := Prod.mk.inj hvr
  exact ⟨v, hv, rfl⟩

end Inversion

/-- The last case of the reader: a byte that is neither a quote nor a backslash. -/
private theorem ne_slash_of_case {b : UInt8} {s : Bytes}
    (hcons : ∀ (c : UInt8) (u : List UInt8), b = 92 → s = c :: u → False)
    (hnil : b = 92 → s = [] → False) : b ≠ 92 := by
  intro hb
  cases s with
  | nil => exact hnil hb rfl
  | cons c u => exact hcons c u hb rfl

private theorem head?_ne_of_case {s : Bytes} (hs : ∀ u : List UInt8, s = 34 :: u → False) :
    s.head? ≠ some 34 := by
  intro hhead
  obtain ⟨u, rfl⟩ := List.head?_eq_some_iff.mp hhead
  exact hs u rfl

/-- A literal takes at least its closing quote. -/
theorem length_readQuoted_lt {s v t : Bytes} (h : readQuoted s = some (v, t)) :
    t.length < s.length := by
  induction s using readQuoted.induct generalizing v t with
  | case1 => cases h
  | case2 s ih =>
      obtain ⟨u, hu, -⟩ := readQuoted_double h
      exact Nat.lt_succ_of_lt (Nat.lt_succ_of_lt (ih hu))
  | case3 s hs =>
      rw [readQuoted_close (head?_ne_of_case hs)] at h
      obtain ⟨-, rfl⟩ := Prod.mk.inj (Option.some.inj h)
      exact Nat.lt_succ_self _
  | case4 b s ih =>
      obtain ⟨u, hu, -⟩ := readQuoted_escape h
      exact Nat.lt_succ_of_lt (Nat.lt_succ_of_lt (ih hu))
  | case5 => cases h
  | case6 b s _ hquote hcons hnil ih =>
      obtain ⟨u, hu, -⟩ := readQuoted_plain hquote (ne_slash_of_case hcons hnil) h
      exact Nat.lt_succ_of_lt (ih hu)

/-! ### Texts read back as they are -/

/-- No quote, and every backslash in front of a wildcard. -/
def verbatim : Bytes → Bool
  | [] => true
  | 34 :: _ => false
  | 92 :: b :: s => (b == 37 || b == 95) && verbatim s
  | [92] => false
  | _ :: s => verbatim s

/-- A plain text is verbatim. -/
theorem verbatim_of_plain {s : Bytes} (hs : Plain s) : verbatim s = true := by
  induction s with
  | nil => rfl
  | cons b s ih =>
      obtain ⟨hquote, hslash⟩ := hs b (by simp)
      have hrest : verbatim s = true := ih fun c hc => hs c (by simp [hc])
      rw [verbatim] <;> simp [hquote, hslash, hrest]

/-- The text behind a literal starts with a byte that is read as it is. -/
def PlainHead (t : Bytes) : Prop := ∀ b ∈ t.head?, b ≠ 34 ∧ b ≠ 92

theorem PlainHead.head?_ne {t : Bytes} (ht : PlainHead t) : t.head? ≠ some 34 :=
  fun h => (ht 34 h).1 rfl

/-- Reading on past the end of a literal produces the byte behind it. -/
theorem PlainHead.readQuoted_ne {t : Bytes} (ht : PlainHead t) {v r : Bytes}
    (h : readQuoted t = some (v, r)) : ∃ b u, v = b :: u ∧ b ≠ 34 ∧ b ≠ 92 := by
  cases t with
  | nil => cases h
  | cons b t =>
      obtain ⟨hquote, hslash⟩ := ht b rfl
      obtain ⟨u, -, rfl⟩ := readQuoted_plain hquote hslash h
      exact ⟨b, u, rfl, hquote, hslash⟩

/-- What a backslash and a byte produce: a quote or a backslash themselves, the two before a
wildcard, or a byte that is read as it is. -/
private theorem unescape_cases (b : UInt8) :
    ((b = 34 ∨ b = 92) ∧ unescape b = [b]) ∨ ((b = 37 ∨ b = 95) ∧ unescape b = [92, b]) ∨
    ∃ c, unescape b = [c] ∧ c ≠ 34 ∧ c ≠ 92 := by
  unfold unescape
  split_ifs <;> simp_all
  by_cases hquote : b = 34 <;> by_cases hslash : b = 92 <;> simp_all

/-- Nothing but quotes and backslashes. -/
private def Special (d : Bytes) : Prop := ∀ b ∈ d, b = 34 ∨ b = 92

private theorem Special.append {c e : Bytes} (hc : Special c) (he : Special e) : Special (c ++ e) :=
  fun b hb => (List.mem_append.mp hb).elim (hc b) (he b)

private theorem Special.tail {c : UInt8} {d : Bytes} (h : Special (c :: d)) : Special d :=
  fun b hb => h b (List.mem_cons_of_mem c hb)

/-- A byte that is read as it is does not stand among them. -/
private theorem Special.not_mem {d : Bytes} (h : Special d) {b : UInt8} (hquote : b ≠ 34)
    (hslash : b ≠ 92) : b ∉ d :=
  fun hb => (h b hb).elim hquote hslash

/-- Such a byte does not come first where quotes and backslashes are to be produced. -/
private theorem Special.append_ne_cons {d : Bytes} (h : Special d) (hd : d ≠ []) {b : UInt8}
    (hquote : b ≠ 34) (hslash : b ≠ 92) (s v : Bytes) : d ++ s ≠ b :: v := by
  obtain ⟨c, d, rfl⟩ := List.exists_cons_of_ne_nil hd
  intro heq
  exact h.not_mem hquote hslash (by simp [(List.cons.inj heq).1])

/-- Quotes and backslashes are not what reading past the end of a literal produces. -/
private theorem Special.ne_readPast {d t v r : Bytes} (h : Special d) (ht : PlainHead t)
    (hv : readQuoted t = some (v, r)) (c : UInt8) : d ≠ c :: v := by
  obtain ⟨b, u, rfl, hb⟩ := ht.readQuoted_ne hv
  rintro rfl
  exact h.not_mem hb.1 hb.2 (by simp)

/-- A quote that no second one follows in the text ends the literal, unless it is the last byte. -/
private theorem readQuoted_close_append {s : Bytes} (hs : ∀ u : List UInt8, s = 34 :: u → False)
    (hne : s ≠ []) (t : Bytes) : readQuoted (34 :: (s ++ t)) = some ([], s ++ t) := by
  obtain ⟨b, s, rfl⟩ := List.exists_cons_of_ne_nil hne
  have hhead : (b :: s ++ t).head? ≠ some 34 := by
    rw [List.cons_append, List.head?_cons]
    exact head?_ne_of_case hs
  exact readQuoted_close hhead

/-- A reader that has fallen behind never catches up: with quotes and backslashes still to be
produced in front of the text it is about to read, it does not produce the text. Each step reads at
least as much as it produces, and what stands behind the literal is neither quote nor backslash. -/
private theorem readQuoted_ne_of_behind {t : Bytes} (ht : PlainHead t) (s d r : Bytes)
    (hd : d ≠ []) (hspecial : Special d) : readQuoted (s ++ 34 :: t) ≠ some (d ++ s, r) := by
  intro h
  have hquote : Special [34] := by simp [Special]
  have hslash : Special [92] := by simp [Special]
  induction s using readQuoted.induct generalizing d r with
  | case1 =>
      rw [List.nil_append, readQuoted_close ht.head?_ne, List.append_nil] at h
      exact hd (Prod.mk.inj (Option.some.inj h)).1.symm
  | case2 s ih =>
      obtain ⟨c, d, rfl⟩ := List.exists_cons_of_ne_nil hd
      simp only [List.cons_append] at h
      obtain ⟨v, hv, heq⟩ := readQuoted_double h
      obtain ⟨-, rfl⟩ := List.cons.inj heq
      refine ih (d ++ [34] ++ [34]) r (by simp) ((hspecial.tail.append hquote).append hquote) ?_
      rw [hv]
      simp
  | case3 s hs =>
      by_cases hne : s = []
      · -- the closing quote is taken for the second of two, and the literal goes on
        subst hne
        obtain ⟨v, hv, heq⟩ := readQuoted_double h
        exact (hspecial.append hquote).ne_readPast ht hv 34 heq
      · rw [List.cons_append, readQuoted_close_append hs hne] at h
        have hnil := (Prod.mk.inj (Option.some.inj h)).1
        exact hd (List.append_eq_nil_iff.mp hnil.symm).1
  | case4 b s ih =>
      simp only [List.cons_append] at h
      obtain ⟨v, hv, heq⟩ := readQuoted_escape h
      rcases unescape_cases b with ⟨hb, hunescape⟩ | ⟨hwild, hunescape⟩ | ⟨e, hunescape, he⟩
      · have hlast : Special [b] := by simpa [Special] using hb
        obtain ⟨c, d, rfl⟩ := List.exists_cons_of_ne_nil hd
        rw [hunescape] at heq
        obtain ⟨-, rfl⟩ := List.cons.inj heq
        refine ih (d ++ [92] ++ [b]) r (by simp) ((hspecial.tail.append hslash).append hlast) ?_
        rw [hv]
        simp
      · -- the wildcard would have to be the second of what is still to be produced
        have hne : b ≠ 34 ∧ b ≠ 92 := by rcases hwild with rfl | rfl <;> decide
        obtain ⟨c, d, rfl⟩ := List.exists_cons_of_ne_nil hd
        rw [hunescape] at heq
        obtain ⟨-, htail⟩ := List.cons.inj heq
        cases d with
        | nil => exact hne.2 (List.cons.inj htail).1.symm
        | cons e d => exact hspecial.tail.append_ne_cons (by simp) hne.1 hne.2 _ v htail
      · rw [hunescape] at heq
        exact hspecial.append_ne_cons hd he.1 he.2 _ v heq
  | case5 =>
      -- the closing quote is escaped, and the literal goes on
      obtain ⟨v, hv, heq⟩ := readQuoted_escape h
      exact (hspecial.append hslash).ne_readPast ht hv 34 heq
  | case6 b s _ hb hcons hnil ih =>
      have hb' := ne_slash_of_case hcons hnil
      obtain ⟨v, -, heq⟩ := readQuoted_plain hb hb' h
      exact hspecial.append_ne_cons hd hb hb' _ v heq

/-- A verbatim text is read back from between its quotes. -/
theorem readQuoted_of_verbatim {s : Bytes} (hs : verbatim s = true) {t : Bytes}
    (ht : t.head? ≠ some 34) : readQuoted (s ++ 34 :: t) = some (s, t) := by
  induction s using verbatim.induct with
  | case1 => exact readQuoted_close ht
  | case2 s => cases hs
  | case3 b s ih =>
      rw [verbatim, Bool.and_eq_true, Bool.or_eq_true, beq_iff_eq, beq_iff_eq] at hs
      obtain ⟨hwild, hs⟩ := hs
      have hkept : unescape b = [92, b] := by rcases hwild with rfl | rfl <;> rfl
      rw [List.cons_append, List.cons_append, readQuoted, ih hs, hkept]
      rfl
  | case4 => cases hs
  | case5 b s hquote hcons hnil ih =>
      have hslash := ne_slash_of_case hcons hnil
      have hrest : verbatim s = true := by rwa [verbatim] at hs <;> assumption
      rw [List.cons_append, readQuoted_cons hquote hslash, ih hrest]
      rfl

/-- **The texts read back** from between quotes are the verbatim ones. The first unit that is not
kept leaves the reader behind for good. -/
theorem readQuoted_eq_self_iff {t : Bytes} (ht : PlainHead t) (s : Bytes) :
    (∃ r, readQuoted (s ++ 34 :: t) = some (s, r)) ↔ verbatim s = true := by
  refine ⟨?_, fun hs => ⟨t, readQuoted_of_verbatim hs ht.head?_ne⟩⟩
  rintro ⟨r, h⟩
  induction s using readQuoted.induct generalizing r with
  | case1 => rfl
  | case2 s ih =>
      obtain ⟨v, hv, heq⟩ := readQuoted_double h
      obtain ⟨-, rfl⟩ := List.cons.inj heq
      exact absurd hv (readQuoted_ne_of_behind ht s [34] r (by simp) (by simp [Special]))
  | case3 s hs =>
      by_cases hne : s = []
      · subst hne
        obtain ⟨v, hv, heq⟩ := readQuoted_double h
        obtain ⟨b, u, rfl, -⟩ := ht.readQuoted_ne hv
        cases heq
      · rw [List.cons_append, readQuoted_close_append hs hne] at h
        cases h
  | case4 b s ih =>
      obtain ⟨v, hv, heq⟩ := readQuoted_escape h
      rcases unescape_cases b with ⟨hb, hunescape⟩ | ⟨hwild, hunescape⟩ | ⟨e, hunescape, he⟩
      · rw [hunescape] at heq
        obtain ⟨rfl, rfl⟩ := List.cons.inj heq
        exact absurd hv (readQuoted_ne_of_behind ht s [92] r (by simp) (by simp [Special]))
      · rw [hunescape] at heq
        obtain ⟨-, htail⟩ := List.cons.inj heq
        obtain ⟨-, rfl⟩ := List.cons.inj htail
        have hs : verbatim s = true := ih r hv
        simpa [verbatim, hs] using hwild
      · rw [hunescape] at heq
        exact absurd (List.cons.inj heq).1.symm he.2
  | case5 =>
      obtain ⟨v, hv, heq⟩ := readQuoted_escape h
      cases (List.cons.inj heq).1
  | case6 b s _ hb hcons hnil ih =>
      obtain ⟨v, hv, heq⟩ := readQuoted_plain hb (ne_slash_of_case hcons hnil) h
      obtain ⟨-, rfl⟩ := List.cons.inj heq
      have hs := ih r hv
      rw [verbatim] <;> assumption

end Decoding
