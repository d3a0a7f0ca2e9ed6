import Aquarius.Library.Decoder

/-!
# Searching Byte Strings

The searches of `std::string_view` that parsers are written with: `find`, the first
occurrence of a key, and `findFirstOf`, the first byte from a position on that has a property.
Positions are offsets from the start; `none` is `npos`.
-/

namespace Decoding

/-- The bytes of an ASCII text. -/
def textBytes (text : String) : Bytes := text.toList.map fun c => UInt8.ofNat c.toNat

/-- The bytes of two texts one after the other. -/
theorem textBytes_append (a b : String) : textBytes (a ++ b) = textBytes a ++ textBytes b := by
  rw [textBytes, String.toList_append, List.map_append]
  rfl

/-- The first position where `key` occurs. -/
def find (key : Bytes) : Bytes → Option ℕ
  | [] => if key.isPrefixOf [] then some 0 else none
  | b :: s => if key.isPrefixOf (b :: s) then some 0 else (find key s).map (· + 1)

/-- The first position from `pos` on whose byte satisfies `p`. -/
def findFirstOf (p : UInt8 → Bool) (s : Bytes) (pos : ℕ) : Option ℕ :=
  ((s.drop pos).findIdx? p).map (· + pos)

/-- A key is found where it occurs, unless it occurs earlier. -/
theorem find_eq_some {key s : Bytes} {pos : ℕ} (h : find key s = some pos) :
    key <+: s.drop pos := by
  induction s generalizing pos with
  | nil =>
      rw [find] at h
      split at h
      · rename_i hpre
        obtain rfl := Option.some.inj h
        exact List.isPrefixOf_iff_prefix.mp hpre
      · cases h
  | cons b s ih =>
      rw [find] at h
      split at h
      · rename_i hpre
        obtain rfl := Option.some.inj h
        exact List.isPrefixOf_iff_prefix.mp hpre
      · obtain ⟨p, hp, rfl⟩ := Option.map_eq_some_iff.mp h
        rw [List.drop_succ_cons]
        exact ih hp

/-- An occurrence is found in a longer text too: what follows cannot complete an earlier one,
which would have to end before. -/
theorem find_append {key s : Bytes} {pos : ℕ} (h : find key s = some pos) (t : Bytes) :
    find key (s ++ t) = some pos := by
  induction s generalizing pos with
  | nil =>
      rw [find] at h
      split at h
      · rename_i hpre
        obtain rfl := Option.some.inj h
        obtain rfl : key = [] := List.prefix_nil.mp (List.isPrefixOf_iff_prefix.mp hpre)
        cases t with
        | nil => rfl
        | cons b t => rfl
      · cases h
  | cons b s ih =>
      have hkey := (find_eq_some h).length_le
      rw [find] at h
      rw [List.cons_append, find]
      split at h
      · rename_i hpre
        obtain rfl := Option.some.inj h
        rw [if_pos]
        exact List.isPrefixOf_iff_prefix.mpr
          ((List.isPrefixOf_iff_prefix.mp hpre).trans (List.prefix_append (b :: s) t))
      · rename_i hpre
        obtain ⟨p, hp, rfl⟩ := Option.map_eq_some_iff.mp h
        rw [if_neg, ih hp]
        · rfl
        · intro hpre'
          refine hpre (List.isPrefixOf_iff_prefix.mpr ?_)
          refine List.prefix_of_prefix_length_le (List.isPrefixOf_iff_prefix.mp hpre')
            (List.prefix_append (b :: s) t) ?_
          rw [List.length_drop] at hkey
          omega

/-- A key that occurs is found, there or earlier. -/
theorem find_ne_none (key pre post : Bytes) : find key (pre ++ (key ++ post)) ≠ none := by
  induction pre with
  | nil =>
      have hpre : key.isPrefixOf (key ++ post) = true :=
        List.isPrefixOf_iff_prefix.mpr (List.prefix_append key post)
      rw [List.nil_append]
      cases hs : key ++ post with
      | nil =>
          rw [hs] at hpre
          rw [find, if_pos hpre]
          exact Option.some_ne_none _
      | cons b s =>
          rw [hs] at hpre
          rw [find, if_pos hpre]
          exact Option.some_ne_none _
  | cons b pre ih =>
      rw [List.cons_append, find]
      split
      · exact Option.some_ne_none _
      · exact fun h => ih (Option.map_eq_none_iff.mp h)

/-- The first byte with the property, behind a run of bytes without it. -/
theorem findFirstOf_append {p : UInt8 → Bool} {run : Bytes} {b : UInt8}
    (hrun : ∀ c ∈ run, p c = false) (hb : p b = true) (pre s : Bytes) :
    findFirstOf p (pre ++ (run ++ b :: s)) pre.length = some (pre.length + run.length) := by
  rw [findFirstOf, List.drop_left, List.findIdx?_append]
  have hnone : run.findIdx? p = none := List.findIdx?_eq_none_iff.mpr hrun
  rw [hnone, List.findIdx?_cons, if_pos hb]
  simp [Nat.add_comm]

end Decoding
