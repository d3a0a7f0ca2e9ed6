import Mathlib.Tactic.Common
import Mathlib.Data.List.Basic

/-!
# Ordered Maps over an Arbitrary Comparator

A map kept as the list of its entries in ascending key order, the order being given by a
comparator that need not be a linear order: two keys neither of which is less than the
other are the same key of the map. `assign` is the insert-or-overwrite operation found by
a search for the first entry that is not less than the key.

`foldl_assign` is what rebuilding a map from its own entries needs: assigning the entries
of an ordered list one after another, in order, appends each of them.

`lookup_of_mem` is for the entries of a map without an order: where the keys are distinct, an entry
is found wherever it stands.

A map of lists is an ordered multimap, whose `entries` are listed key by key. `entries_push` says
where a new entry lands: behind everything whose key is not greater than its own, and in front of
everything else.
-/

namespace OrderedMap

variable {K V : Type} (less : K → K → Bool)

/-- The entries stand in strictly ascending key order. -/
def Ordered (m : List (K × V)) : Prop :=
  m.Pairwise fun a b => less a.1 b.1 = true

/-- Insert the entry or overwrite the value under an equivalent key: entries less than the
key are skipped, an equivalent one keeps its stored key. -/
def assign (key : K) (value : V) : List (K × V) → List (K × V)
  | [] => [(key, value)]
  | e :: m =>
      if less e.1 key then e :: assign key value m
      else if less key e.1 then (key, value) :: e :: m
      else (e.1, value) :: m

/-- A key above every entry is appended. -/
theorem assign_of_forall_less {key : K} {value : V} {m : List (K × V)}
    (h : ∀ e ∈ m, less e.1 key = true) :
    assign less key value m = m ++ [(key, value)] := by
  induction m with
  | nil => rfl
  | cons e m ih =>
      have he : less e.1 key = true := h e (by simp)
      have hm : assign less key value m = m ++ [(key, value)] :=
        ih fun e' he' => h e' (by simp [he'])
      rw [assign, if_pos he, hm, List.cons_append]

/-- Assigning the entries of `xs` in order to a map that lies below them appends them. -/
theorem foldl_assign_append (m xs : List (K × V)) (h : Ordered less (m ++ xs)) :
    xs.foldl (fun acc e => assign less e.1 e.2 acc) m = m ++ xs := by
  induction xs generalizing m with
  | nil => rw [List.foldl_nil, List.append_nil]
  | cons x xs ih =>
      have hbelow : ∀ e ∈ m, less e.1 x.1 = true := fun e he =>
        (List.pairwise_append.mp h).2.2 e he x (by simp)
      rw [List.foldl_cons, assign_of_forall_less less hbelow]
      have hrest : Ordered less ((m ++ [x]) ++ xs) := by
        rw [List.append_assoc]
        exact h
      rw [ih (m ++ [x]) hrest, List.append_assoc, List.singleton_append]

/-- **Rebuilding.** An ordered map is rebuilt by assigning its entries in order. -/
theorem foldl_assign {m : List (K × V)} (h : Ordered less m) :
    m.foldl (fun acc e => assign less e.1 e.2 acc) [] = m :=
  foldl_assign_append less [] m h

/-- An entry is found wherever it stands, as the keys are distinct. -/
theorem lookup_of_mem [BEq K] [LawfulBEq K] {m : List (K × V)} (hnodup : (m.map Prod.fst).Nodup)
    {key : K} {value : V} (h : (key, value) ∈ m) : m.lookup key = some value := by
  obtain ⟨before, after, rfl⟩ := List.append_of_mem h
  rw [List.map_append, List.map_cons, List.nodup_append] at hnodup
  rw [List.lookup_eq_some_iff]
  refine ⟨before, after, rfl, fun e he => ?_⟩
  rw [bne_iff_ne]
  exact (hnodup.2.2 e.1 (List.mem_map_of_mem he) key List.mem_cons_self).symm

/-- Nothing is found exactly under what is no key. -/
theorem lookup_eq_none_iff [BEq K] [LawfulBEq K] {m : List (K × V)} {key : K} :
    m.lookup key = none ↔ key ∉ m.map Prod.fst := by
  rw [List.lookup_eq_none_iff]
  constructor
  · intro h hmem
    obtain ⟨e, he, rfl⟩ := List.mem_map.mp hmem
    exact bne_iff_ne.mp (h e he) rfl
  · intro h e he
    rw [bne_iff_ne]
    rintro rfl
    exact h (List.mem_map_of_mem he)

/-! ### Maps of lists -/

/-- What a comparator promises that is the strict part of a linear order. -/
structure Linear : Prop where
  irrefl : ∀ a, less a a = false
  trans : ∀ a b c, less a b = true → less b c = true → less a c = true
  total : ∀ a b, less a b = false → less b a = false → a = b

/-- Two keys are not both less than the other. -/
theorem Linear.asymm {less : K → K → Bool} (h : Linear less) {a b : K} (hab : less a b = true) :
    less b a = false := by
  cases hba : less b a with
  | false => rfl
  | true => exact (h.trans a b a hab hba).symm.trans (h.irrefl a)

/-- Add a value at the end of the list under the key, which is created when it is not there. -/
def push (key : K) (value : V) : List (K × List V) → List (K × List V)
  | [] => [(key, [value])]
  | e :: m =>
      if less e.1 key then e :: push key value m
      else if less key e.1 then (key, [value]) :: e :: m
      else (e.1, e.2 ++ [value]) :: m

/-- The values of a map of lists, each with its key. -/
def entries (m : List (K × List V)) : List (K × V) :=
  m.flatMap fun e => e.2.map (Prod.mk e.1)

/-- The keys after a value has been added are those before and its own. -/
theorem mem_push {key : K} {value : V} {m : List (K × List V)} {e : K × List V}
    (h : e ∈ push less key value m) : e.1 = key ∨ ∃ e' ∈ m, e'.1 = e.1 := by
  induction m with
  | nil => exact .inl (congrArg Prod.fst (List.mem_singleton.mp h))
  | cons d m ih =>
      rw [push] at h
      split_ifs at h
      · rcases List.mem_cons.mp h with rfl | h
        · exact .inr ⟨e, List.mem_cons_self, rfl⟩
        · rcases ih h with hkey | ⟨e', he', hkey⟩
          · exact .inl hkey
          · exact .inr ⟨e', List.mem_cons_of_mem _ he', hkey⟩
      · rcases List.mem_cons.mp h with rfl | h
        · exact .inl rfl
        · exact .inr ⟨e, h, rfl⟩
      · rcases List.mem_cons.mp h with rfl | h
        · exact .inr ⟨d, List.mem_cons_self, rfl⟩
        · exact .inr ⟨e, List.mem_cons_of_mem _ h, rfl⟩

/-- Adding a value keeps the order. -/
theorem Ordered.push {less : K → K → Bool} (hless : Linear less) {m : List (K × List V)}
    (h : Ordered less m) (key : K) (value : V) : Ordered less (push less key value m) := by
  induction m with
  | nil => exact List.pairwise_singleton _ _
  | cons d m ih =>
      obtain ⟨hd, hm⟩ := List.pairwise_cons.mp h
      rw [OrderedMap.push]
      split_ifs with hbelow habove
      · refine List.pairwise_cons.mpr ⟨fun e he => ?_, ih hm⟩
        rcases mem_push less he with hkey | ⟨e', he', hkey⟩
        · rw [hkey]
          exact hbelow
        · rw [← hkey]
          exact hd e' he'
      · refine List.pairwise_cons.mpr ⟨fun e he => ?_, h⟩
        rcases List.mem_cons.mp he with rfl | he
        · exact habove
        · exact hless.trans _ _ _ habove (hd e he)
      · exact List.pairwise_cons.mpr ⟨hd, hm⟩

/-- What holds of the keys of the map holds of the keys of its entries. -/
theorem forall_entries {P : K → Prop} {m : List (K × List V)} (h : ∀ e ∈ m, P e.1) :
    ∀ x ∈ entries m, P x.1 := by
  intro x hx
  obtain ⟨e, he, hx⟩ := List.mem_flatMap.mp hx
  obtain ⟨v, -, rfl⟩ := List.mem_map.mp hx
  exact h e he

/-- **Where a new entry lands.** -/
theorem entries_push {less : K → K → Bool} (hless : Linear less) {m : List (K × List V)}
    (h : Ordered less m) (key : K) (value : V) :
    ∃ before after, entries m = before ++ after ∧
      entries (push less key value m) = before ++ (key, value) :: after ∧
      (∀ x ∈ before, less key x.1 = false) ∧ ∀ x ∈ after, less key x.1 = true := by
  induction m with
  | nil =>
      exact ⟨[], [], rfl, rfl, fun x hx => absurd hx List.not_mem_nil,
        fun x hx => absurd hx List.not_mem_nil⟩
  | cons d m ih =>
      obtain ⟨hd, hm⟩ := List.pairwise_cons.mp h
      rw [push]
      split_ifs with hbelow habove
      · obtain ⟨before, after, hentries, hpush, hbefore, hafter⟩ := ih hm
        refine ⟨d.2.map (Prod.mk d.1) ++ before, after, ?_, ?_, fun x hx => ?_, hafter⟩
        · rw [entries, List.flatMap_cons, ← entries, hentries, List.append_assoc]
        · rw [entries, List.flatMap_cons, ← entries, hpush, List.append_assoc]
        · rcases List.mem_append.mp hx with hx | hx
          · obtain ⟨v, -, rfl⟩ := List.mem_map.mp hx
            exact hless.asymm hbelow
          · exact hbefore x hx
      · refine ⟨[], entries (d :: m), rfl, rfl, fun x hx => absurd hx List.not_mem_nil,
          forall_entries (P := fun k => less key k = true) fun e he => ?_⟩
        rcases List.mem_cons.mp he with rfl | he
        · exact habove
        · exact hless.trans _ _ _ habove (hd e he)
      · obtain rfl : d.1 = key :=
          hless.total _ _ (Bool.eq_false_iff.mpr hbelow) (Bool.eq_false_iff.mpr habove)
        refine ⟨d.2.map (Prod.mk d.1), entries m, List.flatMap_cons, ?_, fun x hx => ?_,
          forall_entries (P := fun k => less d.1 k = true) hd⟩
        · rw [entries, List.flatMap_cons, ← entries, List.map_append, List.append_assoc]
          rfl
        · obtain ⟨v, -, rfl⟩ := List.mem_map.mp hx
          exact hless.irrefl _

end OrderedMap
