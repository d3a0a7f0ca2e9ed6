import Mathlib.Tactic.Common

/-!
# Loops That May Not End

A `while` loop whose turns may themselves not end, as they contain loops. A turn goes on with a
new state or leaves the loop with a result; `run turn n` is the loop with room for `n` turns, and
`none` says that the room was too small, here or in a loop inside. A loop ends when there is a room
that is large enough.

`run_eq_some` is the rule for total correctness. It asks for a variant that every turn that goes on
makes smaller, and for what the loop computes from each state; the room needed is the variant at
the start, and one turn more to leave.
-/

namespace Loop

variable {σ ρ : Type}

/-- The loop, with room for a number of turns. -/
def run (turn : σ → Option (σ ⊕ ρ)) : ℕ → σ → Option ρ
  | 0, _ => none
  | n + 1, s =>
      match turn s with
      | none => none
      | some (.inl s') => run turn n s'
      | some (.inr r) => some r

/-- A turn that goes on. -/
theorem run_inl {turn : σ → Option (σ ⊕ ρ)} {n : ℕ} {s s' : σ} (h : turn s = some (.inl s')) :
    run turn (n + 1) s = run turn n s' := by
  rw [run, h]

/-- A turn that leaves the loop. -/
theorem run_inr {turn : σ → Option (σ ⊕ ρ)} {n : ℕ} {s : σ} {r : ρ}
    (h : turn s = some (.inr r)) : run turn (n + 1) s = some r := by
  rw [run, h]

/-- What a turn may do in a loop that computes `f` with the variant `size`. -/
def Computes (turn : σ → Option (σ ⊕ ρ)) (size : σ → ℕ) (f : σ → ρ) (s : σ) : Prop :=
  turn s = some (.inr (f s)) ∨ ∃ s', turn s = some (.inl s') ∧ size s' < size s ∧ f s' = f s

/-- **The rule for loops**: with turns that make the variant smaller wherever it is below a bound,
the loop ends within this bound. -/
theorem run_eq_some {turn : σ → Option (σ ⊕ ρ)} {size : σ → ℕ} {f : σ → ρ} {n : ℕ}
    (hturn : ∀ s, size s < n → Computes turn size f s) {s : σ} (hs : size s < n) :
    run turn n s = some (f s) := by
  suffices h : ∀ k ≤ n, ∀ s, size s < k → run turn k s = some (f s) from h n (Nat.le_refl n) s hs
  intro k
  induction k with
  | zero => exact fun _ s hs => absurd hs (Nat.not_lt_zero _)
  | succ k ih =>
      intro hk s hs
      rcases hturn s (Nat.lt_of_lt_of_le hs hk) with hleave | ⟨s', hgo, hsmaller, hsame⟩
      · exact run_inr hleave
      · rw [run_inl hgo, ih (Nat.le_of_succ_le hk) s' (by omega), hsame]

end Loop
