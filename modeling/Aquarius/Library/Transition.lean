import Mathlib.Tactic.Common

/-!
# Guarded Runs of a Transition System

A transition system given by a partial step function: `step s e = some s'` when the event
`e` is enabled in `s` and leads to `s'`. `Run step guard s es s'` is a run of the events
`es` all of whose steps are taken in a state where the guard admits the event; the guard
carries the assumptions a result makes about a run, state by state, and is `fun _ _ =>
True` where there are none.

`Run.invariant` is the only induction over runs that safety proofs need: what one admitted
step preserves, a whole run preserves. `Run.holds_iff` is its exact form, for a property of the
past: if a step keeps it exactly under a condition, a run ends with it exactly when all its
steps meet the condition. `Run.of_exec` builds the run of given events when the
guard can be decided.

A state that keeps its processes in a list knows them by their number there. The last lemmas
say what is at each number after a process has been changed or added.
-/

namespace Transition

variable {σ ε : Type} {step : σ → ε → Option σ} {guard : σ → ε → Prop}

/-- A run of the system whose every step is admitted by the guard. -/
inductive Run (step : σ → ε → Option σ) (guard : σ → ε → Prop) :
    σ → List ε → σ → Prop
  | nil (s : σ) : Run step guard s [] s
  | cons {s s' s'' : σ} {e : ε} {es : List ε} :
      guard s e → step s e = some s' → Run step guard s' es s'' →
      Run step guard s (e :: es) s''

/-- **The invariant rule.** A property kept by every admitted step holds at the end of
every admitted run that starts with it. -/
theorem Run.invariant {I : σ → Prop}
    (hstep : ∀ s e s', I s → guard s e → step s e = some s' → I s') {s s' : σ}
    {es : List ε} (hrun : Run step guard s es s') : I s → I s' := by
  induction hrun with
  | nil s => exact id
  | cons hg hs _ ih => exact fun hI => ih (hstep _ _ _ hI hg hs)

/-- The first step of a run, and the rest of it. -/
theorem Run.cons_iff {s s' s'' : σ} {e : ε} {es : List ε} (hstep : step s e = some s') :
    Run step guard s (e :: es) s'' ↔ guard s e ∧ Run step guard s' es s'' := by
  constructor
  · rintro (_ | ⟨hg, hs, hrun⟩)
    obtain rfl := Option.some.inj (hstep.symm.trans hs)
    exact ⟨hg, hrun⟩
  · rintro ⟨hg, hrun⟩
    exact Run.cons hg hstep hrun

/-- **The exact rule.** When, under an invariant, a property holds after a step exactly if it
held before and the step meets a condition, then it holds at the end of a run exactly if it
held at the start and every step meets the condition. -/
theorem Run.holds_iff {I P : σ → Prop} {condition : σ → ε → Prop}
    (hI : ∀ s e s', I s → guard s e → step s e = some s' → I s')
    (hP : ∀ s e s', I s → guard s e → step s e = some s' → (P s' ↔ P s ∧ condition s e))
    {s s' : σ} {es : List ε} (hrun : Run step guard s es s') :
    I s → (P s' ↔ P s ∧ Run step condition s es s') := by
  induction hrun with
  | nil s => exact fun _ => ⟨fun h => ⟨h, Run.nil s⟩, And.left⟩
  | cons hg hs _ ih =>
      intro hinv
      rw [ih (hI _ _ _ hinv hg hs), hP _ _ _ hinv hg hs, Run.cons_iff hs, and_assoc]

/-- Run the events by the step function, for a guard that can be decided; `none` when an
event is not admitted or not enabled. -/
def exec (step : σ → ε → Option σ) (guard : σ → ε → Prop) [∀ s e, Decidable (guard s e)] :
    σ → List ε → Option σ
  | s, [] => some s
  | s, e :: es =>
      if guard s e then (step s e).bind fun s' => exec step guard s' es else none

/-- What the events execute to is reached by a run. -/
theorem Run.of_exec [∀ s e, Decidable (guard s e)] {s s' : σ} {es : List ε}
    (h : exec step guard s es = some s') : Run step guard s es s' := by
  induction es generalizing s with
  | nil =>
      obtain rfl : s = s' := Option.some.inj h
      exact Run.nil s
  | cons e es ih =>
      rw [exec] at h
      split at h
      · rename_i hguard
        obtain ⟨t, ht, h'⟩ := Option.bind_eq_some_iff.mp h
        exact Run.cons hguard ht (ih h')
      · cases h

/-! ### Processes by number -/

variable {α : Type} {l : List α} {a c d : α} {i j : ℕ}

/-- The processes after one of them has been changed. -/
theorem getElem?_modify_eq_some {f : α → α} :
    (l.modify i f)[j]? = some d ↔ ∃ c, l[j]? = some c ∧ d = if i = j then f c else c := by
  rw [List.getElem?_modify, Option.map_eq_map, Option.map_eq_some_iff]
  constructor
  · rintro ⟨c, hc, rfl⟩
    exact ⟨c, hc, rfl⟩
  · rintro ⟨c, hc, rfl⟩
    exact ⟨c, hc, rfl⟩

/-- Adding a process does not move the others. -/
theorem getElem?_concat_of_some (hc : l[j]? = some c) (a : α) : (l ++ [a])[j]? = some c := by
  obtain ⟨hj, -⟩ := List.getElem?_eq_some_iff.mp hc
  rw [List.getElem?_append_left hj, hc]

/-- A process of a list with one more is the new one or was there before. -/
theorem getElem?_concat_cases (h : (l ++ [a])[j]? = some d) :
    (j = l.length ∧ d = a) ∨ l[j]? = some d := by
  rcases Nat.lt_or_ge j l.length with hlt | hge
  · rw [List.getElem?_append_left hlt] at h
    exact Or.inr h
  · rw [List.getElem?_append_right hge, List.getElem?_singleton] at h
    split at h
    · exact Or.inl ⟨by omega, (Option.some.inj h).symm⟩
    · cases h

end Transition
