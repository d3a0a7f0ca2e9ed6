import Mathlib.Order.Basic

/-!
# Coroutines as Resumptions

A coroutine that may be suspended at everything it asks of its surroundings: it has returned, or
it asks for the effect `e` and goes on with the answer, of the type `R e`. A program written for an
arbitrary monad is turned into its coroutine by running it in this one, and a scheduler can hold
several of them, each at the place where it is suspended.

`Guarded` is the rule of a protocol between a coroutine and a state that its answers change: every
effect it asks for, now or later, is allowed by the state then. The rules below establish it for a
program from its parts, for every state, and `Guarded.mono` keeps it while other coroutines move
the state on.
-/

universe u

/-- A suspended coroutine over the effects `E`, answered in `R`. -/
inductive Resumption (E : Type) (R : E → Type) (α : Type u) : Type u where
  /-- it has returned -/
  | ret (a : α)
  /-- it waits for the answer to `e` -/
  | ask (e : E) (k : R e → Resumption E R α)

namespace Resumption

variable {E : Type} {R : E → Type} {α β : Type u}

/-- `co_await`: the second coroutine goes on with what the first one returns. -/
def bind : Resumption E R α → (α → Resumption E R β) → Resumption E R β
  | ret a, f => f a
  | ask e k, f => ask e fun r => bind (k r) f

instance : Monad (Resumption E R) where
  pure := ret
  bind := bind

/-- Nothing is awaited any more. -/
def returned : Resumption E R α → Bool
  | ret _ => true
  | ask _ _ => false

/-! ### Protocols -/

section Protocol

variable {σ : Type} (allowed : σ → E → Prop) (after : σ → (e : E) → R e → σ)

/-- From the state `s` on, every effect is allowed when it is asked for, whatever the answers. -/
def Guarded : σ → Resumption E R α → Prop
  | _, ret _ => True
  | s, ask e k => allowed s e ∧ ∀ r, Guarded (after s e r) (k r)

variable {allowed after}

/-- **Sequence**: a guarded coroutine, followed by one that is guarded in every state. -/
theorem guarded_bind {s : σ} {c : Resumption E R α} {f : α → Resumption E R β}
    (hc : Guarded allowed after s c) (hf : ∀ s a, Guarded allowed after s (f a)) :
    Guarded allowed after s (c >>= f) := by
  induction c generalizing s with
  | ret a => exact hf s a
  | ask e k ih => exact ⟨hc.1, fun r => ih r (hc.2 r)⟩

/-- **Iteration**: a body that is guarded in every state. -/
theorem guarded_forM {γ : Type} {f : γ → Resumption E R PUnit}
    (hf : ∀ s x, Guarded allowed after s (f x)) (xs : List γ) (s : σ) :
    Guarded allowed after s (forM xs f) := by
  induction xs generalizing s with
  | nil => exact trivial
  | cons x xs ih => exact guarded_bind (hf s x) fun s _ => ih s

/-- **Other coroutines** only add to what is allowed. -/
theorem Guarded.mono [Preorder σ] (hallowed : ∀ s t e, s ≤ t → allowed s e → allowed t e)
    (hafter : ∀ s t e r, s ≤ t → after s e r ≤ after t e r) {s t : σ} {c : Resumption E R α}
    (hst : s ≤ t) (hc : Guarded allowed after s c) : Guarded allowed after t c := by
  induction c generalizing s t with
  | ret a => exact trivial
  | ask e k ih =>
      exact ⟨hallowed s t e hst hc.1, fun r => ih r (hafter s t e r hst) (hc.2 r)⟩

end Protocol

end Resumption
