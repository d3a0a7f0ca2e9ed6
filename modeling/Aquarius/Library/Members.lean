import Mathlib.Tactic.Common

/-!
# Definite Assignment

Straight-line code that works on the members of an object: it reads and assigns them one by one,
reads and replaces a second object, the input, and stops. `Members` says how the members of the
object are got and set.

What such code does depends on the object it finds, unless it assigns every member before it
reads it, and before it stops at a point from which it will be read. `Code.Definite` follows the
paths of the code and collects the members that are known, as the compilers of some languages do
for local variables.

## Main results

* `Code.Definite.run_eq`: **code that assigns definitely** stops at the same point, with the same
  input and with the same values in all members that are read from there, whatever the members
  held that are not known.
-/

namespace Assignment

/-- The members of an object: what they hold, and how they are assigned. -/
structure Members (O : Type) {ι : Type} (V : ι → Type) where
  get : O → (i : ι) → V i
  set : O → (i : ι) → V i → O
  get_set_self : ∀ (o : O) (i : ι) (v : V i), get (set o i v) i = v
  get_set_ne : ∀ (o : O) {i j : ι} (v : V i), j ≠ i → get (set o i v) j = get o j

/-- Code up to the point `e` where it stops. -/
inductive Code {ι : Type} (V : ι → Type) (Q E : Type) where
  | stop (e : E)
  /-- reads the input -/
  | input (next : Q → Code V Q E)
  /-- replaces the input -/
  | setInput (q : Q) (next : Code V Q E)
  /-- reads a member -/
  | get (i : ι) (next : V i → Code V Q E)
  /-- assigns a member -/
  | set (i : ι) (v : V i) (next : Code V Q E)

variable {O ι Q E : Type} {V : ι → Type}

/-- Where the code stops, with the input and the object it leaves. -/
def Code.run (members : Members O V) : Code V Q E → Q → O → E × Q × O
  | .stop e, q, o => (e, q, o)
  | .input next, q, o => (next q).run members q o
  | .setInput q next, _, o => next.run members q o
  | .get i next, q, o => (next (members.get o i)).run members q o
  | .set i v next, q, o => next.run members q (members.set o i v)

/-- Two objects hold the same in the members of a set. -/
def Members.Agree (members : Members O V) (known : ι → Prop) (o₁ o₂ : O) : Prop :=
  ∀ i, known i → members.get o₁ i = members.get o₂ i

/-- The code reads only members that are known or that it has assigned, and the members that are
read from the point where it stops (`needs`) are among these. -/
def Code.Definite (needs : E → Q → ι → Prop) : Code V Q E → Q → (ι → Prop) → Prop
  | .stop e, q, known => ∀ i, needs e q i → known i
  | .input next, q, known => (next q).Definite needs q known
  | .setInput q next, _, known => next.Definite needs q known
  | .get i next, q, known => known i ∧ ∀ v, (next v).Definite needs q known
  | .set i _ next, q, known => next.Definite needs q fun j => j = i ∨ known j

variable {members : Members O V} {known : ι → Prop} {o₁ o₂ : O}

/-- Any object agrees with itself. -/
theorem Members.Agree.refl (known : ι → Prop) (o : O) : members.Agree known o o :=
  fun _ _ => rfl

/-- After an assignment to both objects they also agree in that member. -/
theorem Members.Agree.set (h : members.Agree known o₁ o₂) (i : ι) (v : V i) :
    members.Agree (fun j => j = i ∨ known j) (members.set o₁ i v) (members.set o₂ i v) := by
  intro j hj
  by_cases hji : j = i
  · subst hji
    rw [members.get_set_self, members.get_set_self]
  · rw [members.get_set_ne o₁ v hji, members.get_set_ne o₂ v hji]
    exact h j (hj.resolve_left hji)

/-- **Definite assignment.** By induction on the code: a member that is read is known, so both
runs go on with the same value. -/
theorem Code.Definite.run_eq {needs : E → Q → ι → Prop} {c : Code V Q E} {q : Q}
    (h : c.Definite needs q known) (hagree : members.Agree known o₁ o₂) :
    ∃ e q' o₁' o₂', c.run members q o₁ = (e, q', o₁') ∧ c.run members q o₂ = (e, q', o₂') ∧
      members.Agree (needs e q') o₁' o₂' := by
  induction c generalizing q known o₁ o₂ with
  | stop e => exact ⟨e, q, o₁, o₂, rfl, rfl, fun i hi => hagree i (h i hi)⟩
  | input next ih => exact ih q h hagree
  | setInput q' next ih => exact ih h hagree
  | get i next ih =>
      have hsame : members.get o₁ i = members.get o₂ i := hagree i h.1
      rw [run, run, hsame]
      exact ih _ (h.2 _) hagree
  | set i v next ih => exact ih h (hagree.set i v)

end Assignment
