import Aquarius.Library.Resumption
import Aquarius.Library.Transition
import Aquarius.ModuleRouter
import Mathlib.Data.Set.Insert

/-!
# Calls While Modules Start

A module can be called by its name from the moment it is put (`async_schedule`,
`module/module_router.hpp`), and the server accepts connections before it starts the modules
(`basic_server::run`). The pass that starts them attaches an executor to one module after another,
and to none whose `init` fails; the call spawns its function on the executor of the module whatever
there is in it, and spawning on an empty `any_io_executor` throws `bad_executor`.

The passes of `module_router::run` are here the coroutines of `ModuleRouter.run`: each is suspended
at everything it asks for, and between two of its steps there may be steps of other passes, calls
and, while no pass holds the lock, a `put`.

## Main results

* `step_inv`: an executor is attached to modules whose `init` has succeeded only.
* `dispatched_running`: what is dispatched is dispatched to a module that is running.
* `callsProper_iff`: **every call that is not dispatched returns `R{}`** exactly when no call names
  a registered module before an executor has been attached to it.
* `not_callsProper_failedInit`: a module whose `init` has failed.
-/

open Decoding Transition

namespace Aquarius

/-! ### The pass that starts the modules -/

/-- What a pass asks for. -/
inductive RouterEffect where
  | getIoService
  | init (module : ℕ)
  | attach (module io : ℕ)
  | run (module io : ℕ)
  | timer (module ms : ℕ)

/-- What it is answered. -/
def RouterEffect.Answer : RouterEffect → Type
  | getIoService => ℕ
  | init _ => Bool
  | attach _ _ => Unit
  | run _ _ => Bool
  | timer _ _ => Unit

/-- A pass of one of the loops, where it is suspended. -/
abbrev Pass := Resumption RouterEffect RouterEffect.Answer Unit

/-- The calls of the loops, each a suspension. -/
def asking : ModuleCalls (Resumption RouterEffect RouterEffect.Answer) where
  getIoService := .ask .getIoService .ret
  init module := .ask (.init module) .ret
  attach module io := .ask (.attach module io) .ret
  run module io := .ask (.run module io) .ret
  timer module ms := .ask (.timer module ms) .ret

/-- The answers of the surroundings. -/
inductive Reply where
  | io (n : ℕ)
  | returned (b : Bool)
  | done

/-- The answer to an effect, if it is of its type. -/
def RouterEffect.answer : (e : RouterEffect) → Reply → Option e.Answer
  | getIoService, .io n => some n
  | init _, .returned b => some b
  | attach _ _, .done => some ()
  | run _ _, .returned b => some b
  | timer _ _, .done => some ()
  | _, _ => none

/-- All but the assignment of the executor may end by an exception. -/
def RouterEffect.mayThrow : RouterEffect → Bool
  | attach _ _ => false
  | _ => true

/-! ### The states -/

/-- How a call of `async_schedule` ends. -/
inductive Scheduled where
  /-- the function has been spawned on the executor of the module -/
  | dispatched (module executor : ℕ)
  /-- `R{}` -/
  | defaulted
  /-- the exception of spawning on an empty executor -/
  | badExecutor
  deriving DecidableEq, Repr

/-- A call, with the modules that were running then: those whose `init` had succeeded and that an
executor was attached to. -/
structure ScheduledCall where
  outcome : Scheduled
  running : List ℕ
  deriving DecidableEq, Repr

/-- A router with the passes of `run` over it. -/
structure RouterState (T : Type) where
  router : ModuleRouter T
  /-- the modules whose `init` has returned `true` -/
  initialised : List ℕ
  /-- `executor_` of the modules it was attached to, by the number of the `io_context` -/
  executors : List (ℕ × ℕ)
  passes : List Pass
  calls : List ScheduledCall

/-- No module has been put yet. -/
def RouterState.initial (T : Type) : RouterState T := ⟨.empty T, [], [], [], []⟩

/-- `executor_`, empty until it has been attached. -/
def RouterState.executor {T : Type} (s : RouterState T) (module : ℕ) : Option ℕ :=
  s.executors.lookup module

/-- The modules that can be called. -/
def RouterState.running {T : Type} (s : RouterState T) : List ℕ :=
  s.initialised.filter fun module => (s.executor module).isSome

/-! ### The steps -/

/-- What happens to the router. -/
inductive RouterEvent (T : Type) where
  | put (module : T) (priority : ℤ)
  /-- `run` is called -/
  | run
  /-- a pass goes on -/
  | resume (pass : ℕ) (reply : Reply)
  /-- what a pass asked for has thrown, and the exception leaves the loop -/
  | throw (pass : ℕ)
  /-- `async_schedule` is called for a module of the class -/
  | schedule (module : T)

section Steps

variable {T : Type} [DecidableEq T] (structName : T → Bytes)

/-- `get_module`: the module of the name, if it is of the class. -/
def ModuleRouter.getModule (r : ModuleRouter T) (module : T) : Option ℕ :=
  match r.routersByName.lookup (structName module) with
  | none => none
  | some id => if r.modules[id]? = some module then some id else none

/-- `async_visit`: the function is spawned on `executor_`. -/
def RouterState.asyncVisit (s : RouterState T) (id : ℕ) : Scheduled :=
  match s.executor id with
  | none => .badExecutor
  | some executor => .dispatched id executor

/-- `async_schedule` -/
def RouterState.asyncSchedule (s : RouterState T) (module : T) : Scheduled :=
  match s.router.getModule structName module with
  | none => .defaulted
  | some id => s.asyncVisit id

/-- What an answer does to the modules. -/
def RouterState.settle (s : RouterState T) : (e : RouterEffect) → e.Answer → RouterState T
  | .init module, true => { s with initialised := module :: s.initialised }
  | .attach module io, _ => { s with executors := (module, io) :: s.executors }
  | _, _ => s

/-- One step. A `put` waits for the lock that every pass holds until it returns. -/
def routerStep (s : RouterState T) : RouterEvent T → Option (RouterState T)
  | .put module priority =>
      if s.passes.all (·.returned) then
        some { s with router := (s.router.put structName module priority).2 }
      else none
  | .run => some { s with passes := s.passes ++ [s.router.run asking] }
  | .resume i reply =>
      match s.passes[i]? with
      | some (.ask e k) =>
          match e.answer reply with
          | some a => some { s.settle e a with passes := s.passes.set i (k a) }
          | none => none
      | _ => none
  | .throw i =>
      match s.passes[i]? with
      | some (.ask e _) =>
          if e.mayThrow then some { s with passes := s.passes.set i (.ret ()) } else none
      | _ => none
  | .schedule module =>
      some { s with calls := s.calls ++ [⟨s.asyncSchedule structName module, s.running⟩] }

end Steps

/-! ### What holds of the passes -/

/-- An executor is attached only to a module whose `init` has succeeded. -/
def AttachesStarted (started : Set ℕ) : RouterEffect → Prop
  | .attach module _ => module ∈ started
  | _ => True

/-- The modules whose `init` has succeeded after an answer. -/
def startedAfter (started : Set ℕ) : (e : RouterEffect) → e.Answer → Set ℕ
  | .init module, true => insert module started
  | _, _ => started

/-- What is left of a pass keeps to the order of the steps. -/
abbrev KeepsOrder (started : Set ℕ) (pass : Pass) : Prop :=
  Resumption.Guarded AttachesStarted startedAfter started pass

/-- `run_one` attaches after `init`, if that has succeeded. -/
theorem keepsOrder_runOne (started : Set ℕ) (io : ℕ) (module : Option ℕ) :
    Resumption.Guarded AttachesStarted startedAfter started (runOne asking io module) := by
  cases module with
  | none => exact trivial
  | some module =>
      refine ⟨trivial, fun ready => ?_⟩
      cases ready with
      | false => exact trivial
      | true => exact ⟨Set.mem_insert _ _, fun _ => ⟨trivial, fun _ => trivial⟩⟩

/-- A whole pass does, whatever has been started before it. -/
theorem keepsOrder_run {T : Type} (r : ModuleRouter T) (started : Set ℕ) :
    KeepsOrder started (r.run asking) := by
  refine Resumption.guarded_forM (fun started pr => ?_) _ started
  refine Resumption.guarded_forM (fun started modulePtr => ?_) _ started
  by_cases hexpired : r.expired modulePtr = true
  · rw [if_pos hexpired]
    exact trivial
  · rw [if_neg hexpired]
    refine Resumption.guarded_bind ⟨trivial, fun _ => trivial⟩ fun started io => ?_
    exact Resumption.guarded_bind (keepsOrder_runOne started io _) fun _ _ => trivial

/-- A module that has been started stays so: what one pass may do, it may do after the steps of
others. -/
theorem KeepsOrder.mono {started started' : Set ℕ} {pass : Pass} (hsub : started ≤ started')
    (h : KeepsOrder started pass) : KeepsOrder started' pass := by
  refine Resumption.Guarded.mono (fun s t e hst hallowed => ?_) (fun s t e r hst => ?_) hsub h
  · cases e with
    | attach module io => exact hst hallowed
    | getIoService | init | run | timer => exact trivial
  · cases e with
    | init module =>
        cases r with
        | true => exact Set.insert_subset_insert hst
        | false => exact hst
    | getIoService | attach | run | timer => exact hst

/-! ### What holds of the states -/

section Runs

variable {T : Type} [DecidableEq T] {structName : T → Bytes}

/-- The modules whose `init` has succeeded. -/
def RouterState.started (s : RouterState T) : Set ℕ := {module | module ∈ s.initialised}

/-- What holds in every state: executors are attached to started modules only, the passes keep to
it, and whatever a call has dispatched it has dispatched to a running module. -/
structure RouterInv (s : RouterState T) : Prop where
  attached : ∀ module, (s.executor module).isSome → module ∈ s.started
  passes : ∀ pass ∈ s.passes, KeepsOrder s.started pass
  calls : ∀ call ∈ s.calls, ∀ module executor,
    call.outcome = .dispatched module executor → module ∈ call.running

omit [DecidableEq T] in
/-- A module with an executor is running. -/
theorem RouterInv.running {s : RouterState T} (h : RouterInv s) {module : ℕ}
    (hattached : (s.executor module).isSome) : module ∈ s.running :=
  List.mem_filter.mpr ⟨h.attached module hattached, hattached⟩

/-- A call that is dispatched is dispatched to a module with an executor. -/
theorem executor_of_asyncSchedule {s : RouterState T} {module : T} {id executor : ℕ}
    (h : s.asyncSchedule structName module = .dispatched id executor) :
    (s.executor id).isSome := by
  rw [RouterState.asyncSchedule] at h
  split at h
  · cases h
  · rw [RouterState.asyncVisit] at h
    split at h
    · cases h
    · rename_i hexecutor
      obtain ⟨rfl, rfl⟩ := Scheduled.dispatched.inj h
      rw [hexecutor]
      rfl

omit [DecidableEq T] in
/-- The modules that have been started after an answer. -/
theorem started_settle (s : RouterState T) (e : RouterEffect) (a : e.Answer) :
    (s.settle e a).started = startedAfter s.started e a := by
  cases e with
  | init module =>
      cases a with
      | true => exact Set.ext fun _ => List.mem_cons
      | false => rfl
  | getIoService | attach | run | timer => rfl

omit [DecidableEq T] in
/-- An answer leaves what has been started, started. -/
theorem started_le_settle (s : RouterState T) (e : RouterEffect) (a : e.Answer) :
    s.started ≤ (s.settle e a).started := by
  rw [started_settle]
  cases e with
  | init module =>
      cases a with
      | true => exact Set.subset_insert module s.started
      | false => exact le_rfl
  | getIoService | attach | run | timer => exact le_rfl

omit [DecidableEq T] in
/-- An answer to an effect that keeps the order attaches to started modules only. -/
theorem attached_settle {s : RouterState T}
    (h : ∀ module, (s.executor module).isSome → module ∈ s.started) {e : RouterEffect}
    (he : AttachesStarted s.started e) (a : e.Answer) {module : ℕ}
    (hattached : ((s.settle e a).executor module).isSome) :
    module ∈ (s.settle e a).started := by
  refine started_le_settle s e a ?_
  cases e with
  | attach attachedTo io =>
      by_cases hmodule : module = attachedTo
      · rw [hmodule]
        exact he
      · have hothers : (((attachedTo, io) :: s.executors).lookup module).isSome := hattached
        rw [List.lookup_cons, beq_false_of_ne hmodule] at hothers
        exact h module hothers
  | init =>
      cases a with
      | true => exact h module hattached
      | false => exact h module hattached
  | getIoService | run | timer => exact h module hattached

omit [DecidableEq T] in
/-- An answer to a pass is no call. -/
theorem calls_settle (s : RouterState T) (e : RouterEffect) (a : e.Answer) :
    (s.settle e a).calls = s.calls := by
  cases e with
  | init =>
      cases a with
      | true => rfl
      | false => rfl
  | getIoService | attach | run | timer => rfl

/-- What a step may be. -/
theorem routerStep_cases {s s' : RouterState T} {e : RouterEvent T}
    (hstep : routerStep structName s e = some s') :
    (∃ module priority, e = .put module priority ∧
      s' = { s with router := (s.router.put structName module priority).2 }) ∨
    (e = .run ∧ s' = { s with passes := s.passes ++ [s.router.run asking] }) ∨
    (∃ i reply f k a, e = .resume i reply ∧ s.passes[i]? = some (.ask f k) ∧
      s' = { s.settle f a with passes := s.passes.set i (k a) }) ∨
    (∃ i, e = .throw i ∧ s' = { s with passes := s.passes.set i (.ret ()) }) ∨
    ∃ module, e = .schedule module ∧
      s' = { s with calls := s.calls ++ [⟨s.asyncSchedule structName module, s.running⟩] } := by
  cases e with
  | put module priority =>
      rw [routerStep] at hstep
      split at hstep
      · exact .inl ⟨module, priority, rfl, (Option.some.inj hstep).symm⟩
      · cases hstep
  | run => exact .inr (.inl ⟨rfl, (Option.some.inj hstep).symm⟩)
  | resume i reply =>
      rw [routerStep] at hstep
      split at hstep
      · rename_i f k hi
        split at hstep
        · rename_i a hanswer
          exact .inr (.inr (.inl ⟨i, reply, f, k, a, rfl, hi, (Option.some.inj hstep).symm⟩))
        · cases hstep
      · cases hstep
  | throw i =>
      rw [routerStep] at hstep
      split at hstep
      · split at hstep
        · exact .inr (.inr (.inr (.inl ⟨i, rfl, (Option.some.inj hstep).symm⟩)))
        · cases hstep
      · cases hstep
  | schedule module => exact .inr (.inr (.inr (.inr ⟨module, rfl, (Option.some.inj hstep).symm⟩)))

/-- **One step** keeps the invariant. -/
theorem step_inv {s s' : RouterState T} {e : RouterEvent T} (h : RouterInv s)
    (hstep : routerStep structName s e = some s') : RouterInv s' := by
  rcases routerStep_cases hstep with ⟨module, priority, rfl, rfl⟩ | ⟨rfl, rfl⟩ |
    ⟨i, reply, f, k, a, rfl, hi, rfl⟩ | ⟨i, rfl, rfl⟩ | ⟨module, rfl, rfl⟩
  · exact ⟨h.attached, h.passes, h.calls⟩
  · refine ⟨h.attached, fun pass hpass => ?_, h.calls⟩
    rcases List.mem_append.mp hpass with hpass | hpass
    · exact h.passes pass hpass
    · obtain rfl := List.mem_singleton.mp hpass
      exact keepsOrder_run s.router _
  · obtain ⟨hallowed, hrest⟩ := h.passes _ (List.mem_of_getElem? hi)
    refine ⟨fun module hattached => attached_settle h.attached hallowed a hattached,
      fun pass hpass => ?_, calls_settle s f a ▸ h.calls⟩
    rcases List.mem_or_eq_of_mem_set hpass with hpass | rfl
    · exact (h.passes pass hpass).mono (started_le_settle s f a)
    · have hgoes := hrest a
      rw [← started_settle] at hgoes
      exact hgoes
  · refine ⟨h.attached, fun pass hpass => ?_, h.calls⟩
    rcases List.mem_or_eq_of_mem_set hpass with hpass | rfl
    · exact h.passes pass hpass
    · exact trivial
  · refine ⟨h.attached, h.passes, fun call hcall id executor houtcome => ?_⟩
    rcases List.mem_append.mp hcall with hcall | hcall
    · exact h.calls call hcall id executor houtcome
    · obtain rfl := List.mem_singleton.mp hcall
      exact h.running (executor_of_asyncSchedule houtcome)

omit [DecidableEq T] in
/-- A router without modules. -/
theorem inv_initial : RouterInv (.initial T) where
  attached _ h := absurd h Bool.false_ne_true
  passes _ h := absurd h List.not_mem_nil
  calls _ h := absurd h List.not_mem_nil

/-- **Dispatched to running modules only**, in every run. -/
theorem dispatched_running {events : List (RouterEvent T)} {s : RouterState T}
    (hrun : Run (routerStep structName) (fun _ _ => True) (.initial T) events s) : RouterInv s :=
  hrun.invariant (fun _ _ _ h _ hstep => step_inv h hstep) inv_initial

/-! ### When every call returns -/

/-- A call ended as it should: its function was dispatched to a running module, or it returned
`R{}`. -/
def Scheduled.Proper (running : List ℕ) : Scheduled → Prop
  | .dispatched module _ => module ∈ running
  | .defaulted => True
  | .badExecutor => False

instance (running : List ℕ) : (outcome : Scheduled) → Decidable (outcome.Proper running)
  | .dispatched module _ => inferInstanceAs (Decidable (module ∈ running))
  | .defaulted => isTrue trivial
  | .badExecutor => isFalse not_false

/-- All calls did. -/
def CallsProper (s : RouterState T) : Prop := ∀ call ∈ s.calls, call.outcome.Proper call.running

instance (s : RouterState T) : Decidable (CallsProper s) :=
  inferInstanceAs (Decidable (∀ call ∈ s.calls, call.outcome.Proper call.running))

variable (structName) in
/-- A call names no module that is registered, with its class, and that no executor has been
attached to. -/
def CallsAttached (s : RouterState T) : RouterEvent T → Prop
  | .schedule module =>
      ∀ id, s.router.getModule structName module = some id → (s.executor id).isSome
  | _ => True

/-- The call of a state is proper when it meets the condition, and only then. -/
theorem proper_iff {s : RouterState T} (h : RouterInv s) (module : T) :
    (s.asyncSchedule structName module).Proper s.running ↔
      CallsAttached structName s (.schedule module) := by
  cases hmodule : s.router.getModule structName module with
  | none =>
      have hdefaulted : s.asyncSchedule structName module = .defaulted := by
        simp only [RouterState.asyncSchedule, hmodule]
      rw [hdefaulted]
      refine iff_of_true trivial fun id hid => ?_
      rw [hmodule] at hid
      cases hid
  | some id =>
      have hvisit : s.asyncSchedule structName module = s.asyncVisit id := by
        simp only [RouterState.asyncSchedule, hmodule]
      rw [hvisit]
      cases hexecutor : s.executor id with
      | none =>
          have hbad : s.asyncVisit id = .badExecutor := by
            simp only [RouterState.asyncVisit, hexecutor]
          rw [hbad]
          refine iff_of_false not_false fun hattached => ?_
          have hsome := hattached id hmodule
          rw [hexecutor] at hsome
          cases hsome
      | some executor =>
          have hdispatched : s.asyncVisit id = .dispatched id executor := by
            simp only [RouterState.asyncVisit, hexecutor]
          have hsome : (s.executor id).isSome := by
            rw [hexecutor]
            rfl
          rw [hdispatched]
          refine iff_of_true (h.running hsome) fun id' hid' => ?_
          rw [hmodule] at hid'
          obtain rfl := Option.some.inj hid'
          exact hsome

/-- **One step** keeps the calls proper exactly when it meets the condition. -/
theorem callsProper_step {s s' : RouterState T} {e : RouterEvent T} (h : RouterInv s)
    (hstep : routerStep structName s e = some s') :
    CallsProper s' ↔ CallsProper s ∧ CallsAttached structName s e := by
  rcases routerStep_cases hstep with ⟨module, priority, rfl, rfl⟩ | ⟨rfl, rfl⟩ |
    ⟨i, reply, f, k, a, rfl, hi, rfl⟩ | ⟨i, rfl, rfl⟩ | ⟨module, rfl, rfl⟩
  · exact (and_iff_left trivial).symm
  · exact (and_iff_left trivial).symm
  · rw [CallsProper, CallsProper, ← calls_settle s f a]
    exact (and_iff_left trivial).symm
  · exact (and_iff_left trivial).symm
  · rw [← proper_iff h, CallsProper, CallsProper, List.forall_mem_append, List.forall_mem_singleton]

/-- **When every call ends as it should.** In every run of the router, with any interleaving of the
passes that start the modules and of calls, every call is dispatched to a running module or returns
`R{}`, exactly when no call names a registered module that no executor has been attached to. A call
that does not meet this is never dispatched to a module either. -/
theorem callsProper_iff {events : List (RouterEvent T)} {s : RouterState T}
    (hrun : Run (routerStep structName) (fun _ _ => True) (.initial T) events s) :
    (∀ call ∈ s.calls, ∀ module executor,
      call.outcome = .dispatched module executor → module ∈ call.running) ∧
    (CallsProper s ↔
      Run (routerStep structName) (CallsAttached structName) (.initial T) events s) := by
  refine ⟨(dispatched_running hrun).calls, ?_⟩
  have hexact : CallsProper s ↔ CallsProper (.initial T) ∧
      Run (routerStep structName) (CallsAttached structName) (.initial T) events s :=
    Run.holds_iff (fun _ _ _ h _ hstep => step_inv h hstep)
      (fun _ _ _ h _ hstep => callsProper_step h hstep) hrun inv_initial
  rw [hexact]
  exact and_iff_right fun call hcall => absurd hcall List.not_mem_nil

end Runs

/-- A module is put and started, and then called. -/
def startedThenCalled : List (RouterEvent UInt8) :=
  [.put 97 0, .run, .resume 0 (.io 5), .resume 0 (.returned true), .resume 0 .done,
    .resume 0 (.returned true), .schedule 97]

/-- The call comes after the executor and is dispatched. -/
theorem callsProper_startedThenCalled :
    ∃ s, s.calls = [⟨.dispatched 0 5, [0]⟩] ∧
      Run (routerStep fun c : UInt8 => [c]) (CallsAttached fun c : UInt8 => [c]) (.initial UInt8)
        startedThenCalled s := by
  have hrun : ∃ s, Run (routerStep fun c : UInt8 => [c]) (fun _ _ => True) (.initial UInt8)
      startedThenCalled s ∧ s.calls = [⟨.dispatched 0 5, [0]⟩] :=
    ⟨_, Run.of_exec rfl, rfl⟩
  obtain ⟨s, hrun, hcalls⟩ := hrun
  refine ⟨s, hcalls, (callsProper_iff hrun).2.mp ?_⟩
  rw [CallsProper, hcalls]
  decide

/-- A module is put, its `init` fails, and it is called. -/
def failedThenCalled : List (RouterEvent UInt8) :=
  [.put 97 0, .run, .resume 0 (.io 5), .resume 0 (.returned false), .schedule 97]

/-- **A module that has not been started** stays in the table, and a call to it is neither
dispatched nor answered by `R{}`. -/
theorem not_callsProper_failedInit :
    ∃ s, Run (routerStep fun c : UInt8 => [c]) (fun _ _ => True) (.initial UInt8)
      failedThenCalled s ∧ s.calls = [⟨.badExecutor, []⟩] ∧ ¬ CallsProper s :=
  ⟨_, Run.of_exec rfl, rfl, by decide⟩

end Aquarius
