import Aquarius.Library.Transition
import Aquarius.HandlerVisit
import Aquarius.HandlerCode

/-!
# Concurrent Requests on One Router

The life of a request on a registered router: `do_complete` (`basic_context.hpp`) reads the
payload into the request of the router's one handler object and spawns `handle_request`
(`ip/tcp.hpp`), which stores the callback of the request in the handler, runs `handle()`,
writes its result and the `way` of the request into the handler's response, commits that and
calls the stored callback. The accept loops of all sessions go on as soon as the coroutine
is spawned, so the steps of several requests interleave, and all of them work on the same
request, response and callback.

`handle()` is a parameter, given by its segments between suspension points (`HandleCode`). When
one of them ends by an exception, that ends `handle_request` too: nothing catches it there, and
the coroutine is spawned `detached`, which drops it. The bodies are the generated ones. The
callback of a request is the session it came from and its `src`.

`Router.answer` is what a new handler object would answer to a payload, and `Isolated` is
the property: every finished request has one answer, at its own callback, and it is this
one, and every other request has none yet and goes on.

## Main results

* `isolated_of_run`: **isolation.** In every run in which a request is parsed only while no
  other request of the router is in flight, where its payload settles the request of the
  handler, where `handle()` reads and leaves nothing of its response that it has not assigned and
  that differs from a new one, and where it does not throw, every state is isolated.
* `not_isolated_overlapping`: two requests that overlap; the first is answered on the
  callback of the second, with the body of the second.
* `not_isolated_of_thrown`: a request whose `handle()` has thrown is never answered.
-/

open Decoding Transition

namespace Aquarius

/-! ### Handlers -/

/-- A registered router: the generated messages and the code of its handler. -/
structure Router (fields responseFields : FieldList) (L X : Type) where
  name : StdString
  order : ByteOrder
  less : KeyLess
  api : JsonApi
  code : HandleCode fields responseFields L X

namespace Router

variable {fields responseFields : FieldList} {L X : Type} (r : Router fields responseFields L X)

/-- The body of the requests. -/
def request : Serialization (Body fields) :=
  Generated.serialization r.order r.less r.api fields

/-- The body of the responses. -/
def response : Serialization (Body responseFields) :=
  Generated.serialization r.order r.less r.api responseFields

/-- The response as `handle_request` commits it: with the result of `handle()`, and the
`way` of the request. -/
def respond (request : TcpRequest (Body fields)) (ec : BitVec 32)
    (response : TcpResponse (Body responseFields)) : TcpResponse (Body responseFields) :=
  { response with result := ec, header := { response.header with way := request.header.way } }

/-- The bytes `handle_request` hands to the callback. -/
def bytes (request : TcpRequest (Body fields)) (ec : BitVec 32)
    (response : TcpResponse (Body responseFields)) : Bytes :=
  (TcpResponse.commit r.name r.response (respond request ec response)).1

/-- The bytes a handler that runs alone on a request arrives at, from the end of a segment on
and with the inputs that are still to come. -/
def answerFrom : HandleEnd L × TcpRequest (Body fields) × TcpResponse (Body responseFields) →
    List X → Option Bytes
  | (.returned ec, request, response), [] => some (r.bytes request ec response)
  | (.suspended locals, request, response), x :: xs =>
      answerFrom (Segment.run (r.code.resume locals x) request response) xs
  | _, _ => none

/-- The answer of a new handler object to a payload. -/
def answer (payload : Bytes) (inputs : List X) : Option Bytes :=
  match visit r.request (TcpRequest.create r.request) payload with
  | none => none
  | some request =>
      r.answerFrom (Segment.run r.code.start request (TcpResponse.create r.response)) inputs

end Router

/-! ### The context -/

/-- A session callback of `accept`: the session, and the `src` of the frame. -/
structure Callback where
  session : ℕ
  src : BitVec 32
  deriving DecidableEq, Repr

/-- The coroutine `handle_request` of a request: spawned, inside `handle()` or at the end of it,
or through with its callback. -/
inductive TaskPhase (L : Type) where
  | spawned
  | running (stop : HandleEnd L)
  | finished

/-- A request: its payload and callback, where its coroutine stands, and the inputs its
`handle()` has had. -/
structure Task (L X : Type) where
  payload : Bytes
  callback : Callback
  phase : TaskPhase L := .spawned
  inputs : List X := []

/-- A call of a session callback, with the request whose coroutine made it. -/
structure Answer where
  task : ℕ
  callback : Callback
  bytes : Bytes
  deriving DecidableEq, Repr

/-- The handler object of a router, the requests it has been given and the answers it has
made. -/
structure ContextState (fields responseFields : FieldList) (L X : Type) where
  request : TcpRequest (Body fields)
  response : TcpResponse (Body responseFields)
  callback : Option Callback := none
  tasks : List (Task L X) := []
  answers : List Answer := []

/-- The steps of the coroutines. -/
inductive ContextEvent (X : Type) where
  | parse (payload : Bytes) (callback : Callback)
  | start (i : ℕ)
  | resume (i : ℕ) (x : X)
  | commit (i : ℕ)

section Context

variable {fields responseFields : FieldList} {L X : Type} (r : Router fields responseFields L X)

/-- The context of a router when it is registered. -/
def ContextState.create : ContextState fields responseFields L X where
  request := TcpRequest.create r.request
  response := TcpResponse.create r.response

/-- The answers behind `session()(resp_buffer, {})`. A handler without a callback throws
`std::bad_function_call` there, which ends the coroutine. -/
def ContextState.callSession (s : ContextState fields responseFields L X) (i : ℕ)
    (bytes : Bytes) : List Answer :=
  match s.callback with
  | none => s.answers
  | some callback => s.answers ++ [⟨i, callback, bytes⟩]

/-- One step of a coroutine. There is no step behind undefined behaviour, and none of a coroutine
that an exception has ended. -/
def contextStep (s : ContextState fields responseFields L X) :
    ContextEvent X → Option (ContextState fields responseFields L X)
  | .parse payload callback =>
      match visit r.request s.request payload with
      | none => none
      | some request => some { s with request, tasks := s.tasks ++ [{ payload, callback }] }
  | .start i =>
      match s.tasks[i]? with
      | some ⟨payload, callback, .spawned, inputs⟩ =>
          let (stop, request, response) := Segment.run r.code.start s.request s.response
          some { s with
            request
            response
            callback := some callback
            tasks := s.tasks.set i ⟨payload, callback, .running stop, inputs⟩ }
      | _ => none
  | .resume i x =>
      match s.tasks[i]? with
      | some ⟨payload, callback, .running (.suspended locals), inputs⟩ =>
          let (stop, request, response) :=
            Segment.run (r.code.resume locals x) s.request s.response
          some { s with
            request
            response
            tasks := s.tasks.set i ⟨payload, callback, .running stop, inputs ++ [x]⟩ }
      | _ => none
  | .commit i =>
      match s.tasks[i]? with
      | some ⟨payload, callback, .running (.returned ec), inputs⟩ =>
          some { s with
            response := Router.respond s.request ec s.response
            tasks := s.tasks.set i ⟨payload, callback, .finished, inputs⟩
            answers := s.callSession i (r.bytes s.request ec s.response) }
      | _ => none

/-- Every request that is through has its own answer. -/
structure Answered (s : ContextState fields responseFields L X) : Prop where
  /-- An answer goes to the callback of its request, and is the answer to its payload. -/
  own : ∀ a ∈ s.answers, ∃ task, s.tasks[a.task]? = some task ∧ task.phase = .finished ∧
    a.callback = task.callback ∧ r.answer task.payload task.inputs = some a.bytes
  /-- A finished request has been answered once, any other not at all. -/
  once : ∀ i task, s.tasks[i]? = some task →
    (task.phase = .finished → s.answers.countP (·.task = i) = 1) ∧
    (task.phase ≠ .finished → s.answers.countP (·.task = i) = 0)

/-- Every request gets its own answer. -/
structure Isolated (s : ContextState fields responseFields L X) : Prop extends Answered r s where
  /-- A request that is not finished has a step to take: it starts, it goes on with whatever it
  waits for, or it answers. -/
  live : ∀ i task, s.tasks[i]? = some task → task.phase ≠ .finished →
    (contextStep r s (.start i)).isSome ∨
      ((∃ locals, task.phase = .running (.suspended locals)) ∧
        ∀ x, (contextStep r s (.resume i x)).isSome) ∨
      (contextStep r s (.commit i)).isSome

/-- A request is parsed only while no other is in flight; its payload settles the request of the
handler; `handle()` reads of its response, and leaves in it, only what it has assigned or what is
as in a new response; and it does not throw. -/
def Undisturbed (s : ContextState fields responseFields L X) : ContextEvent X → Prop
  | .parse payload _ =>
      (∀ task ∈ s.tasks, task.phase = .finished) ∧
      Settles r.order r.less r.api fields payload ∧
      ∀ request, visit r.request (TcpRequest.create r.request) payload = some request →
        ∃ facts, r.code.Definite facts request fun p =>
          s.response.get p = (TcpResponse.create r.response).get p
  | .start _ => (Segment.run r.code.start s.request s.response).1 ≠ .thrown
  | .resume i x => ∀ task locals, s.tasks[i]? = some task →
      task.phase = .running (.suspended locals) →
        (Segment.run (r.code.resume locals x) s.request s.response).1 ≠ .thrown
  | .commit _ => True

/-! ### What a step does -/

variable {r} {s s' : ContextState fields responseFields L X}

/-- A payload becomes a task. -/
theorem contextStep_parse {payload : Bytes} {callback : Callback}
    (h : contextStep r s (.parse payload callback) = some s') :
    ∃ request, visit r.request s.request payload = some request ∧
      s' = { s with request, tasks := s.tasks ++ [{ payload, callback }] } := by
  rw [contextStep] at h
  split at h
  · cases h
  · rename_i request hvisit
    exact ⟨request, hvisit, (Option.some.inj h).symm⟩

/-- A spawned task stores its callback and runs the first segment. -/
theorem contextStep_start {i : ℕ} (h : contextStep r s (.start i) = some s') :
    ∃ payload callback inputs, s.tasks[i]? = some ⟨payload, callback, .spawned, inputs⟩ ∧
      s' = { s with
        request := (Segment.run r.code.start s.request s.response).2.1
        response := (Segment.run r.code.start s.request s.response).2.2
        callback := some callback
        tasks := s.tasks.set i ⟨payload, callback,
          .running (Segment.run r.code.start s.request s.response).1, inputs⟩ } := by
  rw [contextStep] at h
  split at h
  · rename_i payload callback inputs htask
    exact ⟨payload, callback, inputs, htask, (Option.some.inj h).symm⟩
  · cases h

/-- A suspended task runs the next segment. -/
theorem contextStep_resume {i : ℕ} {x : X} (h : contextStep r s (.resume i x) = some s') :
    ∃ payload callback locals inputs,
      s.tasks[i]? = some ⟨payload, callback, .running (.suspended locals), inputs⟩ ∧
      s' = { s with
        request := (Segment.run (r.code.resume locals x) s.request s.response).2.1
        response := (Segment.run (r.code.resume locals x) s.request s.response).2.2
        tasks := s.tasks.set i ⟨payload, callback,
          .running (Segment.run (r.code.resume locals x) s.request s.response).1,
          inputs ++ [x]⟩ } := by
  rw [contextStep] at h
  split at h
  · rename_i payload callback locals inputs htask
    exact ⟨payload, callback, locals, inputs, htask, (Option.some.inj h).symm⟩
  · cases h

/-- A task whose `handle()` has returned answers on the stored callback. -/
theorem contextStep_commit {i : ℕ} (h : contextStep r s (.commit i) = some s') :
    ∃ payload callback ec inputs,
      s.tasks[i]? = some ⟨payload, callback, .running (.returned ec), inputs⟩ ∧
      s' = { s with
        response := Router.respond s.request ec s.response
        tasks := s.tasks.set i ⟨payload, callback, .finished, inputs⟩
        answers := s.callSession i (r.bytes s.request ec s.response) } := by
  rw [contextStep] at h
  split at h
  · rename_i payload callback ec inputs htask
    exact ⟨payload, callback, ec, inputs, htask, (Option.some.inj h).symm⟩
  · cases h

/-- A task that is neither finished nor ended by an exception has a step to take. -/
theorem contextStep_isSome {i : ℕ} {task : Task L X} (htask : s.tasks[i]? = some task)
    (hopen : task.phase ≠ .finished) (hthrown : task.phase ≠ .running .thrown) :
    (contextStep r s (.start i)).isSome ∨
      ((∃ locals, task.phase = .running (.suspended locals)) ∧
        ∀ x, (contextStep r s (.resume i x)).isSome) ∨
      (contextStep r s (.commit i)).isSome := by
  obtain ⟨payload, callback, phase, inputs⟩ := task
  cases phase with
  | spawned =>
      refine Or.inl ?_
      simp only [contextStep, htask, Option.isSome_some]
  | running stop =>
      cases stop with
      | suspended locals =>
          refine Or.inr (Or.inl ⟨⟨locals, rfl⟩, fun x => ?_⟩)
          simp only [contextStep, htask, Option.isSome_some]
      | returned ec =>
          refine Or.inr (Or.inr ?_)
          simp only [contextStep, htask, Option.isSome_some]
      | thrown => exact absurd rfl hthrown
  | finished => exact absurd rfl hopen

/-- **An exception leaves a request unanswered.** A request whose `handle()` has thrown has no
further step. -/
theorem not_isolated_of_thrown {i : ℕ} {task : Task L X} (htask : s.tasks[i]? = some task)
    (hphase : task.phase = .running .thrown) : ¬ Isolated r s := by
  intro h
  obtain ⟨payload, callback, phase, inputs⟩ := task
  obtain rfl : phase = .running .thrown := hphase
  rcases h.live i _ htask (by simp) with hstart | ⟨⟨locals, hlocals⟩, -⟩ | hcommit
  · simp only [contextStep, htask, Option.isSome_none, Bool.false_eq_true] at hstart
  · cases hlocals
  · simp only [contextStep, htask, Option.isSome_none, Bool.false_eq_true] at hcommit

/-! ### The invariant -/

/-- What is committed of a response that `handle()` has left: all but its result and its
`way`. -/
theorem Router.bytes_eq_of_agree {request : TcpRequest (Body fields)} {ec : BitVec 32}
    {response₁ response₂ : TcpResponse (Body responseFields)}
    (h : HandleCode.Agree ResponseMember.Left response₁ response₂) :
    r.bytes request ec response₁ = r.bytes request ec response₂ := by
  have hrespond : respond request ec response₁ = respond request ec response₂ := by
    refine TcpResponse.ext_get fun p => ?_
    cases p with
    | result | way => rfl
    | uuid => exact h .uuid trivial
    | timestamp => exact h .timestamp trivial
    | field i => exact h (.field i) trivial
  rw [bytes, bytes, hrespond]

/-- A task has come to the end of a segment as it would have with a new handler: the response of
the handler agrees, in what is read of it from there, with a response from which the task arrives
at its answer. -/
structure Reached (r : Router fields responseFields L X)
    (s : ContextState fields responseFields L X) (task : Task L X) (stop : HandleEnd L) :
    Prop where
  not_thrown : stop ≠ .thrown
  answer : ∃ facts request known response, r.code.Definite facts request known ∧
    HandleCode.Agree (HandleCode.needs facts stop s.request) s.response response ∧
    ∀ inputs, r.answerFrom (stop, s.request, response) inputs =
      r.answer task.payload (task.inputs ++ inputs)

/-- A task has not started, and will run as with a new handler. -/
structure Ready (r : Router fields responseFields L X)
    (s : ContextState fields responseFields L X) (task : Task L X) : Prop where
  definite : ∃ facts, r.code.Definite facts s.request fun p =>
    s.response.get p = (TcpResponse.create r.response).get p
  answer : ∀ inputs,
    r.answerFrom (Segment.run r.code.start s.request (TcpResponse.create r.response)) inputs =
      r.answer task.payload (task.inputs ++ inputs)

/-- The handler object is the task's own: it holds its request, its callback once the task
has started, and a response from which the task arrives at its answer. -/
structure Owns (r : Router fields responseFields L X)
    (s : ContextState fields responseFields L X) (task : Task L X) : Prop where
  callback : task.phase ≠ .spawned → s.callback = some task.callback
  ready : task.phase = .spawned → Ready r s task
  reached : ∀ stop, task.phase = .running stop → Reached r s task stop

/-- The invariant: a task that is not finished is the last one and owns the handler
object. -/
structure ContextInv (r : Router fields responseFields L X)
    (s : ContextState fields responseFields L X) : Prop extends Answered r s where
  current : ∀ i task, s.tasks[i]? = some task → task.phase ≠ .finished →
    i + 1 = s.tasks.length ∧ Owns r s task

/-- The invariant holds when the router is registered. -/
theorem contextInv_create (r : Router fields responseFields L X) :
    ContextInv r (ContextState.create r) where
  own _ ha := absurd ha List.not_mem_nil
  once _ _ h := by cases h
  current _ _ h := by cases h

/-- The invariant gives isolation. -/
theorem ContextInv.isolated (h : ContextInv r s) : Isolated r s where
  toAnswered := h.toAnswered
  live i task htask hopen := by
    refine contextStep_isSome htask hopen fun hthrown => ?_
    exact ((h.current i task htask hopen).2.reached _ hthrown).not_thrown rfl

/-- The tasks that differ after task `i` is set are `i` itself. -/
private theorem task_of_set {tasks : List (Task L X)} {i j : ℕ} {task task' t : Task L X}
    (htask : tasks[i]? = some task) (h : (tasks.set i task')[j]? = some t) :
    (j = i ∧ t = task') ∨ (j ≠ i ∧ tasks[j]? = some t) := by
  rcases eq_or_ne j i with rfl | hne
  · obtain ⟨hlt, -⟩ := List.getElem?_eq_some_iff.mp htask
    rw [List.getElem?_set_self hlt] at h
    exact Or.inl ⟨rfl, (Option.some.inj h).symm⟩
  · rw [List.getElem?_set_ne (Ne.symm hne)] at h
    exact Or.inr ⟨hne, h⟩

/-- The task in flight is the only one. -/
private theorem ContextInv.unique (h : ContextInv r s) {i j : ℕ} {task t : Task L X}
    (htask : s.tasks[i]? = some task) (hopen : task.phase ≠ .finished)
    (ht : s.tasks[j]? = some t) (hne : j ≠ i) : t.phase = .finished := by
  by_contra hopen'
  have hi := (h.current i task htask hopen).1
  have hj := (h.current j t ht hopen').1
  omega

/-- An answer belongs to a finished task, which setting another task does not change. -/
private theorem ContextInv.own_set (h : ContextInv r s) {i : ℕ} {task task' : Task L X}
    (htask : s.tasks[i]? = some task) (hopen : task.phase ≠ .finished) {a : Answer}
    (ha : a ∈ s.answers) :
    ∃ t, (s.tasks.set i task')[a.task]? = some t ∧ t.phase = .finished ∧
      a.callback = t.callback ∧ r.answer t.payload t.inputs = some a.bytes := by
  obtain ⟨t, ht, hfinished, hown⟩ := h.own a ha
  have hne : i ≠ a.task := by
    rintro rfl
    rw [htask] at ht
    obtain rfl := Option.some.inj ht
    exact hopen hfinished
  exact ⟨t, by rw [List.getElem?_set_ne hne, ht], hfinished, hown⟩

/-- A segment of the task in flight keeps the invariant. -/
private theorem ContextInv.segment (h : ContextInv r s) {i : ℕ} {task task' : Task L X}
    (htask : s.tasks[i]? = some task) (hopen : task.phase ≠ .finished)
    (hopen' : task'.phase ≠ .finished) (htasks : s'.tasks = s.tasks.set i task')
    (hanswers : s'.answers = s.answers) (howns : Owns r s' task') : ContextInv r s' where
  own a ha := by
    rw [hanswers] at ha
    rw [htasks]
    exact h.own_set htask hopen ha
  once j t ht := by
    rw [htasks] at ht
    rw [hanswers]
    rcases task_of_set htask ht with ⟨rfl, rfl⟩ | ⟨-, ht⟩
    · exact ⟨fun hfinished => absurd hfinished hopen', fun _ => (h.once j task htask).2 hopen⟩
    · exact h.once j t ht
  current j t ht htopen := by
    rw [htasks] at ht ⊢
    rw [List.length_set]
    rcases task_of_set htask ht with ⟨rfl, rfl⟩ | ⟨hne, ht⟩
    · exact ⟨(h.current j task htask hopen).1, howns⟩
    · exact absurd (h.unique htask hopen ht hne) htopen

/-- The answer of the task in flight, on its own callback, keeps the invariant. -/
private theorem ContextInv.finish (h : ContextInv r s) {i : ℕ} {task task' : Task L X}
    {bytes : Bytes} (htask : s.tasks[i]? = some task) (hopen : task.phase ≠ .finished)
    (hfinished : task'.phase = .finished) (htasks : s'.tasks = s.tasks.set i task')
    (hanswers : s'.answers = s.answers ++ [⟨i, task'.callback, bytes⟩])
    (hbytes : r.answer task'.payload task'.inputs = some bytes) : ContextInv r s' where
  own a ha := by
    rw [htasks]
    rw [hanswers, List.mem_append, List.mem_singleton] at ha
    rcases ha with ha | rfl
    · exact h.own_set htask hopen ha
    · obtain ⟨hlt, -⟩ := List.getElem?_eq_some_iff.mp htask
      exact ⟨task', List.getElem?_set_self hlt, hfinished, rfl, hbytes⟩
  once j t ht := by
    rw [htasks] at ht
    rw [hanswers, List.countP_append, List.countP_singleton]
    rcases task_of_set htask ht with ⟨rfl, rfl⟩ | ⟨hne, ht⟩
    · have hzero := (h.once j task htask).2 hopen
      refine ⟨fun _ => ?_, fun htopen => absurd hfinished htopen⟩
      rw [hzero, if_pos (decide_eq_true rfl)]
    · rw [if_neg (by simpa using Ne.symm hne), Nat.add_zero]
      exact h.once j t ht
  current j t ht htopen := by
    rw [htasks] at ht
    rcases task_of_set htask ht with ⟨rfl, rfl⟩ | ⟨hne, ht⟩
    · exact absurd hfinished htopen
    · exact absurd (h.unique htask hopen ht hne) htopen

/-- A new task keeps the invariant when every other one is finished and it owns the handler
object. -/
private theorem ContextInv.parse (h : ContextInv r s) {task : Task L X}
    (hdone : ∀ t ∈ s.tasks, t.phase = .finished) (hopen : task.phase ≠ .finished)
    (htasks : s'.tasks = s.tasks ++ [task]) (hanswers : s'.answers = s.answers)
    (howns : Owns r s' task) : ContextInv r s' where
  own a ha := by
    rw [hanswers] at ha
    obtain ⟨t, ht, hown⟩ := h.own a ha
    exact ⟨t, by rw [htasks, getElem?_concat_of_some ht], hown⟩
  once j t ht := by
    rw [htasks] at ht
    rw [hanswers]
    rcases getElem?_concat_cases ht with ⟨rfl, rfl⟩ | ht
    · refine ⟨fun hfinished => absurd hfinished hopen, fun _ => List.countP_eq_zero.mpr ?_⟩
      intro a ha hlast
      obtain ⟨t, ht, -⟩ := h.own a ha
      obtain ⟨hlt, -⟩ := List.getElem?_eq_some_iff.mp ht
      exact Nat.ne_of_lt hlt (of_decide_eq_true hlast)
    · exact h.once j t ht
  current j t ht htopen := by
    rw [htasks] at ht ⊢
    rcases getElem?_concat_cases ht with ⟨rfl, rfl⟩ | ht
    · exact ⟨by rw [List.length_append, List.length_singleton], howns⟩
    · exact absurd (hdone t (List.mem_of_getElem? ht)) htopen

/-! ### Isolation -/

/-- The first segment of the task in flight comes to the end it has with a new response. -/
private theorem Ready.reached {task task' : Task L X} (h : Ready r s task)
    (hthrown : (Segment.run r.code.start s.request s.response).1 ≠ .thrown)
    (hrequest : s'.request = (Segment.run r.code.start s.request s.response).2.1)
    (hresponse : s'.response = (Segment.run r.code.start s.request s.response).2.2)
    (hpayload : task'.payload = task.payload) (hinputs : task'.inputs = task.inputs) :
    Reached r s' task' (Segment.run r.code.start s.request s.response).1 := by
  obtain ⟨facts, hdefinite⟩ := h.definite
  have hknown : HandleCode.Agree (fun p => s.response.get p = (TcpResponse.create r.response).get p)
      s.response (TcpResponse.create r.response) := fun _ hp => hp
  obtain ⟨stop, request, response₁, response₂, hrun₁, hrun₂, hagree⟩ :=
    hdefinite.start_run_eq hknown
  rw [hrun₁] at hthrown hrequest hresponse ⊢
  refine ⟨hthrown, facts, s.request, _, response₂, hdefinite, ?_, fun inputs => ?_⟩
  · rw [hrequest, hresponse]
    exact hagree
  · have hanswer := h.answer inputs
    rw [hrun₂] at hanswer
    rw [hrequest, hpayload, hinputs]
    exact hanswer

/-- So does the segment behind a suspension point, which takes up an input. -/
private theorem Reached.resume {task task' : Task L X} {locals : L} {x : X}
    (h : Reached r s task (.suspended locals))
    (hthrown : (Segment.run (r.code.resume locals x) s.request s.response).1 ≠ .thrown)
    (hrequest : s'.request = (Segment.run (r.code.resume locals x) s.request s.response).2.1)
    (hresponse : s'.response = (Segment.run (r.code.resume locals x) s.request s.response).2.2)
    (hpayload : task'.payload = task.payload) (hinputs : task'.inputs = task.inputs ++ [x]) :
    Reached r s' task' (Segment.run (r.code.resume locals x) s.request s.response).1 := by
  obtain ⟨facts, request, known, response, hdefinite, hagree, hanswer⟩ := h.answer
  obtain ⟨stop, request', response₁, response₂, hrun₁, hrun₂, hagree'⟩ :=
    hdefinite.resume_run_eq hagree x
  rw [hrun₁] at hthrown hrequest hresponse ⊢
  refine ⟨hthrown, facts, request, known, response₂, hdefinite, ?_, fun inputs => ?_⟩
  · rw [hrequest, hresponse]
    exact hagree'
  · have hnext := hanswer (x :: inputs)
    rw [Router.answerFrom, hrun₂] at hnext
    rw [hrequest, hpayload, hinputs, List.append_assoc, List.singleton_append]
    exact hnext

/-- A task that has returned answers what a new handler answers. -/
private theorem Reached.bytes {task : Task L X} {ec : BitVec 32}
    (h : Reached r s task (.returned ec)) :
    r.answer task.payload task.inputs = some (r.bytes s.request ec s.response) := by
  obtain ⟨facts, -, -, response, -, hagree, hanswer⟩ := h.answer
  have hnil := hanswer []
  rw [Router.answerFrom, List.append_nil] at hnil
  rw [← hnil, Router.bytes_eq_of_agree hagree]

/-- A payload that settles the request makes it the one of a new handler. -/
private theorem ready_of_settles {payload : Bytes} {callback : Callback}
    {request : TcpRequest (Body fields)}
    (hg : Undisturbed r s (.parse payload callback))
    (hvisit : visit r.request s.request payload = some request)
    (hrequest : s'.request = request) (hresponse : s'.response = s.response) :
    Ready r s' { payload, callback } := by
  obtain ⟨-, hsettles, hcode⟩ := hg
  have hnew : visit r.request (TcpRequest.create r.request) payload = some request := by
    obtain ⟨m, hm, hm'⟩ := visit_of_settled hsettles s.request (TcpRequest.create r.request)
    exact hm'.trans (hm.symm.trans hvisit)
  refine ⟨?_, fun inputs => ?_⟩
  · rw [hrequest, hresponse]
    exact hcode request hnew
  · rw [hrequest, Router.answer, hnew, List.nil_append]

/-- **The step lemma**: an undisturbed step keeps the invariant. -/
theorem contextInv_step {e : ContextEvent X} (h : ContextInv r s) (hg : Undisturbed r s e)
    (hstep : contextStep r s e = some s') : ContextInv r s' := by
  cases e with
  | parse payload callback =>
      obtain ⟨request, hvisit, rfl⟩ := contextStep_parse hstep
      refine h.parse hg.1 (by simp) rfl rfl ⟨fun hne => absurd rfl hne, fun _ => ?_, ?_⟩
      · exact ready_of_settles hg hvisit rfl rfl
      · exact fun _ hstop => by cases hstop
  | start i =>
      obtain ⟨payload, callback, inputs, htask, rfl⟩ := contextStep_start hstep
      obtain ⟨-, howns⟩ := h.current i _ htask (by simp)
      refine h.segment htask (by simp) (by simp) rfl rfl ⟨fun _ => rfl, ?_, ?_⟩
      · exact fun hspawned => by cases hspawned
      · rintro stop hstop
        obtain rfl := TaskPhase.running.inj hstop
        exact (howns.ready rfl).reached hg rfl rfl rfl rfl
  | resume i x =>
      obtain ⟨payload, callback, locals, inputs, htask, rfl⟩ := contextStep_resume hstep
      obtain ⟨-, howns⟩ := h.current i _ htask (by simp)
      refine h.segment htask (by simp) (by simp) rfl rfl ⟨fun _ => ?_, ?_, ?_⟩
      · exact howns.callback (by simp)
      · exact fun hspawned => by cases hspawned
      · rintro stop hstop
        obtain rfl := TaskPhase.running.inj hstop
        exact (howns.reached _ rfl).resume (hg _ locals htask rfl) rfl rfl rfl rfl
  | commit i =>
      obtain ⟨payload, callback, ec, inputs, htask, rfl⟩ := contextStep_commit hstep
      obtain ⟨-, howns⟩ := h.current i _ htask (by simp)
      have hsession : s.callback = some callback := howns.callback (by simp)
      refine h.finish htask (by simp) rfl rfl ?_ (howns.reached _ rfl).bytes
      simp only [ContextState.callSession, hsession]

/-- **Isolation of requests that do not overlap.** For every handler, any sessions and any
order of the steps: in every run in which a request is parsed only while no other request of
the router is in flight, with a payload that settles the request and a `handle()` that reads and
leaves nothing of earlier responses and does not throw, every finished request has been answered
once, on its own callback and by the answer to its own payload, and every other request has a
step to take and no answer yet. -/
theorem isolated_of_run (r : Router fields responseFields L X) {es : List (ContextEvent X)}
    {s : ContextState fields responseFields L X}
    (hrun : Run (contextStep r) (Undisturbed r) (ContextState.create r) es s) :
    Isolated r s := by
  have hinv : ContextInv r s :=
    hrun.invariant (fun _ _ _ h hg hstep => contextInv_step h hg hstep) (contextInv_create r)
  exact hinv.isolated

/-! ### Overlapping requests -/

/-- **An overlap misdirects the answer.** When a request arrives and starts while another one
is suspended, and that one resumes and finishes, its answer goes to the callback of the
newcomer. -/
theorem misdirected_of_overlap {i : ℕ} {x : X} {payload : Bytes} {callback : Callback}
    (hrun : Run (contextStep r) (fun _ _ => True) s
      [.parse payload callback, .start s.tasks.length, .resume i x, .commit i] s') :
    ∃ bytes, s'.answers = s.answers ++ [⟨i, callback, bytes⟩] := by
  obtain - | ⟨-, hparse, hrun⟩ := hrun
  obtain - | ⟨-, hstart, hrun⟩ := hrun
  obtain - | ⟨-, hresume, hrun⟩ := hrun
  obtain - | ⟨-, hcommit, hrun⟩ := hrun
  cases hrun
  obtain ⟨request, -, rfl⟩ := contextStep_parse hparse
  obtain ⟨payload', callback', inputs', htask, rfl⟩ := contextStep_start hstart
  obtain ⟨_, _, _, _, -, rfl⟩ := contextStep_resume hresume
  obtain ⟨_, _, ec, _, -, rfl⟩ := contextStep_commit hcommit
  rw [List.getElem?_concat_length] at htask
  obtain ⟨rfl, rfl, -⟩ := Task.mk.inj (Option.some.inj htask)
  exact ⟨_, rfl⟩

end Context

/-! ### A handler that echoes a number -/

/-- A handler that waits once and then answers with the number of its request. -/
def echoRouter : Router [([105, 100], .uint32)] [([105, 100], .uint32)] Unit Unit where
  name := ⟨[47, 105, 100], by decide⟩
  order := .little
  less := stdLess fun _ _ _ => false
  api := numberJson
  code :=
    { start := .stop (.suspended ())
      resume := fun _ _ => .input fun request =>
        .set (.field ⟨0, Nat.one_pos⟩) request.body.1 (.stop (.returned 0)) }

/-- The response with a number, as it is committed. -/
def echoed (n : BitVec 32) : Bytes :=
  (TcpResponse.commit ⟨[47, 105, 100], by decide⟩ idSerialization ⟨0, {}, (n, ())⟩).1

/-- The callbacks of two sessions. -/
def firstCallback : Callback := ⟨1, 10⟩

@[inherit_doc firstCallback]
def secondCallback : Callback := ⟨2, 20⟩

/-- The number 5 from the first session, and when it is answered the number 6 from the
second. -/
def sequentialRequests : List (ContextEvent Unit) :=
  [.parse [0, 0, 0, 5] firstCallback, .start 0, .resume 0 (), .commit 0,
    .parse [0, 0, 0, 6] secondCallback, .start 1, .resume 1 (), .commit 1]

/-- The same two requests, the second one arriving while the first is suspended. -/
def overlappingRequests : List (ContextEvent Unit) :=
  [.parse [0, 0, 0, 5] firstCallback, .start 0, .parse [0, 0, 0, 6] secondCallback, .start 1,
    .resume 0 (), .commit 0]

/-- The echo assigns the number and leaves the header as it is, so that only the header has to be
as in a new response. -/
private theorem definite_echoRouter (request : TcpRequest (Body [([105, 100], .uint32)]))
    {known : ResponseMember [([105, 100], .uint32)] → Prop} (huuid : known .uuid)
    (htimestamp : known .timestamp) :
    echoRouter.code.Definite (fun _ _ p => p = .uuid ∨ p = .timestamp) request known where
  start p hp := by
    rcases hp with rfl | rfl
    · exact huuid
    · exact htimestamp
  resume _ _ _ p hp := by
    cases p with
    | result | way => exact hp.elim
    | uuid => exact Or.inr (Or.inl rfl)
    | timestamp => exact Or.inr (Or.inr rfl)
    | field i =>
        have hi : i = ⟨0, Nat.one_pos⟩ := Fin.ext (Nat.lt_one_iff.mp i.isLt)
        exact Or.inl (congrArg ResponseMember.field hi)

/-- The two requests one after the other are both answered on their own callback, with their
own number. -/
theorem isolated_sequentialRequests :
    ∃ s, s.answers = [⟨0, firstCallback, echoed 5⟩, ⟨1, secondCallback, echoed 6⟩] ∧
      Isolated echoRouter s := by
  have hpayload (n : UInt8) (hn : n = 5 ∨ n = 6) :
      Settles .little (stdLess fun _ _ _ => false) numberJson [([105, 100], .uint32)]
        [0, 0, 0, n] := by
    rcases hn with rfl | rfl <;> exact fun f hf => absurd hf List.not_mem_nil
  have hreturns (p : HandleEnd Unit) (hp : p = .suspended () ∨ p = .returned 0) : p ≠ .thrown := by
    rcases hp with rfl | rfl <;> simp
  have hrun : ∃ s, Run (contextStep echoRouter) (Undisturbed echoRouter)
      (ContextState.create echoRouter) sequentialRequests s ∧
        s.answers = [⟨0, firstCallback, echoed 5⟩, ⟨1, secondCallback, echoed 6⟩] := by
    refine ⟨_, .cons ?_ rfl (.cons ?_ rfl (.cons ?_ rfl (.cons trivial rfl
      (.cons ?_ rfl (.cons ?_ rfl (.cons ?_ rfl (.cons trivial rfl (.nil _)))))))), rfl⟩
    · refine ⟨fun _ ht => absurd ht List.not_mem_nil, hpayload 5 (.inl rfl), fun request _ => ?_⟩
      exact ⟨_, definite_echoRouter request rfl rfl⟩
    · exact hreturns _ (.inl rfl)
    · exact fun _ _ _ _ => hreturns _ (.inr rfl)
    · refine ⟨fun task ht => ?_, hpayload 6 (.inr rfl), fun request _ => ?_⟩
      · rw [List.mem_singleton.mp ht]
      · exact ⟨_, definite_echoRouter request rfl rfl⟩
    · exact hreturns _ (.inl rfl)
    · exact fun _ _ _ _ => hreturns _ (.inr rfl)
  obtain ⟨s, hrun, hanswers⟩ := hrun
  exact ⟨s, hanswers, isolated_of_run echoRouter hrun⟩

/-- **Requests that overlap.** The first request is answered on the callback of the second,
with the number of the second. -/
theorem not_isolated_overlapping :
    ∃ s, Run (contextStep echoRouter) (fun _ _ => True) (ContextState.create echoRouter)
        overlappingRequests s ∧
      s.answers = [⟨0, secondCallback, echoed 6⟩] ∧
      ¬ Isolated echoRouter s := by
  refine ⟨_, Run.of_exec rfl, rfl, fun h => ?_⟩
  obtain ⟨task, htask, -, hcallback, -⟩ := h.own _ (List.mem_singleton.mpr rfl)
  obtain rfl := Option.some.inj htask
  exact absurd hcallback (by decide)

end Aquarius
