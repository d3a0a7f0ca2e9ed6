import Aquarius.Library.Decoder
import Aquarius.Library.OrderedMap
import Mathlib.Data.Int.Order.Basic
import Mathlib.Data.List.Induction
import Mathlib.Data.List.Perm.Basic

/-!
# The Table of Modules

`module_router` (`module/module_router.hpp`) keeps every module in two containers: by the name of
its class, from where it is called, and by the priority it was put with, from where it is started
and given the ticks of the timer. The macros of `module_register.hpp` put the modules one after
another before `main`, and modules rely on others having been started before them.

The names that `struct_name` gives to the classes are a parameter, so two classes may have the same.
What modules do is a parameter as well, in a monad of its own: it may throw, wait, or call other
modules.

## Main results

* `put_registered`: what one more `put` does, with a name that is new and with one that is not.
* `tables_registered`: the invariant of the two containers.
* `run_eq_forM`, `timer_eq_forM`: the loops as one pass over a list of modules.
* `table_exact`: **the two containers hold the same modules, each once, and both loops visit each
  of them once, in the order of their priorities**.
-/

open Decoding

namespace Aquarius

open OrderedMap

/-! ### The router -/

/-- `module_router`. The modules it has made and kept are known by their number in `modules`, which
holds their classes; a `shared_ptr` to one, or a `weak_ptr`, is this number. -/
structure ModuleRouter (T : Type) where
  /-- the modules, in the order in which they were made -/
  modules : List T
  /-- `routers_by_name_` -/
  routersByName : List (Bytes × ℕ)
  /-- `routers_by_priority_` -/
  routersByPriority : List (ℤ × List ℕ)

/-- `module_router` as it is constructed. -/
def ModuleRouter.empty (T : Type) : ModuleRouter T := ⟨[], [], []⟩

/-- `std::greater<int>` -/
def greater (a b : ℤ) : Bool := decide (b < a)

section Put

variable {T : Type} (structName : T → Bytes)

/-- `put`: the module is made in any case, and dropped when there is one of its name. -/
def ModuleRouter.put (r : ModuleRouter T) (module : T) (priority : ℤ) : Bool × ModuleRouter T :=
  match r.routersByName.lookup (structName module) with
  | some _ => (false, r)
  | none =>
      (true,
        { modules := r.modules ++ [module]
          routersByName := r.routersByName ++ [(structName module, r.modules.length)]
          routersByPriority := push greater priority r.modules.length r.routersByPriority })

/-- The router after some modules have been put, each with its priority. -/
def registered (puts : List (T × ℤ)) : ModuleRouter T :=
  puts.foldl (fun r p => (r.put structName p.1 p.2).2) (.empty T)

end Put

/-- `weak_ptr::expired`: the modules are owned by the entries of `routers_by_name_`. -/
def ModuleRouter.expired {T : Type} (r : ModuleRouter T) (module : ℕ) : Bool :=
  !r.routersByName.any (·.2 = module)

/-- `weak_ptr::lock` -/
def ModuleRouter.lock {T : Type} (r : ModuleRouter T) (module : ℕ) : Option ℕ :=
  if r.expired module then none else some module

/-! ### The two loops -/

/-- What the loops call: the virtual functions of the modules, the coroutine of `run` spawned on an
`io_context`, and `get_io_service` of the pool. -/
structure ModuleCalls (m : Type → Type) where
  getIoService : m ℕ
  init (module : ℕ) : m Bool
  attach (module io : ℕ) : m Unit
  run (module io : ℕ) : m Bool
  timer (module : ℕ) (ms : ℕ) : m Unit

section Loops

variable {T : Type} {m : Type → Type} [Monad m] (calls : ModuleCalls m)

/-- `run_one` -/
def runOne (io : ℕ) : Option ℕ → m Bool
  | none => pure false
  | some module => do
      if ← calls.init module then
        calls.attach module io
        calls.run module io
      else
        pure false

/-- `module_router::run` -/
def ModuleRouter.run (r : ModuleRouter T) : m Unit :=
  forM r.routersByPriority fun pr =>
    forM pr.2 fun modulePtr =>
      if r.expired modulePtr then pure ()
      else do
        let io ← calls.getIoService
        let _ ← runOne calls io (r.lock modulePtr)

/-- `module_router::timer` -/
def ModuleRouter.timer (ms : ℕ) (r : ModuleRouter T) : m Unit :=
  forM r.routersByPriority fun pr =>
    forM pr.2 fun modulePtr =>
      if r.expired modulePtr then pure () else calls.timer modulePtr ms

/-- One pass of `run`, over one module. -/
def visitModule (module : ℕ) : m Unit := do
  let io ← calls.getIoService
  let _ ← runOne calls io (some module)

end Loops

/-! ### What has been registered -/

section Registered

variable {T : Type} (structName : T → Bytes)

/-- The name of a module that was put. -/
def nameOf (p : T × ℤ) : Bytes := structName p.1

/-- The modules that are kept of those that were put: the first of each name. -/
def firsts : List (T × ℤ) → List (T × ℤ)
  | [] => []
  | p :: puts => p :: (firsts puts).filter fun q => nameOf structName q ≠ nameOf structName p

/-- The first of each name are of all names. -/
theorem mem_names_firsts (puts : List (T × ℤ)) (name : Bytes) :
    name ∈ (firsts structName puts).map (nameOf structName) ↔
      name ∈ puts.map (nameOf structName) := by
  induction puts with
  | nil => exact Iff.rfl
  | cons p puts ih =>
      rw [firsts, List.map_cons, List.map_cons, List.mem_cons, List.mem_cons, ← ih]
      by_cases hname : name = nameOf structName p
      · exact iff_of_true (.inl hname) (.inl hname)
      · refine or_congr_right ?_
        simp only [List.mem_map, List.mem_filter, decide_eq_true_eq]
        constructor
        · rintro ⟨q, ⟨hq, -⟩, rfl⟩
          exact ⟨q, hq, rfl⟩
        · rintro ⟨q, hq, rfl⟩
          exact ⟨q, ⟨hq, hname⟩, rfl⟩

/-- No two of them have the same name. -/
theorem nodup_names_firsts (puts : List (T × ℤ)) :
    ((firsts structName puts).map (nameOf structName)).Nodup := by
  induction puts with
  | nil => exact List.nodup_nil
  | cons p puts ih =>
      rw [firsts, List.map_cons, List.nodup_cons]
      constructor
      · intro h
        obtain ⟨q, hq, hname⟩ := List.mem_map.mp h
        exact of_decide_eq_true (List.mem_filter.mp hq).2 hname
      · exact ih.sublist (List.filter_sublist.map _)

/-- One more is kept unless there is one of its name. -/
theorem firsts_concat (puts : List (T × ℤ)) (p : T × ℤ) :
    firsts structName (puts ++ [p]) =
      if nameOf structName p ∈ puts.map (nameOf structName) then firsts structName puts
      else firsts structName puts ++ [p] := by
  induction puts with
  | nil => rfl
  | cons q puts ih =>
      rw [List.cons_append, firsts, ih, firsts, List.map_cons]
      by_cases hlater : nameOf structName p ∈ puts.map (nameOf structName)
      · rw [if_pos hlater, if_pos (List.mem_cons_of_mem _ hlater)]
      · rw [if_neg hlater, List.filter_append]
        by_cases hfirst : nameOf structName p = nameOf structName q
        · rw [if_pos (List.mem_cons.mpr (.inl hfirst)), List.filter_singleton,
            decide_eq_false (not_not_intro hfirst), cond_false, List.append_nil]
        · have hnone : nameOf structName p ∉ nameOf structName q :: puts.map (nameOf structName) :=
            fun h => (List.mem_cons.mp h).elim hfirst hlater
          rw [if_neg hnone, List.filter_singleton, decide_eq_true hfirst, cond_true,
            List.cons_append]

end Registered

/-! ### The invariant of the two containers -/

section Invariant

variable {T : Type} (structName : T → Bytes)

/-- Module `i` is visited before module `j`: it has the greater priority, or the same one and was
registered earlier. -/
def Before (puts : List (T × ℤ)) (i j : ℕ) : Prop :=
  ∃ p q, puts[i]? = some p ∧ puts[j]? = some q ∧ (q.2 < p.2 ∨ q.2 = p.2 ∧ i < j)

/-- The modules in the order of `routers_by_priority_`. -/
def ModuleRouter.order (r : ModuleRouter T) : List ℕ := (entries r.routersByPriority).map Prod.snd

/-- The containers hold the modules that were kept, each under its name and under its priority. -/
structure Tables (r : ModuleRouter T) (kept : List (T × ℤ)) : Prop where
  modules : r.modules = kept.map Prod.fst
  byName : r.routersByName = kept.mapIdx fun i p => (nameOf structName p, i)
  ordered : Ordered greater r.routersByPriority
  byPriority : (entries r.routersByPriority).Perm (kept.mapIdx fun i p => (p.2, i))
  sorted : (entries r.routersByPriority).Pairwise fun x y => y.1 < x.1 ∨ y.1 = x.1 ∧ x.2 < y.2

/-- `std::greater<int>` is a linear order. -/
theorem linear_greater : Linear greater where
  irrefl a := decide_eq_false (lt_irrefl a)
  trans _ _ _ hab hbc :=
    decide_eq_true (lt_trans (of_decide_eq_true hbc) (of_decide_eq_true hab))
  total _ _ hab hba :=
    le_antisymm (not_lt.mp (of_decide_eq_false hab)) (not_lt.mp (of_decide_eq_false hba))

variable {structName}

/-- The names in the table are those of the modules that were kept. -/
theorem Tables.names {r : ModuleRouter T} {kept : List (T × ℤ)} (h : Tables structName r kept) :
    r.routersByName.map Prod.fst = kept.map (nameOf structName) := by
  rw [h.byName]
  refine List.ext_getElem? fun i => ?_
  rw [List.getElem?_map, List.getElem?_mapIdx, Option.map_map, List.getElem?_map]
  rfl

/-- A router without modules. -/
theorem tables_empty : Tables structName (.empty T) [] where
  modules := rfl
  byName := rfl
  ordered := List.Pairwise.nil
  byPriority := List.Perm.refl _
  sorted := List.Pairwise.nil

/-- A name that is there is refused, and nothing changes. -/
theorem put_of_mem {r : ModuleRouter T} {kept : List (T × ℤ)} (h : Tables structName r kept)
    {p : T × ℤ} (hname : nameOf structName p ∈ kept.map (nameOf structName)) :
    r.put structName p.1 p.2 = (false, r) := by
  rw [← h.names] at hname
  obtain ⟨i, hi⟩ := Option.ne_none_iff_exists'.mp (mt lookup_eq_none_iff.mp (not_not_intro hname))
  have hfound : r.routersByName.lookup (structName p.1) = some i := hi
  simp only [ModuleRouter.put, hfound]

/-- The entry of a module that is added is before all that come after it. -/
theorem sorted_insert {before after : List (ℤ × ℕ)} {priority : ℤ} {module : ℕ}
    (h : (before ++ after).Pairwise fun x y => y.1 < x.1 ∨ y.1 = x.1 ∧ x.2 < y.2)
    (hbefore : ∀ x ∈ before, greater priority x.1 = false)
    (hafter : ∀ x ∈ after, greater priority x.1 = true)
    (hearlier : ∀ x ∈ before, x.2 < module) :
    (before ++ (priority, module) :: after).Pairwise
      fun x y => y.1 < x.1 ∨ y.1 = x.1 ∧ x.2 < y.2 := by
  obtain ⟨hb, ha, hacross⟩ := List.pairwise_append.mp h
  refine List.pairwise_append.mpr ⟨hb, List.pairwise_cons.mpr ⟨fun y hy => ?_, ha⟩,
    fun x hx y hy => ?_⟩
  · exact .inl (of_decide_eq_true (hafter y hy))
  · rcases List.mem_cons.mp hy with rfl | hy
    · have hle : priority ≤ x.1 := not_lt.mp (of_decide_eq_false (hbefore x hx))
      rcases lt_or_eq_of_le hle with hlt | heq
      · exact .inl hlt
      · exact .inr ⟨heq, hearlier x hx⟩
    · exact hacross x hx y hy

/-- A name that is new is accepted, and the module joins both containers. -/
theorem put_of_not_mem {r : ModuleRouter T} {kept : List (T × ℤ)} (h : Tables structName r kept)
    {p : T × ℤ} (hname : nameOf structName p ∉ kept.map (nameOf structName)) :
    (r.put structName p.1 p.2).1 = true ∧
      Tables structName (r.put structName p.1 p.2).2 (kept ++ [p]) := by
  have hfree : r.routersByName.lookup (structName p.1) = none := by
    rw [← h.names] at hname
    exact lookup_eq_none_iff.mpr hname
  have hlength : r.modules.length = kept.length := by
    rw [h.modules, List.length_map]
  obtain ⟨before, after, hentries, hpush, hbefore, hafter⟩ :=
    entries_push linear_greater h.ordered p.2 r.modules.length
  simp only [ModuleRouter.put, hfree]
  refine ⟨trivial, ?_, ?_, h.ordered.push linear_greater _ _, ?_, ?_⟩
  · rw [h.modules, List.map_append]
    rfl
  · rw [h.byName, List.mapIdx_concat, hlength]
    rfl
  · rw [hpush, List.mapIdx_concat, hlength]
    refine List.perm_middle.trans ((List.Perm.cons _ ?_).trans (List.perm_append_singleton _ _).symm)
    rw [← hentries]
    exact h.byPriority
  · rw [hpush]
    refine sorted_insert (hentries ▸ h.sorted) hbefore hafter fun x hx => ?_
    have hmem : x ∈ kept.mapIdx fun i p => (p.2, i) :=
      h.byPriority.mem_iff.mp (hentries ▸ List.mem_append_left _ hx)
    obtain ⟨i, hi, rfl⟩ := List.mem_mapIdx.mp hmem
    rw [hlength]
    exact hi

variable (structName)

/-- **The invariant**: after any modules have been put, the containers hold those that were the
first of their name. Induction from the last one that was put. -/
theorem tables_registered (puts : List (T × ℤ)) :
    Tables structName (registered structName puts) (firsts structName puts) := by
  induction puts using List.reverseRecOn with
  | nil => exact tables_empty
  | append_singleton puts p ih =>
      have hstep : registered structName (puts ++ [p]) =
          ((registered structName puts).put structName p.1 p.2).2 := by
        rw [registered, List.foldl_append]
        rfl
      rw [hstep, firsts_concat]
      by_cases hname : nameOf structName p ∈ puts.map (nameOf structName)
      · rw [if_pos hname, put_of_mem ih ((mem_names_firsts structName puts _).mpr hname)]
        exact ih
      · rw [if_neg hname]
        exact (put_of_not_mem ih (mt (mem_names_firsts structName puts _).mp hname)).2

/-- **One more `put`** is refused when its name is there, changing nothing, and accepted
otherwise. -/
theorem put_registered (puts : List (T × ℤ)) (p : T × ℤ) :
    (nameOf structName p ∈ puts.map (nameOf structName) →
      (registered structName puts).put structName p.1 p.2 = (false, registered structName puts)) ∧
    (nameOf structName p ∉ puts.map (nameOf structName) →
      ((registered structName puts).put structName p.1 p.2).1 = true) := by
  have htables := tables_registered structName puts
  rw [← mem_names_firsts]
  exact ⟨put_of_mem htables, fun h => (put_of_not_mem htables h).1⟩

end Invariant

/-! ### One pass over all modules -/

section Visits

variable {T : Type} {m : Type → Type} [Monad m] [LawfulMonad m]

/-- A loop over a map of lists is a loop over its entries. -/
theorem forM_entries {K : Type} (table : List (K × List ℕ)) (f : ℕ → m PUnit) :
    (forM table fun pr => forM pr.2 f) = forM ((entries table).map Prod.snd) f := by
  induction table with
  | nil => rfl
  | cons pr table ih =>
      have hvalues : (pr.2.map (Prod.mk pr.1)).map Prod.snd = pr.2 := by
        rw [List.map_map]
        exact List.map_id pr.2
      rw [entries, List.flatMap_cons, List.map_append, hvalues, ← entries, List.forM_append, ← ih,
        List.forM_cons]

omit [LawfulMonad m] in
/-- Loops whose bodies agree on the list are the same. -/
theorem forM_congr {ids : List ℕ} {f g : ℕ → m PUnit} (h : ∀ id ∈ ids, f id = g id) :
    forM ids f = forM ids g := by
  induction ids with
  | nil => rfl
  | cons id ids ih =>
      rw [List.forM_cons, List.forM_cons, h id List.mem_cons_self,
        ih fun j hj => h j (List.mem_cons_of_mem _ hj)]

/-- Nothing that is in the order has expired. -/
theorem Tables.expired {structName : T → Bytes} {r : ModuleRouter T} {kept : List (T × ℤ)}
    (h : Tables structName r kept) {id : ℕ} (hid : id ∈ r.order) : r.expired id = false := by
  obtain ⟨x, hx, rfl⟩ := List.mem_map.mp hid
  obtain ⟨i, hi, rfl⟩ := List.mem_mapIdx.mp (h.byPriority.mem_iff.mp hx)
  have hname : (nameOf structName kept[i], i) ∈ r.routersByName := by
    rw [h.byName]
    exact List.mem_mapIdx.mpr ⟨i, hi, rfl⟩
  rw [ModuleRouter.expired, Bool.not_eq_false', List.any_eq_true]
  exact ⟨_, hname, decide_eq_true rfl⟩

/-- **`run` is one pass** over the modules in the order of their priorities. -/
theorem run_eq_forM {structName : T → Bytes} {r : ModuleRouter T} {kept : List (T × ℤ)}
    (h : Tables structName r kept) (calls : ModuleCalls m) :
    r.run calls = forM r.order (visitModule calls) := by
  rw [ModuleRouter.run, forM_entries]
  refine forM_congr fun id hid => ?_
  have halive : r.expired id = false := h.expired hid
  have hlock : r.lock id = some id := by rw [ModuleRouter.lock, halive, if_neg Bool.false_ne_true]
  rw [halive, if_neg Bool.false_ne_true, hlock]
  rfl

/-- **`timer` is one pass** over the modules in the order of their priorities. -/
theorem timer_eq_forM {structName : T → Bytes} {r : ModuleRouter T} {kept : List (T × ℤ)}
    (h : Tables structName r kept) (calls : ModuleCalls m) (ms : ℕ) :
    r.timer calls ms = forM r.order fun id => calls.timer id ms := by
  rw [ModuleRouter.timer, forM_entries]
  refine forM_congr fun id hid => ?_
  have halive : r.expired id = false := h.expired hid
  rw [halive, if_neg Bool.false_ne_true]

/-- The calls of the loops with a record of the modules that are visited: one that is started, or
given a tick. -/
def recording (calls : ModuleCalls m) : ModuleCalls (StateT (List ℕ) m) where
  getIoService := StateT.lift calls.getIoService
  init id := do
    modify (· ++ [id])
    StateT.lift (calls.init id)
  attach id io := StateT.lift (calls.attach id io)
  run id io := StateT.lift (calls.run id io)
  timer id ms := do
    modify (· ++ [id])
    StateT.lift (calls.timer id ms)

/-- A pass whose every step records its module, and otherwise does what it does without the
record, has recorded the whole list when it returns. -/
theorem forM_recording {f : ℕ → StateT (List ℕ) m PUnit} {g : ℕ → m PUnit}
    (h : ∀ id visited, (f id).run visited = (fun _ => (⟨⟩, visited ++ [id])) <$> g id)
    (ids visited : List ℕ) :
    (forM ids f).run visited = (fun _ => (⟨⟩, visited ++ ids)) <$> forM ids g := by
  induction ids generalizing visited with
  | nil =>
      rw [List.forM_nil, List.forM_nil, StateT.run_pure, map_pure, List.append_nil]
  | cons id ids ih =>
      rw [List.forM_cons, List.forM_cons, StateT.run_bind, h, bind_map_left, map_bind]
      refine bind_congr fun _ => ?_
      rw [ih, List.append_assoc, List.singleton_append]

/-- The step of `run` records its module. -/
theorem visitModule_recording (calls : ModuleCalls m) (id : ℕ) (visited : List ℕ) :
    (visitModule (recording calls) id).run visited =
      (fun _ => (⟨⟩, visited ++ [id])) <$> visitModule calls id := by
  simp only [visitModule, recording, runOne, bind_assoc, bind_pure_comp, map_bind, StateT.run_bind,
    StateT.run_lift, StateT.run_modify, StateT.run_map, bind_map_left, pure_bind, Functor.map_map]
  refine bind_congr fun io => bind_congr fun ready => ?_
  -- both the module that is started and the one whose `init` failed have been recorded before
  cases ready with
  | true => simp
  | false => simp

/-- The step of `timer` records its module. -/
theorem timer_recording (calls : ModuleCalls m) (ms id : ℕ) (visited : List ℕ) :
    ((recording calls).timer id ms).run visited =
      (fun _ => (⟨⟩, visited ++ [id])) <$> calls.timer id ms := by
  simp [recording]

end Visits

/-! ### The order of the visits -/

section Order

variable {T : Type} {structName : T → Bytes}

/-- The containers hold the same modules, each once and under a name of its own. -/
structure SameModules (r : ModuleRouter T) : Prop where
  names : (r.routersByName.map Prod.fst).Nodup
  once : (r.routersByName.map Prod.snd).Nodup
  same : (r.routersByName.map Prod.snd).Perm r.order

/-- All the modules that were kept are there, those of a greater priority first, and those of one
priority in the order in which they were put. -/
structure VisitsAll (kept : List (T × ℤ)) (order : List ℕ) : Prop where
  all : order.Perm (List.range kept.length)
  sorted : order.Pairwise (Before kept)

/-- The numbers in a numbered list. -/
theorem map_snd_mapIdx {α β : Type} (f : α → β) (xs : List α) :
    (xs.mapIdx fun i x => (f x, i)).map Prod.snd = List.range xs.length := by
  refine List.ext_getElem? fun i => ?_
  rw [List.getElem?_map, List.getElem?_mapIdx, Option.map_map]
  by_cases hi : i < xs.length
  · rw [List.getElem?_range hi, List.getElem?_eq_getElem hi]
    rfl
  · rw [List.getElem?_eq_none (Nat.le_of_not_lt hi),
      List.getElem?_eq_none (by rw [List.length_range]; exact Nat.le_of_not_lt hi)]
    rfl

/-- The order is one of the modules that were kept. -/
theorem Tables.order_perm {r : ModuleRouter T} {kept : List (T × ℤ)}
    (h : Tables structName r kept) : r.order.Perm (List.range kept.length) := by
  rw [← map_snd_mapIdx Prod.snd kept]
  exact h.byPriority.map Prod.snd

/-- The containers hold the same modules, when no name was kept twice. -/
theorem Tables.sameModules {r : ModuleRouter T} {kept : List (T × ℤ)}
    (h : Tables structName r kept) (hnodup : (kept.map (nameOf structName)).Nodup) :
    SameModules r := by
  have hnumbers : r.routersByName.map Prod.snd = List.range kept.length := by
    rw [h.byName, map_snd_mapIdx (nameOf structName) kept]
  refine ⟨h.names ▸ hnodup, ?_, ?_⟩
  · rw [hnumbers]
    exact List.nodup_range
  · rw [hnumbers]
    exact h.order_perm.symm

/-- The order is that of the priorities, and of the registrations within one. -/
theorem Tables.visitsAll {r : ModuleRouter T} {kept : List (T × ℤ)}
    (h : Tables structName r kept) : VisitsAll kept r.order := by
  refine ⟨h.order_perm, List.pairwise_map.mpr (h.sorted.imp_of_mem fun {x y} hx hy hxy => ?_)⟩
  obtain ⟨i, hi, rfl⟩ := List.mem_mapIdx.mp (h.byPriority.mem_iff.mp hx)
  obtain ⟨j, hj, rfl⟩ := List.mem_mapIdx.mp (h.byPriority.mem_iff.mp hy)
  exact ⟨_, _, List.getElem?_eq_getElem hi, List.getElem?_eq_getElem hj, hxy⟩

/-- **The table of modules.** After any modules have been put, with any names and priorities:

* both containers hold the same modules, each once;
* one more `put` is refused, and changes nothing, when there is a module of its name, and accepted
  when there is none;
* `run` and `timer` are each one pass over all modules, by decreasing priority and in the order of
  registration within a priority, so that each module has been visited once, and in this order,
  when the loop returns. -/
theorem table_exact {m : Type → Type} [Monad m] [LawfulMonad m] (structName : T → Bytes)
    (puts : List (T × ℤ)) (calls : ModuleCalls m) :
    SameModules (registered structName puts) ∧
    (∀ p : T × ℤ,
      (nameOf structName p ∈ puts.map (nameOf structName) →
        (registered structName puts).put structName p.1 p.2 =
          (false, registered structName puts)) ∧
      (nameOf structName p ∉ puts.map (nameOf structName) →
        ((registered structName puts).put structName p.1 p.2).1 = true)) ∧
    ∃ order, VisitsAll (firsts structName puts) order ∧
      (registered structName puts).run calls = forM order (visitModule calls) ∧
      (∀ ms, (registered structName puts).timer calls ms =
        forM order fun id => calls.timer id ms) ∧
      (∀ visited, ((registered structName puts).run (recording calls)).run visited =
        (fun _ => (⟨⟩, visited ++ order)) <$> (registered structName puts).run calls) ∧
      ∀ ms visited, ((registered structName puts).timer (recording calls) ms).run visited =
        (fun _ => (⟨⟩, visited ++ order)) <$> (registered structName puts).timer calls ms := by
  have htables := tables_registered structName puts
  refine ⟨htables.sameModules (nodup_names_firsts structName puts), put_registered structName puts,
    (registered structName puts).order, htables.visitsAll, run_eq_forM htables calls,
    timer_eq_forM htables calls, fun visited => ?_, fun ms visited => ?_⟩
  · rw [run_eq_forM htables, run_eq_forM htables]
    exact forM_recording (visitModule_recording calls) _ _
  · rw [timer_eq_forM htables, timer_eq_forM htables]
    exact forM_recording (timer_recording calls ms) _ _

/-- Three modules and a second one of the first name: the one of the highest priority is started
first, and the two of priority zero in the order in which they were put. -/
theorem table_exact_fourPuts :
    let puts : List (UInt8 × ℤ) := [(97, 0), (98, 3), (97, 7), (99, 0)]
    let silent : ModuleCalls Id :=
      { getIoService := 0, init := fun _ => true, attach := fun _ _ => ⟨⟩, run := fun _ _ => true,
        timer := fun _ _ => ⟨⟩ }
    (registered (fun c => [c]) puts).order = [1, 0, 2] ∧
      SameModules (registered (fun c => [c]) puts) ∧
      ∃ order, VisitsAll (firsts (fun c => [c]) puts) order ∧
        (registered (fun c => [c]) puts).run silent = forM order (visitModule silent) := by
  intro puts silent
  obtain ⟨hsame, -, order, hall, hrun, -⟩ := table_exact (fun c : UInt8 => [c]) puts silent
  exact ⟨by decide, hsame, order, hall, hrun⟩

end Order

end Aquarius
