/-
# Tasks and the scheduler of the embedding system

Components create tasks through the `TaskManager` and add units to them; the scheduler holds
pointers to tasks and ticks the units of each.  `TaskManagerComponent::start` hands over the
tasks that exist at that moment: a task that is created later is never ticked, and one that is
handed over twice is ticked twice.
-/
import Vm32.Lib.Runs

namespace Vm32

open LabelledRun

/-! ### The classes -/

/-- `Task`; its units are the `ITickable`s added to it. -/
structure Task (U : Type*) where
  name : List UInt8
  units : List U
deriving DecidableEq

/-- `TaskManager`; a task is referred to by its place in `tasks_`, and `bound` tells whether
`scheduler_` is set. -/
structure TaskManager (U : Type*) where
  tasks : List (Task U)
  bound : Bool
deriving DecidableEq

/-- `Scheduler`, with the tasks it points to. -/
structure Scheduler where
  tasks : List ℕ
deriving DecidableEq

section Classes

variable {U : Type*}

/-- `Task::add`. -/
def Task.add (t : Task U) (u : U) : Task U := { t with units := t.units ++ [u] }

/-- `Task::tick`: the units whose `tick` is called, in order. -/
def Task.tick (t : Task U) : List U := t.units

/-- `TaskManager::createTask`. -/
def TaskManager.createTask (m : TaskManager U) (name : List UInt8) : TaskManager U :=
  { m with tasks := m.tasks ++ [⟨name, []⟩] }

/-- `TaskManager::bindScheduler`. -/
def TaskManager.bindScheduler (m : TaskManager U) : TaskManager U := { m with bound := true }

/-- `Scheduler::addTask`. -/
def Scheduler.addTask (s : Scheduler) (task : ℕ) : Scheduler :=
  { s with tasks := s.tasks ++ [task] }

/-- `TaskManager::registerToScheduler`. -/
def TaskManager.registerToScheduler (m : TaskManager U) (s : Scheduler) : Scheduler :=
  if !m.bound then s else (List.range m.tasks.length).foldl Scheduler.addTask s

/-- The units of a task. -/
def TaskManager.unitsOf (m : TaskManager U) (task : ℕ) : List U :=
  (m.tasks[task]?.map Task.tick).getD []

/-- `Scheduler::tick`: the units whose `tick` is called, in order. -/
def Scheduler.tick (s : Scheduler) (m : TaskManager U) : List U := s.tasks.flatMap m.unitsOf

/-- The task manager and the scheduler it is bound to. -/
structure TaskSystem (U : Type*) where
  manager : TaskManager U
  scheduler : Scheduler
deriving DecidableEq

/-- `TaskManagerComponent::init`, with whether `SystemBus` knows a `Scheduler`. -/
def TaskManagerComponent.init (service : Bool) (s : TaskSystem U) : TaskSystem U × Bool :=
  if !service then (s, false) else ({ s with manager := s.manager.bindScheduler }, true)

/-- `TaskManagerComponent::start`. -/
def TaskManagerComponent.start (s : TaskSystem U) : TaskSystem U :=
  { s with scheduler := s.manager.registerToScheduler s.scheduler }

/-- The system as `initAll` leaves it. -/
def TaskSystem.initialised : TaskSystem U :=
  (TaskManagerComponent.init true ⟨⟨[], false⟩, ⟨[]⟩⟩).1

/-! ### Calls of the components -/

/-- A call that a component makes, or that is made of the task manager's component. -/
inductive TaskCall (U : Type*)
  | createTask (name : List UInt8)
  /-- `Task::add` of the task at that place. -/
  | add (task : ℕ) (u : U)
  | start
  | tick
deriving DecidableEq

/-- The system after a call. -/
def TaskSystem.apply (s : TaskSystem U) : TaskCall U → TaskSystem U
  | .createTask name => { s with manager := s.manager.createTask name }
  | .add task u =>
    { s with manager := { s.manager with tasks := s.manager.tasks.modify task (·.add u) } }
  | .start => TaskManagerComponent.start s
  | .tick => s

/-- What the next `Scheduler::tick` calls. -/
def TaskSystem.ticked (s : TaskSystem U) : List U := s.scheduler.tick s.manager

/-- The units of all tasks, in the order in which the tasks were created. -/
def TaskSystem.allUnits (s : TaskSystem U) : List U := s.manager.tasks.flatMap Task.units

/-- For each task the number of calls of `start` since it was created, after one more call. -/
def TaskCall.countStart (starts : List ℕ) : TaskCall U → List ℕ
  | .createTask _ => starts ++ [0]
  | .start => starts.map (· + 1)
  | _ => starts

/-- For each task the number of calls of `start` since it was created. -/
def startsSince (calls : List (TaskCall U)) : List ℕ := calls.foldl TaskCall.countStart []

variable [DecidableEq U]

/-- The unit was added once, to one task. -/
def TaskSystem.AddedOnce (s : TaskSystem U) (u : U) : Prop := s.allUnits.count u = 1

instance (s : TaskSystem U) : DecidablePred s.AddedOnce :=
  fun u => inferInstanceAs (Decidable (s.allUnits.count u = 1))

/-- The next tick calls each unit that was added once exactly once, in the order in which the
tasks were created. -/
def TaskSystem.TicksEachOnce (s : TaskSystem U) : Prop :=
  (s.ticked.filter fun u => s.AddedOnce u) = s.allUnits.filter fun u => s.AddedOnce u

instance (s : TaskSystem U) : Decidable s.TicksEachOnce :=
  inferInstanceAs (Decidable (_ = _))

end Classes

/-! ### What is handed over to the scheduler -/

section Handed

variable {U : Type*} {s : TaskSystem U} {starts : List ℕ}

lemma registerToScheduler_tasks {m : TaskManager U} (hbound : m.bound = true) (s : Scheduler) :
    (m.registerToScheduler s).tasks = s.tasks ++ List.range m.tasks.length := by
  have hfold : ∀ (l : List ℕ) (s : Scheduler),
      (l.foldl Scheduler.addTask s).tasks = s.tasks ++ l := by
    intro l
    induction l with
    | nil => simp
    | cons i l ih => simp [ih, Scheduler.addTask]
  rw [TaskManager.registerToScheduler, hbound, Bool.not_true, if_neg Bool.false_ne_true, hfold]

/-- The scheduler points to each task as often as it was handed over. -/
structure TaskSystem.HandedOver (s : TaskSystem U) (starts : List ℕ) : Prop where
  bound : s.manager.bound = true
  length : starts.length = s.manager.tasks.length
  count : ∀ i, s.scheduler.tasks.count i = starts.getD i 0
  /-- The tasks that were handed over once were handed over in the order of their creation. -/
  order : ∀ p : ℕ → Bool,
    (∀ i < s.manager.tasks.length, p i = true → s.scheduler.tasks.count i = 1) →
      s.scheduler.tasks.filter p = (List.range s.manager.tasks.length).filter p

/-- A scheduler points only to tasks that exist. -/
lemma TaskSystem.HandedOver.lt (h : s.HandedOver starts) {i : ℕ}
    (hi : i ∈ s.scheduler.tasks) : i < s.manager.tasks.length := by
  by_contra hge
  have hcount := h.count i
  rw [List.getD_eq_getElem?_getD, List.getElem?_eq_none (by rw [h.length]; omega)] at hcount
  exact List.count_eq_zero.1 hcount hi

/-- A task that is created was not handed over yet. -/
lemma TaskSystem.HandedOver.createTask (h : s.HandedOver starts) (name : List UInt8) :
    (s.apply (.createTask name)).HandedOver (starts ++ [0]) := by
  have hcount : ∀ i, s.scheduler.tasks.count i = (starts ++ [0]).getD i 0 := by
    intro i
    rw [h.count i, List.getD_eq_getElem?_getD, List.getD_eq_getElem?_getD]
    rcases Nat.lt_trichotomy i starts.length with hi | rfl | hi
    · rw [List.getElem?_append_left hi]
    · simp
    · rw [List.getElem?_eq_none hi.le, List.getElem?_eq_none (by simpa using hi)]
  refine ⟨h.bound, by simp [apply, TaskManager.createTask, h.length], hcount, fun p hp => ?_⟩
  have hnew : p s.manager.tasks.length = false := by
    by_contra hnew
    have hone := hp s.manager.tasks.length (by simp [apply, TaskManager.createTask])
      (by simpa using hnew)
    have hnone := hcount s.manager.tasks.length
    rw [← h.length] at hone hnone
    simp [apply, hnone] at hone
  have hold := h.order p fun i hi => hp i (by simp [apply, TaskManager.createTask]; omega)
  simp only [apply, TaskManager.createTask, List.length_append, List.length_singleton,
    List.range_succ, List.filter_append, hold]
  simp [hnew]

/-- A call of `start` hands over every task. -/
lemma TaskSystem.HandedOver.start (h : s.HandedOver starts) :
    (s.apply .start).HandedOver (starts.map (· + 1)) := by
  have htasks : (s.apply .start).scheduler.tasks =
      s.scheduler.tasks ++ List.range s.manager.tasks.length :=
    registerToScheduler_tasks h.bound s.scheduler
  have hcount : ∀ i, (s.apply .start).scheduler.tasks.count i =
      s.scheduler.tasks.count i + if i < s.manager.tasks.length then 1 else 0 := by
    intro i
    rw [htasks, List.count_append, List.count_range]
  refine ⟨h.bound, by rw [List.length_map, h.length]; rfl, fun i => ?_, fun p hp => ?_⟩
  · rw [hcount, h.count, ← h.length]
    by_cases hi : i < starts.length
    · simp [hi]
    · simp [hi]
  · -- what is handed over once was not handed over before
    have hnone : s.scheduler.tasks.filter p = [] := by
      refine List.filter_eq_nil_iff.2 fun i hi hpi => ?_
      have hlt := h.lt hi
      have hone := hp i hlt hpi
      rw [hcount, if_pos hlt] at hone
      exact List.count_eq_zero.1 (Nat.succ.inj hone) hi
    rw [htasks, List.filter_append, hnone, List.nil_append]
    rfl

/-- One call. -/
lemma TaskSystem.HandedOver.next (h : s.HandedOver starts) (call : TaskCall U) :
    (s.apply call).HandedOver (call.countStart starts) := by
  cases call with
  | createTask name => exact h.createTask name
  | add task u =>
    refine ⟨h.bound, ?_, h.count, ?_⟩
    · simpa [apply, TaskCall.countStart] using h.length
    · simpa [apply] using h.order
  | start => exact h.start
  | tick => exact h

lemma handedOver_run (calls : List (TaskCall U)) :
    (run TaskSystem.apply .initialised calls).HandedOver (startsSince calls) := by
  have hinit : (TaskSystem.initialised : TaskSystem U).HandedOver [] :=
    ⟨rfl, rfl, fun _ => rfl, fun _ _ => rfl⟩
  have hall : ∀ (s : TaskSystem U) (starts : List ℕ), s.HandedOver starts →
      (run TaskSystem.apply s calls).HandedOver (calls.foldl TaskCall.countStart starts) := by
    induction calls with
    | nil => exact fun s starts h => h
    | cons call calls ih => exact fun s starts h => ih _ _ (h.next call)
  exact hall _ _ hinit

end Handed

/-! ### What a tick calls -/

section Ticks

variable {U : Type*} {s : TaskSystem U} {starts : List ℕ}

lemma allUnits_eq (s : TaskSystem U) :
    s.allUnits = (List.range s.manager.tasks.length).flatMap s.manager.unitsOf := by
  have hunits : ∀ tasks : List (Task U), tasks.flatMap Task.units =
      (List.range tasks.length).flatMap fun i => (tasks[i]?.map Task.tick).getD [] := by
    intro tasks
    induction tasks with
    | nil => rfl
    | cons t tasks ih =>
      rw [List.flatMap_cons, ih, List.length_cons, List.range_succ_eq_map, List.flatMap_cons,
        List.flatMap_map]
      rfl
  exact hunits s.manager.tasks

/-- Tasks without units that matter may be left out. -/
lemma flatMap_filter_eq {ι : Type*} {p : ι → Bool} {g : ι → List U}
    (hg : ∀ i, p i = false → g i = []) (l : List ι) : (l.filter p).flatMap g = l.flatMap g := by
  induction l with
  | nil => rfl
  | cons i l ih =>
    cases hi : p i with
    | true => rw [List.filter_cons_of_pos hi, List.flatMap_cons, List.flatMap_cons, ih]
    | false =>
      rw [List.filter_cons_of_neg (by simp [hi]), List.flatMap_cons, hg i hi, List.nil_append, ih]

variable [DecidableEq U]

/-- No other task has a unit that was added once. -/
lemma count_unitsOf {i : ℕ} (hi : i < s.manager.tasks.length) {u : U}
    (hu : u ∈ s.manager.unitsOf i) (honce : s.AddedOnce u) :
    ∀ j < s.manager.tasks.length, (s.manager.unitsOf j).count u = if j = i then 1 else 0 := by
  have hsum : ((List.range s.manager.tasks.length).map
      fun j => (s.manager.unitsOf j).count u).sum = 1 := by
    rw [TaskSystem.AddedOnce, allUnits_eq, List.count_flatMap] at honce
    exact honce
  obtain ⟨pre, post, hsplit⟩ := List.append_of_mem (List.mem_range.2 hi)
  have hpos : 0 < (s.manager.unitsOf i).count u := List.count_pos_iff.2 hu
  rw [hsplit, List.map_append, List.map_cons, List.sum_append, List.sum_cons] at hsum
  have hrest : ∀ j ∈ pre ++ post, (s.manager.unitsOf j).count u = 0 := by
    intro j hj
    have hle : (s.manager.unitsOf j).count u ≤
        ((pre ++ post).map fun j => (s.manager.unitsOf j).count u).sum :=
      List.le_sum_of_mem (List.mem_map_of_mem hj)
    rw [List.map_append, List.sum_append] at hle
    omega
  intro j hj
  split_ifs with hji
  · subst hji
    omega
  · refine hrest j ?_
    have hmem := List.mem_range.2 hj
    rw [hsplit] at hmem
    simpa [hji] using hmem

/-- A unit that was added once is ticked as often as the scheduler points to its task. -/
lemma count_ticked (h : s.HandedOver starts) {i : ℕ} (hi : i < s.manager.tasks.length) {u : U}
    (hu : u ∈ s.manager.unitsOf i) (honce : s.AddedOnce u) :
    s.ticked.count u = s.scheduler.tasks.count i := by
  have hcounts := count_unitsOf hi hu honce
  have hsum : ∀ l : List ℕ, (∀ j ∈ l, j < s.manager.tasks.length) →
      (l.flatMap s.manager.unitsOf).count u = l.count i := by
    intro l hl
    induction l with
    | nil => rfl
    | cons j l ih =>
      rw [List.flatMap_cons, List.count_append, hcounts j (hl j List.mem_cons_self),
        ih fun j hj => hl j (List.mem_cons_of_mem _ hj), List.count_cons, Nat.add_comm]
      simp
  exact hsum s.scheduler.tasks fun j hj => h.lt hj

/-- After any calls, the next tick calls each unit that was added once exactly once, in the order
in which the tasks were created, exactly if every task with such a unit was created before
exactly one call of `start`. -/
theorem ticks_each_once_iff (calls : List (TaskCall U)) :
    let s := run TaskSystem.apply .initialised calls
    s.TicksEachOnce ↔ ∀ (i : ℕ) (t : Task U), s.manager.tasks[i]? = some t →
      (∃ u ∈ t.units, s.AddedOnce u) → (startsSince calls)[i]? = some 1 := by
  intro s
  have h : s.HandedOver (startsSince calls) := handedOver_run calls
  have hunits : ∀ {i : ℕ} {t : Task U}, s.manager.tasks[i]? = some t →
      s.manager.unitsOf i = t.units := by
    intro i t ht
    rw [TaskManager.unitsOf, ht]
    rfl
  refine ⟨?_, fun hstarts => ?_⟩
  · rintro honce i t ht ⟨u, hu, hadded⟩
    obtain ⟨hi, -⟩ := List.getElem?_eq_some_iff.1 ht
    -- count `u` on both sides: its task is listed once for every start
    have hcount : s.ticked.count u = s.allUnits.count u := by
      have hboth := congrArg (List.count u) honce
      rwa [List.count_filter (by simpa using hadded),
        List.count_filter (by simpa using hadded)] at hboth
    rw [count_ticked h hi (by rwa [hunits ht]) hadded, hadded, h.count] at hcount
    rw [← h.length] at hi
    rw [List.getElem?_eq_getElem hi]
    simpa [hi] using hcount
  · -- the tasks that have a unit that was added once
    let p : ℕ → Bool := fun i => (s.manager.unitsOf i).any fun u => s.AddedOnce u
    have hp : ∀ i, p i = false → (s.manager.unitsOf i).filter (fun u => s.AddedOnce u) = [] := by
      intro i hi
      simpa [p, List.filter_eq_nil_iff] using hi
    have horder := h.order p fun i hi hpi => by
      have ht := List.getElem?_eq_getElem hi
      obtain ⟨u, hu, hadded⟩ := List.any_eq_true.1 hpi
      rw [hunits ht] at hu
      have hone := hstarts i _ ht ⟨u, hu, by simpa using hadded⟩
      rw [h.count, List.getD_eq_getElem?_getD, hone]
      rfl
    rw [TaskSystem.TicksEachOnce, TaskSystem.ticked, Scheduler.tick, allUnits_eq,
      List.filter_flatMap, List.filter_flatMap, ← flatMap_filter_eq hp s.scheduler.tasks,
      horder, flatMap_filter_eq hp]

/-- The calls of `startAll` on the components of `main`: the task manager's component comes before
that of the virtual machine, which creates its task and adds itself in its own start. -/
theorem vm32_cycle_never_ticked :
    let calls : List (TaskCall Unit) :=
      [.start, .createTask [118, 109, 51, 50, 45, 99, 121, 99, 108, 101], .add 0 ()]
    let s := run TaskSystem.apply .initialised calls
    TaskCall.start ∈ calls ∧ s.AddedOnce () ∧ s.ticked = [] ∧ ¬s.TicksEachOnce := by
  decide

end Ticks

end Vm32
