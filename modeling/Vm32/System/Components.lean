/-
# The components of the embedding system

`ComponentManager` initialises and starts its components in the order in which they were added,
and gives up at the first that fails.  They find each other by the services of the `SystemBus`, so
an order is good only if every service is registered before it is looked up.  The virtual machine
is one component among the others; how often its cycle runs depends on the order, too.
-/
import Mathlib.Logic.Function.Iterate
import Vm32.System.Tasks

namespace Vm32

namespace Embedded

/-! ### The classes -/

/-- The interfaces and classes by which services are registered. -/
inductive Service
  | systemLog | logger | eventManager | scheduler | taskManager
deriving DecidableEq, Repr

/-- The classes of components; the one of the virtual machine has `bus_` set or not. -/
inductive ComponentKind
  | eventManager | logger | scheduler | taskManager
  | vm32 (busSet : Bool)
deriving DecidableEq, Repr

/-- A component, with the number of the object. -/
structure Component where
  id : ℕ
  kind : ComponentKind
deriving DecidableEq, Repr

/-- The functions of `vm_api.c` on the global virtual machine: `vm32_init` with the programs loaded,
`vm32_execute_cycle` and `vm32_request_stop`. -/
structure VmApi (V : Type*) where
  create : V
  executeCycle : V → V
  requestStop : V → V

/-- `TaskManager`, with the scheduler it is bound to. -/
structure TaskManager where
  tasks : List (Task ℕ)
  scheduler : Option ℕ
deriving DecidableEq

/-- The objects of the system, by their numbers, and `g_vm`.  A scheduler points to tasks of task
managers, and the units of a task are components. -/
structure System (V : Type*) where
  services : Service → Option ℕ
  managers : ℕ → TaskManager
  schedulers : ℕ → List (ℕ × ℕ)
  gVm : Option V

section Classes

variable {V : Type*} (api : VmApi V)

namespace System

/-- `SystemBus::registerService`. -/
def registerService (s : System V) (service : Service) (object : ℕ) : System V :=
  { s with services := Function.update s.services service (some object) }

/-- `TaskManager::bindScheduler`. -/
def bindScheduler (s : System V) (manager scheduler : ℕ) : System V :=
  { s with
    managers := Function.update s.managers manager
      { s.managers manager with scheduler := some scheduler } }

/-- `TaskManager::createTask` and `Task::add` of the new task. -/
def addTask (s : System V) (manager : ℕ) (name : List UInt8) (unit : ℕ) : System V :=
  { s with
    managers := Function.update s.managers manager
      { s.managers manager with
        tasks := (s.managers manager).tasks ++ [(⟨name, []⟩ : Task ℕ).add unit] } }

/-- `TaskManager::registerToScheduler`. -/
def registerToScheduler (s : System V) (manager : ℕ) : System V :=
  match (s.managers manager).scheduler with
  | none => s
  | some k =>
    { s with
      schedulers := Function.update s.schedulers k
        (s.schedulers k ++ (List.range (s.managers manager).tasks.length).map fun i =>
          (manager, i)) }

end System

/-- `VM32Engine::init`; whether the programs can be loaded is of no concern to it. -/
def VmApi.engineInit (s : System V) : System V × Bool :=
  match s.gVm with
  | some _ => (s, false)
  | none => ({ s with gVm := some api.create }, true)

/-- The name of the task of the virtual machine, `vm32-cycle`. -/
def vm32Cycle : List UInt8 := [118, 109, 51, 50, 45, 99, 121, 99, 108, 101]

namespace Component

/-- The `init` methods. -/
def init (c : Component) (s : System V) : System V × Bool :=
  match c.kind with
  | .eventManager => (s.registerService .eventManager c.id, true)
  | .logger =>
    match s.services .systemLog with
    | none => (s, false)
    | some _ => (s.registerService .logger c.id, true)
  | .scheduler => (s.registerService .scheduler c.id, true)
  | .taskManager =>
    match s.services .scheduler with
    | none => (s, false)
    | some k => ((s.bindScheduler c.id k).registerService .taskManager c.id, true)
  | .vm32 busSet => if !busSet then (s, false) else api.engineInit s

/-- The `start` methods. -/
def start (c : Component) (s : System V) : System V × Bool :=
  match c.kind with
  | .taskManager => (s.registerToScheduler c.id, true)
  | .vm32 busSet =>
    if !busSet then (s, false)
    else
      match s.services .taskManager with
      | none => (s, false)
      | some m => (s.addTask m vm32Cycle c.id, true)
  | _ => (s, true)

/-- The `stop` methods; `VM32Component::stop` requests the stop and shuts the machine down. -/
def stop (c : Component) (s : System V) : System V :=
  match c.kind with
  | .vm32 _ => { s with gVm := (s.gVm.map api.requestStop).bind fun _ => none }
  | _ => s

end Component

/-- The loops of `ComponentManager::initAll` and `ComponentManager::startAll`. -/
def untilFailure (f : Component → System V → System V × Bool) :
    List Component → System V → System V × Bool
  | [], s => (s, true)
  | c :: cs, s =>
    match f c s with
    | (s, false) => (s, false)
    | (s, true) => untilFailure f cs s

/-- `ComponentManager::initAll`. -/
def initAll : List Component → System V → System V × Bool := untilFailure (Component.init api)

/-- `ComponentManager::startAll`. -/
def startAll : List Component → System V → System V × Bool := untilFailure Component.start

/-- `ComponentManager::stopAll`. -/
def stopAll (cs : List Component) (s : System V) : System V :=
  cs.reverse.foldl (fun s c => c.stop api s) s

/-- `VM32Component::tick`. -/
def System.tickVm (s : System V) : System V := { s with gVm := s.gVm.map api.executeCycle }

/-- The components that `Scheduler::tick` ticks, in order. -/
def System.ticked (s : System V) (k : ℕ) : List ℕ :=
  (s.schedulers k).flatMap fun task => ((s.managers task.1).tasks[task.2]?.map Task.tick).getD []

/-- `Scheduler::tick`; all units are components of the virtual machine. -/
def System.tick (s : System V) (k : ℕ) : System V :=
  (s.ticked k).foldl (fun s _ => s.tickVm api) s

/-- The system as `main` makes it, before a component is initialised. -/
def System.empty (log : Option ℕ) : System V where
  services := Function.update (fun _ => none) .systemLog log
  managers := fun _ => ⟨[], none⟩
  schedulers := fun _ => []
  gVm := none

end Classes

/-! ### Orders of components -/

/-- The component is a virtual machine. -/
def ComponentKind.isVm : ComponentKind → Bool
  | vm32 _ => true
  | _ => false

/-- The last component of a kind. -/
def lastOf (kind : ComponentKind) (cs : List Component) : Option ℕ :=
  ((cs.filter fun c => c.kind = kind).getLast?).map Component.id

/-- A component behind the components `pre` can be initialised: the services it looks up are
registered, and there is no other virtual machine. -/
def Component.Ready (log : Option ℕ) (pre : List Component) (c : Component) : Prop :=
  match c.kind with
  | .logger => log ≠ none
  | .taskManager => ∃ d ∈ pre, d.kind = .scheduler
  | .vm32 busSet => busSet = true ∧ ∀ d ∈ pre, d.kind.isVm = false
  | _ => True

section Orders

variable {V : Type*} {api : VmApi V} {f : Component → System V → System V × Bool} {s : System V}
  {log : Option ℕ} {pre cs : List Component} {c : Component} {kind : ComponentKind}

lemma lastOf_concat :
    lastOf kind (cs ++ [c]) = if c.kind = kind then some c.id else lastOf kind cs := by
  by_cases hc : c.kind = kind <;> simp [lastOf, List.filter_append, hc]

lemma lastOf_eq_none_iff : lastOf kind cs = none ↔ ∀ c ∈ cs, c.kind ≠ kind := by
  simp [lastOf]

lemma lastOf_of_split {post : List Component} (hc : c.kind = kind)
    (hpost : ∀ d ∈ post, d.kind ≠ kind) : lastOf kind (pre ++ c :: post) = some c.id := by
  have hnone : post.filter (fun d => d.kind = kind) = [] := by
    simpa [List.filter_eq_nil_iff] using hpost
  rw [lastOf, List.filter_append, List.filter_cons_of_pos (by simpa using hc), hnone]
  simp

lemma untilFailure_concat :
    untilFailure f (cs ++ [c]) s =
      if (untilFailure f cs s).2 then f c (untilFailure f cs s).1 else untilFailure f cs s := by
  induction cs generalizing s with
  | nil =>
    simp only [List.nil_append, untilFailure, if_true]
    cases hc : f c s with
    | mk s' ok => cases ok <;> rfl
  | cons d cs ih =>
    rw [List.cons_append, untilFailure, untilFailure]
    cases hd : f d s with
    | mk s' ok =>
      cases ok with
      | false => rfl
      | true => exact ih

/-- The system after the components `cs` have been initialised. -/
structure Initialised (api : VmApi V) (log : Option ℕ) (cs : List Component) (s : System V) :
    Prop where
  systemLog : s.services .systemLog = log
  scheduler : s.services .scheduler = lastOf .scheduler cs
  taskManager : s.services .taskManager = lastOf .taskManager cs
  tasks : ∀ m, (s.managers m).tasks = []
  bound : ∀ pre m post, cs = pre ++ m :: post → m.kind = .taskManager →
    (s.managers m.id).scheduler = lastOf .scheduler pre
  schedulers : ∀ k, s.schedulers k = []
  gVm : s.gVm = if cs.any (·.kind.isVm) then some api.create else none

lemma initialised_empty : Initialised api log [] (System.empty log) where
  systemLog := by simp [System.empty]
  scheduler := rfl
  taskManager := rfl
  tasks _ := rfl
  bound := by simp
  schedulers _ := rfl
  gVm := by simp [System.empty]

/-- A component is initialised if it is ready. -/
lemma Initialised.init_ok_iff (h : Initialised api log pre s) :
    (c.init api s).2 = true ↔ c.Ready log pre := by
  obtain ⟨id, kind⟩ := c
  cases kind with
  | eventManager => exact iff_of_true rfl trivial
  | scheduler => exact iff_of_true rfl trivial
  | logger =>
    simp only [Component.init, Component.Ready, h.systemLog]
    cases log <;> simp
  | taskManager =>
    simp only [Component.init, Component.Ready, h.scheduler]
    cases hlast : lastOf .scheduler pre with
    | none => simpa using lastOf_eq_none_iff.1 hlast
    | some k =>
      refine iff_of_true rfl ?_
      by_contra hnot
      push Not at hnot
      rw [lastOf_eq_none_iff.2 hnot] at hlast
      cases hlast
  | vm32 busSet =>
    simp only [Component.init, Component.Ready, VmApi.engineInit, h.gVm]
    cases busSet with
    | false => simp
    | true =>
      cases hvm : pre.any (·.kind.isVm) with
      | true =>
        obtain ⟨d, hd, hisVm⟩ := List.any_eq_true.1 hvm
        refine iff_of_false (by simp) ?_
        rintro ⟨-, hall⟩
        rw [hall d hd] at hisVm
        cases hisVm
      | false => simpa using hvm

/-- A property of all places in a list, of a list with one more element. -/
lemma forall_split_concat {α : Type*} {P : List α → α → Prop} {as : List α} {a : α} :
    (∀ pre b post, as ++ [a] = pre ++ b :: post → P pre b) ↔
      (∀ pre b post, as = pre ++ b :: post → P pre b) ∧ P as a := by
  constructor
  · intro h
    refine ⟨?_, h as a [] rfl⟩
    intro pre b post hsplit
    exact h pre b (post ++ [a]) (by rw [hsplit]; simp)
  · rintro ⟨hold, hlast⟩ pre b post hsplit
    rcases List.eq_nil_or_concat post with rfl | ⟨post', d, rfl⟩
    · obtain ⟨rfl, hb⟩ := List.append_inj' hsplit rfl
      obtain rfl := List.singleton_inj.1 hb
      exact hlast
    · rw [List.concat_eq_append, ← List.cons_append, ← List.append_assoc] at hsplit
      obtain ⟨rfl, -⟩ := List.append_inj' hsplit rfl
      exact hold pre b post' rfl

/-- A component that is ready adds its service, and nothing else changes for the others. -/
lemma Initialised.next (h : Initialised api log pre s) (hready : c.Ready log pre)
    (hid : c.id ∉ pre.map Component.id) : Initialised api log (pre ++ [c]) (c.init api s).1 := by
  have hnew : ∀ d ∈ pre, d.id ≠ c.id := by
    intro d hd heq
    exact hid (heq ▸ List.mem_map_of_mem hd)
  obtain ⟨id, kind⟩ := c
  cases kind with
  | eventManager | scheduler =>
    refine ⟨?_, ?_, ?_, h.tasks, forall_split_concat.2 ⟨h.bound, nofun⟩,
      h.schedulers, ?_⟩
    · simp [Component.init, System.registerService, h.systemLog]
    · simp [Component.init, System.registerService, h.scheduler, lastOf_concat]
    · simp [Component.init, System.registerService, h.taskManager, lastOf_concat]
    · simp [Component.init, System.registerService, h.gVm, ComponentKind.isVm]
  | logger =>
    obtain ⟨l, rfl⟩ := Option.ne_none_iff_exists'.1 hready
    simp only [Component.init, h.systemLog]
    refine ⟨?_, ?_, ?_, h.tasks, forall_split_concat.2 ⟨h.bound, nofun⟩,
      h.schedulers, ?_⟩
    · simp [System.registerService, h.systemLog]
    · simp [System.registerService, h.scheduler, lastOf_concat]
    · simp [System.registerService, h.taskManager, lastOf_concat]
    · simp [System.registerService, h.gVm, ComponentKind.isVm]
  | taskManager =>
    cases hlast : lastOf .scheduler pre with
    | none =>
      obtain ⟨d, hd, hkind⟩ := hready
      exact absurd hkind (lastOf_eq_none_iff.1 hlast d hd)
    | some k =>
      simp only [Component.init, h.scheduler, hlast]
      refine ⟨?_, ?_, ?_, ?_, forall_split_concat.2 ⟨?_, ?_⟩, h.schedulers, ?_⟩
      · simp [System.registerService, System.bindScheduler, h.systemLog]
      · simp [System.registerService, System.bindScheduler, h.scheduler, lastOf_concat]
      · simp [System.registerService, System.bindScheduler, lastOf_concat]
      · intro m
        by_cases hm : m = id
        · simp [System.registerService, System.bindScheduler, hm, h.tasks]
        · simp [System.registerService, System.bindScheduler, hm, h.tasks]
      · intro pre' m post hpre hkind
        have hne : m.id ≠ id := hnew m (by rw [hpre]; simp)
        simpa [System.registerService, System.bindScheduler, hne] using
          h.bound pre' m post hpre hkind
      · intro _
        simp [System.registerService, System.bindScheduler, hlast]
      · simp [System.registerService, System.bindScheduler, h.gVm, ComponentKind.isVm]
  | vm32 busSet =>
    obtain ⟨rfl, hnone⟩ := hready
    have hgVm : s.gVm = none := by
      rw [h.gVm, if_neg]
      simpa using hnone
    simp only [Component.init, VmApi.engineInit, hgVm, Bool.not_true, Bool.false_eq_true, if_false]
    refine ⟨h.systemLog, ?_, ?_, h.tasks, forall_split_concat.2 ⟨h.bound, nofun⟩,
      h.schedulers, ?_⟩
    · simp [h.scheduler, lastOf_concat]
    · simp [h.taskManager, lastOf_concat]
    · simp [ComponentKind.isVm]

/-- All components are initialised exactly if each is ready behind those before it. -/
lemma initAll_spec (hids : (cs.map Component.id).Nodup) :
    ((initAll api cs (System.empty log)).2 = true ↔
        ∀ pre c post, cs = pre ++ c :: post → c.Ready log pre) ∧
      ((initAll api cs (System.empty log)).2 = true →
        Initialised api log cs (initAll api cs (System.empty log)).1) := by
  induction cs using List.reverseRecOn with
  | nil => exact ⟨by simp [initAll, untilFailure], fun _ => initialised_empty⟩
  | append_singleton cs c ih =>
    rw [List.map_append, List.nodup_append] at hids
    obtain ⟨hold, -, hdisjoint⟩ := hids
    obtain ⟨hiff, hinit⟩ := ih hold
    have hid : c.id ∉ cs.map Component.id := fun hmem => hdisjoint _ hmem _ (by simp) rfl
    have hconcat : initAll api (cs ++ [c]) (System.empty log) =
        if (initAll api cs (System.empty log)).2 then
          c.init api (initAll api cs (System.empty log)).1
        else initAll api cs (System.empty log) := untilFailure_concat
    rw [forall_split_concat, ← hiff, hconcat]
    by_cases hok : (initAll api cs (System.empty log)).2 = true
    · have hnow := hinit hok
      rw [if_pos hok, hnow.init_ok_iff, and_iff_right hok]
      exact ⟨Iff.rfl, fun hready => hnow.next hready hid⟩
    · rw [if_neg hok]
      exact ⟨iff_of_false hok fun h => hok h.1, fun h => absurd h hok⟩

end Orders

/-! ### Starting -/

section Starting

variable {V : Type*} {api : VmApi V} {s s₀ : System V} {log : Option ℕ}
  {cs pre post done rest : List Component} {m c : Component}

/-- The system while its components are started, with those before `pre ++ m :: post` up to `done`
started: every virtual machine has its task with the last task manager, and what that had when it
was started itself is with its scheduler. -/
structure Started (pre : List Component) (m : Component) (s₀ : System V) (done : List Component)
    (s : System V) : Prop where
  taskManager : s.services .taskManager = some m.id
  tasks : (s.managers m.id).tasks =
    (done.filter (·.kind.isVm)).map fun c => ⟨vm32Cycle, [c.id]⟩
  noTasks : ∀ i ≠ m.id, (s.managers i).tasks = []
  bound : (s.managers m.id).scheduler = lastOf .scheduler pre
  schedulers : ∀ k, s.schedulers k =
    if m ∈ done ∧ lastOf .scheduler pre = some k
    then (List.range (pre.filter (·.kind.isVm)).length).map fun i => (m.id, i) else []
  gVm : s.gVm = s₀.gVm

/-- After the initialisation no component is started. -/
lemma Initialised.started (h : Initialised api log (pre ++ m :: post) s₀)
    (hm : m.kind = .taskManager) (hlast : ∀ c ∈ post, c.kind ≠ .taskManager) :
    Started pre m s₀ [] s₀ where
  taskManager := h.taskManager.trans (lastOf_of_split hm hlast)
  tasks := by simp [h.tasks]
  noTasks i _ := h.tasks i
  bound := h.bound pre m post rfl hm
  schedulers k := by simp [h.schedulers]
  gVm := rfl

/-- A component is started if it is no virtual machine without a bus. -/
lemma Started.start_ok_iff (h : Started pre m s₀ done s) :
    (c.start s).2 = true ↔ c.kind ≠ .vm32 false := by
  obtain ⟨id, kind⟩ := c
  cases kind with
  | vm32 busSet => cases busSet <;> simp [Component.start, h.taskManager]
  | _ => simp [Component.start]

/-- A virtual machine gets its task. -/
lemma Started.next_vm (h : Started pre m s₀ done s) (hm : m.kind = .taskManager)
    (hvm : c.kind.isVm = true) (hc : c.kind ≠ .vm32 false) :
    Started pre m s₀ (done ++ [c]) (c.start s).1 := by
  obtain ⟨id, kind⟩ := c
  have hstart : Component.start ⟨id, kind⟩ s = (s.addTask m.id vm32Cycle id, true) := by
    cases kind with
    | vm32 busSet => cases busSet <;> simp_all [Component.start, h.taskManager]
    | _ => cases hvm
  have hne : m ≠ ⟨id, kind⟩ := by
    rintro rfl
    subst hm
    cases hvm
  rw [hstart]
  refine ⟨h.taskManager, ?_, ?_, ?_, ?_, h.gVm⟩
  · simp [System.addTask, h.tasks, List.filter_append, hvm, Task.add]
  · intro i hi
    simpa [System.addTask, hi] using h.noTasks i hi
  · simpa [System.addTask] using h.bound
  · simpa [System.addTask, hne] using h.schedulers

/-- The last task manager hands over the tasks that it has by then. -/
lemma Started.next_last (h : Started pre m s₀ pre s) (hm : m.kind = .taskManager)
    (hnot : m ∉ pre) : Started pre m s₀ (pre ++ [m]) (m.start s).1 := by
  obtain ⟨id, kind⟩ := m
  subst hm
  cases hbound : lastOf .scheduler pre with
  | none =>
    have hstart : (Component.start ⟨id, .taskManager⟩ s).1 = s := by
      simp [Component.start, System.registerToScheduler, h.bound, hbound]
    rw [hstart]
    refine ⟨h.taskManager, ?_, h.noTasks, h.bound, ?_, h.gVm⟩
    · simpa [List.filter_append, ComponentKind.isVm] using h.tasks
    · simpa [hbound] using h.schedulers
  | some k =>
    have hempty : ∀ k, s.schedulers k = [] := by
      intro k
      rw [h.schedulers, if_neg]
      exact fun hmem => hnot hmem.1
    simp only [Component.start, System.registerToScheduler, h.bound, hbound, h.tasks,
      List.length_map, hempty, List.nil_append]
    refine ⟨h.taskManager, ?_, h.noTasks, h.bound, ?_, h.gVm⟩
    · simpa [List.filter_append, ComponentKind.isVm] using h.tasks
    · intro k'
      by_cases hk : k' = k
      · simp [hk, hbound]
      · simp [hk, hbound, hempty, Ne.symm hk]

/-- Another task manager has no tasks. -/
lemma Started.next_manager (h : Started pre m s₀ done s) (hc : c.kind = .taskManager)
    (hne : c.id ≠ m.id) : Started pre m s₀ (done ++ [c]) (c.start s).1 := by
  obtain ⟨id, kind⟩ := c
  subst hc
  have hstart : ∀ k, (Component.start ⟨id, .taskManager⟩ s).1.schedulers k = s.schedulers k := by
    intro k
    simp only [Component.start, System.registerToScheduler, h.noTasks id hne]
    split
    · rfl
    · rename_i k' _
      by_cases hk : k = k' <;> simp [hk]
  have hkeep : (Component.start ⟨id, .taskManager⟩ s).1.services = s.services ∧
      (Component.start ⟨id, .taskManager⟩ s).1.managers = s.managers ∧
      (Component.start ⟨id, .taskManager⟩ s).1.gVm = s.gVm := by
    simp only [Component.start, System.registerToScheduler]
    split <;> exact ⟨rfl, rfl, rfl⟩
  have hnot : m ≠ ⟨id, .taskManager⟩ := fun heq => hne (by rw [heq])
  refine ⟨?_, ?_, ?_, ?_, ?_, hkeep.2.2.trans h.gVm⟩
  · rw [hkeep.1]
    exact h.taskManager
  · rw [hkeep.2.1]
    simpa [List.filter_append, ComponentKind.isVm] using h.tasks
  · rw [hkeep.2.1]
    exact h.noTasks
  · rw [hkeep.2.1]
    exact h.bound
  · intro k
    rw [hstart k, h.schedulers k]
    simp [hnot]

/-- The other components do nothing. -/
lemma Started.next_idle (h : Started pre m s₀ done s) (hm : m.kind = .taskManager)
    (hvm : c.kind.isVm ≠ true) (hc : c.kind ≠ .taskManager) :
    Started pre m s₀ (done ++ [c]) (c.start s).1 := by
  obtain ⟨id, kind⟩ := c
  have hstart : Component.start ⟨id, kind⟩ s = (s, true) := by
    cases kind with
    | vm32 busSet => exact absurd rfl hvm
    | taskManager => exact absurd rfl hc
    | _ => rfl
  have hne : m ≠ ⟨id, kind⟩ := fun heq => hc (by rw [← hm, heq])
  rw [hstart]
  refine ⟨h.taskManager, ?_, h.noTasks, h.bound, ?_, h.gVm⟩
  · simpa [List.filter_append, hvm] using h.tasks
  · simpa [hne] using h.schedulers

/-- Starting one more component. -/
lemma Started.next (h : Started pre m s₀ done s)
    (hids : ((pre ++ m :: post).map Component.id).Nodup)
    (hsplit : pre ++ m :: post = done ++ c :: rest) (hm : m.kind = .taskManager)
    (hc : c.kind ≠ .vm32 false) : Started pre m s₀ (done ++ [c]) (c.start s).1 := by
  by_cases hvm : c.kind.isVm = true
  · exact h.next_vm hm hvm hc
  by_cases htask : c.kind = .taskManager
  · by_cases hcm : c.id = m.id
    · -- components are told apart by their numbers, so this is the place of `m`
      have hin : c ∈ pre ++ m :: post := by rw [hsplit]; simp
      obtain rfl : c = m := List.inj_on_of_nodup_map hids hin (by simp) hcm
      have hnodup : (done ++ c :: rest).Nodup := hsplit ▸ List.Nodup.of_map _ hids
      rw [List.nodup_append, List.nodup_cons] at hnodup
      obtain ⟨-, ⟨hrest, -⟩, hdisjoint⟩ := hnodup
      have hdone : c ∉ done := fun hd => hdisjoint _ hd _ (by simp) rfl
      obtain ⟨rfl, -, -⟩ := (List.append_cons_inj_of_notMem hdone hrest).1 hsplit.symm
      exact h.next_last htask hdone
    · exact h.next_manager htask hcm
  · exact h.next_idle hm hvm htask

/-- Starting all components that are left. -/
lemma Started.startAll (h : Started pre m s₀ done s)
    (hids : ((pre ++ m :: post).map Component.id).Nodup)
    (hsplit : pre ++ m :: post = done ++ rest) (hm : m.kind = .taskManager)
    (hrest : ∀ c ∈ rest, c.kind ≠ .vm32 false) :
    Started pre m s₀ (pre ++ m :: post) (startAll rest s).1 := by
  induction rest generalizing done s with
  | nil =>
    rw [hsplit, List.append_nil]
    exact h
  | cons c rest ih =>
    have hc : c.kind ≠ .vm32 false := hrest c List.mem_cons_self
    have hok := h.start_ok_iff.2 hc
    have hnext := h.next hids hsplit hm hc
    have hall := ih hnext (by simpa using hsplit) fun d hd => hrest d (List.mem_cons_of_mem _ hd)
    have hrun : Embedded.startAll (c :: rest) s = Embedded.startAll rest (c.start s).1 := by
      show untilFailure Component.start (c :: rest) s = untilFailure Component.start rest _
      rw [untilFailure]
      cases hs : c.start s with
      | mk s' ok =>
        rw [hs] at hok
        cases hok
        rfl
    rw [hrun]
    exact hall

/-- The `start` methods register no services. -/
lemma Component.start_services : (c.start s).1.services = s.services := by
  obtain ⟨id, kind⟩ := c
  cases kind with
  | taskManager =>
    simp only [Component.start, System.registerToScheduler]
    split <;> rfl
  | vm32 busSet =>
    simp only [Component.start]
    split
    · rfl
    · split <;> rfl
  | _ => rfl

/-- A component starts unless it is a virtual machine without a bus or a task manager. -/
lemma Component.start_ok_iff :
    (c.start s).2 = true ↔
      c.kind ≠ .vm32 false ∧ (c.kind.isVm = true → s.services .taskManager ≠ none) := by
  obtain ⟨id, kind⟩ := c
  cases kind with
  | vm32 busSet =>
    simp only [Component.start]
    cases busSet <;> cases s.services .taskManager <;> simp [ComponentKind.isVm]
  | _ => simp [Component.start, ComponentKind.isVm]

lemma startAll_ok_iff :
    (startAll cs s).2 = true ↔ ∀ c ∈ cs, c.kind ≠ .vm32 false ∧
      (c.kind.isVm = true → s.services .taskManager ≠ none) := by
  induction cs generalizing s with
  | nil => simp [startAll, untilFailure]
  | cons c cs ih =>
    rw [List.forall_mem_cons, ← Component.start_ok_iff]
    have hservices : (c.start s).1.services = s.services := Component.start_services
    rw [startAll, untilFailure]
    cases hc : c.start s with
    | mk s' ok =>
      rw [hc] at hservices
      cases ok with
      | false => simp
      | true =>
        have hrest := ih (s := s')
        rw [hservices] at hrest
        simpa [startAll] using hrest

/-- **Which orders come up.**  With components of different objects, `initAll` and `startAll` both
succeed exactly if a logger comes with a system log, every task manager behind a scheduler, every
virtual machine has its bus and is the only one, and there is a task manager if there is a virtual
machine — which may be before or behind it. -/
theorem bring_up_iff {V : Type*} (api : VmApi V) (log : Option ℕ) (cs : List Component)
    (hids : (cs.map Component.id).Nodup) :
    ((initAll api cs (System.empty log)).2 = true ∧
        (startAll cs (initAll api cs (System.empty log)).1).2 = true) ↔
      (∀ pre c post, cs = pre ++ c :: post → c.Ready log pre) ∧
        ((∃ c ∈ cs, c.kind.isVm = true) → ∃ c ∈ cs, c.kind = .taskManager) := by
  obtain ⟨hiff, hinit⟩ := @initAll_spec _ api log _ hids
  rw [← hiff]
  refine and_congr_right fun hok => ?_
  have hready := hiff.1 hok
  rw [startAll_ok_iff, (hinit hok).taskManager]
  constructor
  · rintro hall ⟨c, hc, hvm⟩
    by_contra hnot
    push Not at hnot
    exact (hall c hc).2 hvm (lastOf_eq_none_iff.2 hnot)
  · intro htask c hc
    obtain ⟨pre, post, rfl⟩ := List.append_of_mem hc
    refine ⟨?_, ?_⟩
    · intro hkind
      have := hready pre c post rfl
      rw [Component.Ready, hkind] at this
      exact Bool.false_ne_true this.1
    · intro hvm hnone
      obtain ⟨d, hd, hkind⟩ := htask ⟨c, hc, hvm⟩
      exact lastOf_eq_none_iff.1 hnone d hd hkind

/-- A machine without a system log and one with all its components: a virtual machine may stand
before the task manager. -/
theorem bring_up_iff_vmFirst :
    (startAll [⟨0, .scheduler⟩, ⟨1, .vm32 true⟩, ⟨2, .taskManager⟩]
      (initAll (⟨0, (· + 1), id⟩ : VmApi ℕ)
        [⟨0, .scheduler⟩, ⟨1, .vm32 true⟩, ⟨2, .taskManager⟩] (System.empty none)).1).2 = true := by
  refine ((bring_up_iff (⟨0, (· + 1), id⟩ : VmApi ℕ) none
    [⟨0, .scheduler⟩, ⟨1, .vm32 true⟩, ⟨2, .taskManager⟩] (by decide)).2 ⟨?_, ?_⟩).2
  · intro pre c post hsplit
    rcases pre with _ | ⟨a, _ | ⟨b, _ | ⟨d, pre⟩⟩⟩
    · obtain ⟨rfl, -⟩ := List.cons.inj hsplit
      exact trivial
    · simp only [List.cons_append, List.nil_append, List.cons.injEq] at hsplit
      obtain ⟨rfl, rfl, -⟩ := hsplit
      simp [Component.Ready, ComponentKind.isVm]
    · simp only [List.cons_append, List.nil_append, List.cons.injEq] at hsplit
      obtain ⟨rfl, rfl, rfl, -⟩ := hsplit
      simp [Component.Ready]
    · simp at hsplit
  · intro _
    exact ⟨⟨2, .taskManager⟩, by simp, rfl⟩

end Starting

/-! ### Ticks -/

section Ticks

variable {V : Type*} {api : VmApi V} {s s₀ : System V} {log : Option ℕ}
  {cs pre post : List Component} {m c : Component} {k : ℕ}

/-- Ticking units changes the virtual machine only. -/
lemma foldl_tickVm (units : List ℕ) :
    units.foldl (fun s _ => s.tickVm api) s =
      { s with gVm := s.gVm.map (api.executeCycle^[units.length]) } := by
  induction units generalizing s with
  | nil => simp
  | cons u units ih =>
    rw [List.foldl_cons, ih]
    simp [System.tickVm, Function.comp_def]

/-- A tick of a scheduler is a cycle for every unit ticked. -/
lemma System.tick_eq : s.tick api k =
    { s with gVm := s.gVm.map (api.executeCycle^[(s.ticked k).length]) } :=
  foldl_tickVm (s.ticked k)

/-- Ticks of schedulers, in any order. -/
lemma foldl_tick (ks : List ℕ) :
    ks.foldl (System.tick api) s =
      { s with
        gVm := s.gVm.map (api.executeCycle^[(ks.map fun k => (s.ticked k).length).sum]) } := by
  induction ks generalizing s with
  | nil => simp
  | cons k ks ih =>
    have hticked : ∀ j, (s.tick api k).ticked j = s.ticked j := fun j => by
      rw [System.tick_eq]
      rfl
    rw [List.foldl_cons, ih]
    simp only [hticked, List.map_cons, List.sum_cons]
    rw [System.tick_eq]
    simp only [Option.map_map, System.mk.injEq, true_and]
    congr 1
    rw [Nat.add_comm, Function.iterate_add]

/-- What a scheduler ticks when all components are started. -/
lemma Started.length_ticked (h : Started pre m s₀ (pre ++ m :: post) s) :
    (s.ticked k).length =
      if lastOf .scheduler pre = some k then (pre.filter (·.kind.isVm)).length else 0 := by
  rw [System.ticked, h.schedulers k]
  have hin : m ∈ pre ++ m :: post := by simp
  by_cases hk : lastOf .scheduler pre = some k
  · rw [if_pos ⟨hin, hk⟩, if_pos hk, List.flatMap_map, List.length_flatMap]
    have hone : ∀ i ∈ List.range (pre.filter (·.kind.isVm)).length,
        (((s.managers m.id).tasks[i]?.map Task.tick).getD []).length = 1 := by
      intro i hi
      have hlt : i < (((pre ++ m :: post).filter (·.kind.isVm)).map
          fun c => (⟨vm32Cycle, [c.id]⟩ : Task ℕ)).length := by
        rw [List.mem_range] at hi
        rw [List.length_map, List.filter_append, List.length_append]
        omega
      rw [h.tasks, List.getElem?_eq_getElem hlt, List.getElem_map]
      rfl
    rw [List.map_congr_left hone]
    simp
  · rw [if_neg (fun hboth => hk hboth.2), if_neg hk]
    rfl

lemma sum_ite_count (ks : List ℕ) (n : ℕ) :
    (ks.map fun j => if some k = some j then n else 0).sum = ks.count k * n := by
  induction ks with
  | nil => simp
  | cons j ks ih =>
    rw [List.map_cons, List.sum_cons, ih, List.count_cons]
    by_cases hj : k = j
    · simp [hj, Nat.add_mul, Nat.add_comm]
    · simp [hj, Ne.symm hj]

/-- There is at most one virtual machine. -/
lemma length_filter_isVm
    (hready : ∀ pre c post, cs = pre ++ c :: post → c.Ready log pre) :
    (cs.filter (·.kind.isVm)).length = if cs.any (·.kind.isVm) then 1 else 0 := by
  induction cs using List.reverseRecOn with
  | nil => rfl
  | append_singleton cs c ih =>
    obtain ⟨hold, hc⟩ := forall_split_concat.1 hready
    rw [List.filter_append, List.length_append, ih hold]
    cases hvm : c.kind.isVm with
    | false => simp [hvm]
    | true =>
      have hnone : cs.any (·.kind.isVm) = false := by
        obtain ⟨id, kind⟩ := c
        cases kind with
        | vm32 busSet =>
          rw [List.any_eq_false]
          intro d hd
          simp [hc.2 d hd]
        | _ => cases hvm
      simp [hnone, hvm]

/-- Stopping all components leaves no virtual machine behind. -/
lemma stopAll_gVm (hvm : cs.any (·.kind.isVm) = false → s.gVm = none) :
    (stopAll api cs s).gVm = none := by
  have hstop : ∀ (c : Component) (s : System V),
      (c.stop api s).gVm = if c.kind.isVm then none else s.gVm := by
    intro c s
    obtain ⟨id, kind⟩ := c
    cases kind <;> simp [Component.stop, ComponentKind.isVm]
  rw [stopAll, List.foldl_reverse]
  induction cs with
  | nil => exact hvm rfl
  | cons c cs ih =>
    rw [List.foldr_cons, hstop]
    cases hc : c.kind.isVm with
    | true => rfl
    | false => exact ih fun hcs => hvm (by rw [List.any_cons, hc, hcs]; rfl)

end Ticks

end Embedded

end Vm32
