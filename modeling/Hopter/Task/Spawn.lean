-- SUMMARY: Spawning a task: what a failed call leaves behind.
import Hopter.Task.InitialStack
import Hopter.Task.TaskList

/-!
# Spawning tasks

`src/task/builder.rs`, the builder functions and `Task::drop` of `src/task/task_struct.rs`, and
`TaskQuota` and `accept_task` of `src/schedule/scheduler.rs`. The objects on the heap, the quotas and
the closures have owners. What an owner goes out of scope with is dropped, but a raw pointer owns
nothing. `κ` is the type of the closures that are given to a builder; the entry closure of a breathing
task consists of three of them.
-/

namespace Hopter.Task

open Interrupt (TaskCtxt)
open Unwind (StackConfig)

-- ---------------------------------------------------------------------------
-- The heap
-- ---------------------------------------------------------------------------

/-- The objects on the heap that belong to a task. -/
inductive Object (κ : Type) where
  | boxedClosure (entry : List κ)
  | arcClosure (entry : List κ)
  | stackCtrlBlock
  | stacklet (size : Nat)
  | task

/-- The live objects. -/
abbrev Live (κ : Type) := List (Nat × Object κ)

/-- What spawning uses of the configuration and of its environment. -/
structure SpawnConfig (A : Interrupt.Arch) (κ : Type) where
  /-- `MAX_TASK_NUMBER`. -/
  maxTaskNumber : Nat
  /-- `TASK_PRIORITY_LEVELS`. -/
  taskPriorityLevels : BitVec 8
  /-- `DEFAULT_TASK_PRIORITY`. -/
  defaultTaskPriority : BitVec 8
  /-- `DEFAULT_TASK_ID`. -/
  defaultTaskId : BitVec 8
  default_lt : defaultTaskPriority < taskPriorityLevels
  /-- The size of a closure type. A closure of size zero needs no memory. -/
  closureSize : List κ → Nat
  /-- The address of a new object, and `0` when there is no memory. -/
  alloc : Live κ → Object κ → Nat
  alloc_fresh : ∀ live o, alloc live o ≠ 0 → ∀ o', (alloc live o, o') ∉ live
  taskEntry : Reg
  restartableTaskEntry : Reg
  svcDestroyCurrentTask : Reg

/-- The fields of a task that are set before it runs. A task holds a quota. -/
structure SpawnedTask (A : Interrupt.Arch) where
  ctxt : TaskCtxt A
  /-- `0` is the null pointer. -/
  initialStklet : Nat
  stackConfig : StackConfig
  id : BitVec 8
  isIdle : Bool
  state : TaskState
  concurrentRestartable : Bool
  /-- The address of the closure. -/
  entryClosure : Option Nat
  scb : Option Nat
  priority : TaskPriority

/-- The system, as far as spawning is concerned. -/
structure System (A : Interrupt.Arch) (κ : Type) where
  /-- `EXIST_TASK_NUM`. -/
  existTaskNum : Nat
  readyLinkedList : List (SpawnedTask A)
  insertBuffer : List (SpawnedTask A)
  /-- The ready queue is under contention. -/
  contended : Bool
  live : Live κ
  mem : Mem
  /-- History: the closures that were dropped. -/
  dropped : List κ

variable {A : Interrupt.Arch} {κ : Type}

namespace System

/-- A new object. When there is no memory, the call does not return. -/
def allocate (k : SpawnConfig A κ) (s : System A κ) (o : Object κ) : Option (System A κ × Nat) :=
  let addr := k.alloc s.live o
  if addr = 0 then none else some ({ s with live := (addr, o) :: s.live }, addr)

def dealloc (s : System A κ) (addr : Nat) : System A κ :=
  { s with live := s.live.filter fun p => p.1 ≠ addr }

def dropClosures (s : System A κ) (cs : List κ) : System A κ := { s with dropped := s.dropped ++ cs }

/-- The only `Arc` of an entry closure is dropped. -/
def dropArc (s : System A κ) (addr : Nat) : System A κ :=
  match s.live.lookup addr with
  | some (.arcClosure entry) => (s.dropClosures entry).dealloc addr
  | _ => s

-- ---------------------------------------------------------------------------
-- Quotas and the ready queue
-- ---------------------------------------------------------------------------

/-- `request_task_quota`, without contention on the counter. -/
def requestTaskQuota (k : SpawnConfig A κ) (s : System A κ) : Option (System A κ) :=
  if s.existTaskNum < k.maxTaskNumber then some { s with existTaskNum := s.existTaskNum + 1 } else none

/-- `TaskQuota::drop`. -/
def dropQuota (s : System A κ) : System A κ := { s with existTaskNum := s.existTaskNum - 1 }

/-- `accept_task`. -/
def acceptTask (k : SpawnConfig A κ) (s : System A κ) (t : SpawnedTask A) : Option (System A κ) :=
  if s.contended then
    if s.insertBuffer.length < k.maxTaskNumber then some { s with insertBuffer := s.insertBuffer ++ [t] } else none
  else some { s with readyLinkedList := s.readyLinkedList ++ [{ t with state := .ready }] }

end System

-- ---------------------------------------------------------------------------
-- The task struct
-- ---------------------------------------------------------------------------

/-- `Task::new`. -/
def SpawnedTask.new (k : SpawnConfig A κ) (isIdle : Bool) : SpawnedTask A where
  ctxt := defaultCtxt A
  initialStklet := 0
  stackConfig := .dynamic none none
  id := 0
  isIdle := isIdle
  state := .initializing
  concurrentRestartable := false
  entryClosure := none
  scb := none
  priority := .intrinsic (k.taskPriorityLevels - 1).toNat

/-- `Task::drop`, and then the fields of the task. -/
def System.dropTask (s : System A κ) (t : SpawnedTask A) : System A κ :=
  let s := if t.initialStklet = 0 then s else s.dealloc t.initialStklet
  let s := s.dropQuota
  let s := match t.entryClosure with
    | some addr => s.dropArc addr
    | none => s
  match t.scb with
  | some addr => s.dealloc addr
  | none => s

/-- The stack control block: only a dynamic stack has one. -/
def createScb (k : SpawnConfig A κ) (s : System A κ) (t : SpawnedTask A) :
    StackConfig → Option (System A κ × Option Nat)
  | .static _ => some (s, t.scb)
  | .dynamic _ _ => (s.allocate k .stackCtrlBlock).map fun (s, addr) => (s, some addr)

/-- `initialize_common`. -/
def initializeCommon (k : SpawnConfig A κ) (s : System A κ) (t : SpawnedTask A) (id : BitVec 8)
    (entryClosurePtr entryTrampoline : Reg) (config : StackConfig) (priority : BitVec 8) :
    Option (System A κ × SpawnedTask A × Except TaskBuildError Unit) :=
  if k.taskPriorityLevels ≤ priority then some (s, t, .error .priorityNotAllowed)
  else do
    let (s, scb) ← createScb k s t config
    let r ← initializeStack A (fun size => k.alloc s.live (.stacklet size)) s.mem
      ⟨entryTrampoline, entryClosurePtr, k.svcDestroyCurrentTask⟩ t.isIdle config
    some ({ s with
        mem := r.mem
        live := (r.initialStklet, .stacklet (stackAllocSize config + overheadSizeOf A)) :: s.live },
      { t with
        scb := scb
        initialStklet := r.initialStklet
        stackConfig := config
        ctxt := r.ctxt
        id := id
        state := .ready
        priority := .intrinsic priority.toNat },
      .ok ())

/-- `Box::new` and `Box::into_raw`: the pointer to the closure. -/
def boxIntoRaw (k : SpawnConfig A κ) (s : System A κ) (entry : List κ) : Option (System A κ × Nat) :=
  if k.closureSize entry = 0 then some (s, 1) else s.allocate k (.boxedClosure entry)

/-- `initialize`. The pointer to the closure owns nothing. -/
def initializeTask (k : SpawnConfig A κ) (s : System A κ) (t : SpawnedTask A) (id : BitVec 8) (entry : List κ)
    (config : StackConfig) (priority : BitVec 8) :
    Option (System A κ × SpawnedTask A × Except TaskBuildError Unit) := do
  let (s, closurePtr) ← boxIntoRaw k s entry
  initializeCommon k s t id (BitVec.ofNat 32 closurePtr) k.taskEntry config priority

/-- `initialize_restartable`. The task owns the closure. -/
def initializeRestartable (k : SpawnConfig A κ) (s : System A κ) (t : SpawnedTask A) (id : BitVec 8)
    (entry : List κ) (config : StackConfig) (priority : BitVec 8) (allowConcurrentRestart : Bool) :
    Option (System A κ × SpawnedTask A × Except TaskBuildError Unit) := do
  let (s, addr) ← s.allocate k (.arcClosure entry)
  let t := { t with entryClosure := some addr, concurrentRestartable := allowConcurrentRestart }
  -- The closure is behind the two counters of the `Arc`.
  initializeCommon k s t id (BitVec.ofNat 32 (addr + 8)) k.restartableTaskEntry config priority

/-- The functions that spawn a task. -/
inductive Variant where
  | spawn
  | spawnRestartable
  | spawnRestartableNoConcur

/-- The call in `Task::build`, `build_restartable` or `build_restartable_no_concur`. -/
def initializeVariant (k : SpawnConfig A κ) (s : System A κ) (t : SpawnedTask A) (id : BitVec 8) (entry : List κ)
    (config : StackConfig) (priority : BitVec 8) :
    Variant → Option (System A κ × SpawnedTask A × Except TaskBuildError Unit)
  | .spawn => initializeTask k s t id entry config priority
  | .spawnRestartable => initializeRestartable k s t id entry config priority true
  | .spawnRestartableNoConcur => initializeRestartable k s t id entry config priority false

/-- `Task::build`, `build_restartable` and `build_restartable_no_concur`. An error drops the task. -/
def build (k : SpawnConfig A κ) (s : System A κ) (v : Variant) (id : BitVec 8) (entry : List κ)
    (config : StackConfig) (priority : BitVec 8) :
    Option (System A κ × Except TaskBuildError (SpawnedTask A)) := do
  let (s, task, res) ← initializeVariant k s (SpawnedTask.new k false) id entry config priority v
  match res with
  | .ok () => some (s, .ok task)
  | .error e => some (s.dropTask task, .error e)

-- ---------------------------------------------------------------------------
-- The builders
-- ---------------------------------------------------------------------------

structure TaskBuilder (κ : Type) where
  entryClosure : Option κ
  stack : StackSettings
  priority : Option (BitVec 8)
  id : Option (BitVec 8)

structure BreathingTaskBuilder (κ : Type) where
  init : Option κ
  wait : Option κ
  work : Option κ
  stackLimit : Option Reg
  stackInitSize : Option Reg
  priority : Option (BitVec 8)
  id : Option (BitVec 8)

/-- The end of both functions: the task is built, and the scheduler accepts it. -/
def buildAndAccept (k : SpawnConfig A κ) (s : System A κ) (v : Variant) (id : BitVec 8) (entry : List κ)
    (config : StackConfig) (priority : BitVec 8) : Option (System A κ × Except TaskBuildError Unit) := do
  let (s, res) ← build k s v id entry config priority
  match res with
  | .error e => some (s, .error e)
  | .ok newTask =>
    let (s, _) ← s.allocate k .task
    let s ← s.acceptTask k newTask
    some (s, .ok ())

/-- `define_task_spawn`. -/
def TaskBuilder.spawn (k : SpawnConfig A κ) (s : System A κ) (b : TaskBuilder κ) (v : Variant) :
    Option (System A κ × Except TaskBuildError Unit) :=
  match parseStackConfig b.stack with
  | .error e => some (s.dropClosures b.entryClosure.toList, .error e)
  | .ok config =>
    match b.entryClosure with
    | none => some (s, .error .noEntry)
    | some entry =>
      let id := b.id.getD k.defaultTaskId
      let prio := b.priority.getD k.defaultTaskPriority
      match s.requestTaskQuota k with
      | none => some (s.dropClosures [entry], .error .noMoreTask)
      | some s => buildAndAccept k s v id [entry] config prio

/-- `define_breathing_task_spawn`. -/
def BreathingTaskBuilder.spawn (k : SpawnConfig A κ) (s : System A κ) (b : BreathingTaskBuilder κ) (v : Variant) :
    Option (System A κ × Except TaskBuildError Unit) :=
  match b.init with
  | none => some (s.dropClosures (b.wait.toList ++ b.work.toList), .error .noEntry)
  | some init =>
    match b.wait with
    | none => some (s.dropClosures (init :: b.work.toList), .error .noEntry)
    | some wait =>
      match b.work with
      | none => some (s.dropClosures [wait, init], .error .noEntry)
      | some work =>
        let id := b.id.getD k.defaultTaskId
        let prio := b.priority.getD k.defaultTaskPriority
        match s.requestTaskQuota k with
        | none => some (s.dropClosures [work, wait, init], .error .noMoreTask)
        | some s =>
          buildAndAccept k s v id [init, wait, work]
            (.dynamic (b.stackInitSize.bind nonZeroUsize) (b.stackLimit.bind nonZeroUsize)) prio

-- ---------------------------------------------------------------------------
-- What the functions leave behind
-- ---------------------------------------------------------------------------

/-- Only the heap and the memory have changed. -/
structure System.Keeps (s s' : System A κ) : Prop where
  existTaskNum : s'.existTaskNum = s.existTaskNum
  readyLinkedList : s'.readyLinkedList = s.readyLinkedList
  insertBuffer : s'.insertBuffer = s.insertBuffer
  dropped : s'.dropped = s.dropped

section Outcome

variable {k : SpawnConfig A κ} {s s' : System A κ} {t t' : SpawnedTask A} {v : Variant} {id prio : BitVec 8}
  {entry : List κ} {config : StackConfig} {res : Except TaskBuildError Unit}

theorem System.Keeps.trans {s'' : System A κ} (h : s.Keeps s') (h' : s'.Keeps s'') : s.Keeps s'' where
  existTaskNum := h'.existTaskNum.trans h.existTaskNum
  readyLinkedList := h'.readyLinkedList.trans h.readyLinkedList
  insertBuffer := h'.insertBuffer.trans h.insertBuffer
  dropped := h'.dropped.trans h.dropped

theorem System.keeps_refl (s : System A κ) : s.Keeps s := ⟨rfl, rfl, rfl, rfl⟩

theorem System.allocate_eq_some {o : Object κ} {addr : Nat} (h : s.allocate k o = some (s', addr)) :
    s' = { s with live := (addr, o) :: s.live } ∧ ∀ o', (addr, o') ∉ s.live := by
  unfold System.allocate at h
  dsimp only at h
  split at h
  · cases h
  · rename_i hne
    cases h
    exact ⟨rfl, k.alloc_fresh s.live o hne⟩

theorem System.allocate_keeps {o : Object κ} {addr : Nat} (h : s.allocate k o = some (s', addr)) : s.Keeps s' := by
  obtain ⟨rfl, -⟩ := System.allocate_eq_some h
  exact ⟨rfl, rfl, rfl, rfl⟩

/-- An object that is freed again leaves the heap as it was. -/
theorem filter_live {live : Live κ} {addr : Nat} {o : Object κ} (hfresh : ∀ o', (addr, o') ∉ live) :
    ((addr, o) :: live).filter (fun p => p.1 ≠ addr) = live := by
  rw [List.filter_cons_of_neg (by simp)]
  refine List.filter_eq_self.mpr fun p hp => decide_eq_true fun heq => ?_
  exact hfresh p.2 (by rw [← heq]; exact hp)

theorem createScb_keeps {scb : Option Nat} (h : createScb k s t config = some (s', scb)) : s.Keeps s' := by
  cases config with
  | static limit =>
    cases h
    exact s.keeps_refl
  | dynamic initial limit =>
    obtain ⟨⟨s₁, addr⟩, halloc, heq⟩ := Option.map_eq_some_iff.mp h
    cases heq
    exact System.allocate_keeps halloc

theorem boxIntoRaw_keeps {ptr : Nat} (h : boxIntoRaw k s entry = some (s', ptr)) : s.Keeps s' := by
  unfold boxIntoRaw at h
  split at h
  · cases h
    exact s.keeps_refl
  · exact System.allocate_keeps h

theorem initializeCommon_of_le (h : k.taskPriorityLevels ≤ prio) (ptr trampoline : Reg) :
    initializeCommon k s t id ptr trampoline config prio = some (s, t, .error .priorityNotAllowed) := by
  rw [initializeCommon, if_pos h]

theorem initializeCommon_of_lt (h : prio < k.taskPriorityLevels) {ptr trampoline : Reg}
    (hret : initializeCommon k s t id ptr trampoline config prio = some (s', t', res)) :
    s.Keeps s' ∧ res = .ok () := by
  rw [initializeCommon, if_neg (BitVec.not_le.mpr h)] at hret
  simp only [Option.bind_eq_bind, Option.bind_eq_some_iff, Prod.exists] at hret
  obtain ⟨s₁, scb, hscb, r, -, hret⟩ := hret
  cases hret
  have hkeeps := createScb_keeps hscb
  exact ⟨⟨hkeeps.existTaskNum, hkeeps.readyLinkedList, hkeeps.insertBuffer, hkeeps.dropped⟩, rfl⟩

theorem initializeVariant_of_lt (h : prio < k.taskPriorityLevels)
    (hret : initializeVariant k s t id entry config prio v = some (s', t', res)) : s.Keeps s' ∧ res = .ok () := by
  have hrestartable : ∀ b, initializeRestartable k s t id entry config prio b = some (s', t', res) →
      s.Keeps s' ∧ res = .ok () := by
    intro b hret
    simp only [initializeRestartable, Option.bind_eq_bind, Option.bind_eq_some_iff, Prod.exists] at hret
    obtain ⟨s₁, addr, halloc, hret⟩ := hret
    exact (initializeCommon_of_lt h hret).imp_left (System.allocate_keeps halloc).trans
  cases v with
  | spawn =>
    simp only [initializeVariant, initializeTask, Option.bind_eq_bind, Option.bind_eq_some_iff, Prod.exists] at hret
    obtain ⟨s₁, ptr, hbox, hret⟩ := hret
    exact (initializeCommon_of_lt h hret).imp_left (boxIntoRaw_keeps hbox).trans
  | spawnRestartable => exact hrestartable true hret
  | spawnRestartableNoConcur => exact hrestartable false hret

/-- With a priority that is allowed, a task is built. -/
theorem build_of_lt (h : prio < k.taskPriorityLevels) {res : Except TaskBuildError (SpawnedTask A)}
    (hret : build k s v id entry config prio = some (s', res)) : s.Keeps s' ∧ ∃ t, res = .ok t := by
  simp only [build, Option.bind_eq_bind, Option.bind_eq_some_iff, Prod.exists] at hret
  obtain ⟨s₁, t, r, hinit, hret⟩ := hret
  obtain ⟨hkeeps, rfl⟩ := initializeVariant_of_lt h hinit
  cases hret
  exact ⟨hkeeps, t, rfl⟩

/-- The closure of a task that is not restartable is behind a raw pointer, and stays there. -/
theorem build_of_le_spawn (h : k.taskPriorityLevels ≤ prio) {res : Except TaskBuildError (SpawnedTask A)}
    (hret : build k s .spawn id entry config prio = some (s', res)) :
    s'.dropped = s.dropped ∧ res = .error .priorityNotAllowed := by
  simp only [build, initializeVariant, initializeTask, initializeCommon_of_le h, Option.bind_eq_bind,
    Option.bind_eq_some_iff, Prod.exists] at hret
  obtain ⟨s₁, t, r, ⟨s₂, ptr, hbox, hinit⟩, hret⟩ := hret
  cases hinit
  cases hret
  exact ⟨(boxIntoRaw_keeps hbox).dropped, rfl⟩

/-- A restartable task drops its closure. -/
theorem build_of_le_restartable (h : k.taskPriorityLevels ≤ prio) (hv : v ≠ .spawn)
    {res : Except TaskBuildError (SpawnedTask A)} (hret : build k s v id entry config prio = some (s', res)) :
    s' = s.dropQuota.dropClosures entry ∧ res = .error .priorityNotAllowed := by
  have hrestartable : ∀ b, (∃ s₁ t r, initializeRestartable k s (SpawnedTask.new k false) id entry config prio b =
      some (s₁, t, r) ∧ (match r with
        | .ok () => some (s₁, .ok t)
        | .error e => some (s₁.dropTask t, .error e)) = some (s', res)) →
      s' = s.dropQuota.dropClosures entry ∧ res = .error .priorityNotAllowed := by
    rintro b ⟨s₁, t, r, hinit, hret⟩
    simp only [initializeRestartable, initializeCommon_of_le h, Option.bind_eq_bind, Option.bind_eq_some_iff,
      Prod.exists] at hinit
    obtain ⟨s₂, addr, halloc, hinit⟩ := hinit
    obtain ⟨rfl, hfresh⟩ := System.allocate_eq_some halloc
    cases hinit
    cases hret
    refine ⟨?_, rfl⟩
    have hlookup : List.lookup addr ((addr, Object.arcClosure entry) :: s.live) = some (.arcClosure entry) := by
      simp
    simp only [System.dropTask, SpawnedTask.new, System.dropQuota, System.dropArc, hlookup, System.dealloc,
      System.dropClosures, filter_live hfresh, if_true]
  simp only [build, Option.bind_eq_bind, Option.bind_eq_some_iff, Prod.exists] at hret
  cases v with
  | spawn => exact absurd rfl hv
  | spawnRestartable => exact hrestartable true hret
  | spawnRestartableNoConcur => exact hrestartable false hret

theorem acceptTask_eq_some (h : s.acceptTask k t = some s') :
    s'.existTaskNum = s.existTaskNum ∧
      (s'.readyLinkedList = s.readyLinkedList ++ [{ t with state := .ready }] ∧ s'.insertBuffer = s.insertBuffer ∨
        s'.readyLinkedList = s.readyLinkedList ∧ s'.insertBuffer = s.insertBuffer ++ [t]) := by
  unfold System.acceptTask at h
  split at h
  · split at h
    · cases h
      exact ⟨rfl, Or.inr ⟨rfl, rfl⟩⟩
    · cases h
  · cases h
    exact ⟨rfl, Or.inl ⟨rfl, rfl⟩⟩

/-- What a call that spawns a task promises: when it fails, the number of tasks, the ready queue and the heap
are as before and each closure has been dropped once; when it succeeds, one task has been added to the ready
queue and one more quota is held. -/
def Promised (s s' : System A κ) (closures : List κ) : Except TaskBuildError Unit → Prop
  | .error _ =>
    s'.existTaskNum = s.existTaskNum ∧ s'.readyLinkedList = s.readyLinkedList ∧ s'.insertBuffer = s.insertBuffer ∧
      s'.live = s.live ∧ s'.dropped.Perm (s.dropped ++ closures)
  | .ok () =>
    s'.existTaskNum = s.existTaskNum + 1 ∧
      ((∃ t, s'.readyLinkedList = s.readyLinkedList ++ [t]) ∧ s'.insertBuffer = s.insertBuffer ∨
        s'.readyLinkedList = s.readyLinkedList ∧ ∃ t, s'.insertBuffer = s.insertBuffer ++ [t])

/-- With a quota, the call keeps its promise unless the task is not restartable and its priority is not
allowed. -/
theorem buildAndAccept_promised_iff {closures : List κ} (hperm : entry.Perm closures) (hne : entry ≠ [])
    (hret : buildAndAccept k { s with existTaskNum := s.existTaskNum + 1 } v id entry config prio = some (s', res)) :
    Promised s s' closures res ↔ ¬ (v = .spawn ∧ k.taskPriorityLevels ≤ prio) := by
  simp only [buildAndAccept, Option.bind_eq_bind, Option.bind_eq_some_iff, Prod.exists] at hret
  obtain ⟨s₁, r, hbuild, hret⟩ := hret
  by_cases hprio : k.taskPriorityLevels ≤ prio
  · by_cases hv : v = .spawn
    · subst hv
      obtain ⟨hdropped, rfl⟩ := build_of_le_spawn hprio hbuild
      cases hret
      refine iff_of_false (fun hpromised => ?_) fun h => h ⟨rfl, hprio⟩
      have hlen := hpromised.2.2.2.2.length_eq
      rw [hdropped, List.length_append, ← hperm.length_eq] at hlen
      have := List.length_pos_iff.mpr hne
      simp only at hlen
      omega
    · obtain ⟨rfl, rfl⟩ := build_of_le_restartable hprio hv hbuild
      cases hret
      exact iff_of_true ⟨rfl, rfl, rfl, rfl, hperm.append_left _⟩ fun h => hv h.1
  · obtain ⟨hkeeps, t, rfl⟩ := build_of_lt (BitVec.not_le.mp hprio) hbuild
    simp only [Option.bind_eq_some_iff, Prod.exists] at hret
    obtain ⟨s₂, addr, halloc, s₃, haccept, hret⟩ := hret
    cases hret
    have hkeeps := hkeeps.trans (System.allocate_keeps halloc)
    obtain ⟨hexist, hqueue⟩ := acceptTask_eq_some haccept
    refine iff_of_true ⟨hexist.trans hkeeps.existTaskNum, ?_⟩ fun h => hprio h.2
    rw [hkeeps.readyLinkedList, hkeeps.insertBuffer] at hqueue
    exact hqueue.imp (fun h => ⟨⟨_, h.1⟩, h.2⟩) fun h => ⟨h.1, _, h.2⟩

end Outcome

-- ---------------------------------------------------------------------------
-- The two builders
-- ---------------------------------------------------------------------------

/-- A builder of either kind. -/
inductive Builder (κ : Type) where
  | task (b : TaskBuilder κ)
  | breathing (b : BreathingTaskBuilder κ)

namespace Builder

def spawn (k : SpawnConfig A κ) (s : System A κ) (v : Variant) :
    Builder κ → Option (System A κ × Except TaskBuildError Unit)
  | .task b => b.spawn k s v
  | .breathing b => b.spawn k s v

/-- The closures that have been set. -/
def closures : Builder κ → List κ
  | .task b => b.entryClosure.toList
  | .breathing b => b.init.toList ++ b.wait.toList ++ b.work.toList

def priority (k : SpawnConfig A κ) : Builder κ → BitVec 8
  | .task b => b.priority.getD k.defaultTaskPriority
  | .breathing b => b.priority.getD k.defaultTaskPriority

/-- The stack is configured, and all closures are set. -/
def Complete : Builder κ → Prop
  | .task b => (parseStackConfig b.stack).isOk = true ∧ b.entryClosure.isSome = true
  | .breathing b => b.init.isSome = true ∧ b.wait.isSome = true ∧ b.work.isSome = true

/-- A task that is not restartable gets as far as the check of its priority, and fails there. -/
def Leaks (k : SpawnConfig A κ) (s : System A κ) (v : Variant) (b : Builder κ) : Prop :=
  v = .spawn ∧ b.Complete ∧ s.existTaskNum < k.maxTaskNumber ∧ k.taskPriorityLevels ≤ b.priority k

variable {k : SpawnConfig A κ} {s s' : System A κ} {v : Variant} {res : Except TaskBuildError Unit}

/-- An error before the quota is there. -/
theorem promised_error (s : System A κ) {cs closures : List κ} (h : cs.Perm closures) (e : TaskBuildError) :
    Promised s (s.dropClosures cs) closures (.error e) :=
  ⟨rfl, rfl, rfl, rfl, h.append_left _⟩

theorem task_promised_iff {b : TaskBuilder κ} (hret : b.spawn k s v = some (s', res)) :
    Promised s s' (task b).closures res ↔ ¬ (task b).Leaks k s v := by
  unfold TaskBuilder.spawn at hret
  cases hparse : parseStackConfig b.stack with
  | error e =>
    rw [hparse] at hret
    cases hret
    refine iff_of_true (promised_error s (List.Perm.refl _) e) fun h => ?_
    have := h.2.1.1
    rw [hparse] at this
    cases this
  | ok config =>
    rw [hparse] at hret
    cases hentry : b.entryClosure with
    | none =>
      rw [hentry] at hret
      cases hret
      refine iff_of_true ⟨rfl, rfl, rfl, rfl, ?_⟩ fun h => ?_
      · simp [closures, hentry]
      · have := h.2.1.2
        rw [hentry] at this
        cases this
    | some entry =>
      have hclosures : closures (task b) = [entry] := by simp [closures, hentry]
      rw [hentry] at hret
      dsimp only at hret
      by_cases hquota : s.existTaskNum < k.maxTaskNumber
      · rw [System.requestTaskQuota, if_pos hquota] at hret
        have hcomplete : (task b).Complete := ⟨by rw [hparse]; rfl, by rw [hentry]; rfl⟩
        rw [hclosures, buildAndAccept_promised_iff (List.Perm.refl [entry]) (List.cons_ne_nil _ _) hret]
        exact not_congr ⟨fun h => ⟨h.1, hcomplete, hquota, h.2⟩, fun h => ⟨h.1, h.2.2.2⟩⟩
      · rw [System.requestTaskQuota, if_neg hquota] at hret
        cases hret
        rw [hclosures]
        exact iff_of_true (promised_error s (List.Perm.refl [entry]) _) fun h => hquota h.2.2.1

theorem breathing_promised_iff {b : BreathingTaskBuilder κ} (hret : b.spawn k s v = some (s', res)) :
    Promised s s' (breathing b).closures res ↔ ¬ (breathing b).Leaks k s v := by
  unfold BreathingTaskBuilder.spawn at hret
  -- A closure is missing.
  have hmissing : ∀ {cs : List κ}, cs.Perm (breathing b).closures →
      (b.init = none ∨ b.wait = none ∨ b.work = none) →
      some (s.dropClosures cs, Except.error TaskBuildError.noEntry) = some (s', res) →
      (Promised s s' (breathing b).closures res ↔ ¬ (breathing b).Leaks k s v) := by
    intro cs hperm hnone hret
    cases hret
    refine iff_of_true (promised_error s hperm _) fun h => ?_
    obtain ⟨hinit, hwait, hwork⟩ := h.2.1
    rcases hnone with h | h | h
    · rw [h] at hinit
      cases hinit
    · rw [h] at hwait
      cases hwait
    · rw [h] at hwork
      cases hwork
  cases hinit : b.init with
  | none =>
    rw [hinit] at hret
    exact hmissing (by simp [closures, hinit]) (Or.inl hinit) hret
  | some init =>
    cases hwait : b.wait with
    | none =>
      rw [hinit, hwait] at hret
      exact hmissing (by simp [closures, hinit, hwait]) (Or.inr (Or.inl hwait)) hret
    | some wait =>
      cases hwork : b.work with
      | none =>
        rw [hinit, hwait, hwork] at hret
        exact hmissing (by simpa [closures, hinit, hwait, hwork] using List.Perm.swap ..)
          (Or.inr (Or.inr hwork)) hret
      | some work =>
        have hclosures : closures (breathing b) = [init, wait, work] := by simp [closures, hinit, hwait, hwork]
        rw [hinit, hwait, hwork] at hret
        dsimp only at hret
        by_cases hquota : s.existTaskNum < k.maxTaskNumber
        · rw [System.requestTaskQuota, if_pos hquota] at hret
          have hcomplete : (breathing b).Complete := ⟨by rw [hinit]; rfl, by rw [hwait]; rfl, by rw [hwork]; rfl⟩
          rw [hclosures, buildAndAccept_promised_iff (List.Perm.refl _) (List.cons_ne_nil _ _) hret]
          exact not_congr ⟨fun h => ⟨h.1, hcomplete, hquota, h.2⟩, fun h => ⟨h.1, h.2.2.2⟩⟩
        · rw [System.requestTaskQuota, if_neg hquota] at hret
          cases hret
          rw [hclosures]
          refine iff_of_true (promised_error s ?_ _) fun h => hquota h.2.2.1
          exact List.reverse_perm [init, wait, work]

/-- A call that spawns a task keeps its promise exactly when it does not fail at the priority of a task that is
not restartable. -/
theorem spawn_promised_iff {b : Builder κ} (hret : b.spawn k s v = some (s', res)) :
    Promised s s' b.closures res ↔ ¬ b.Leaks k s v := by
  cases b with
  | task b => exact task_promised_iff hret
  | breathing b => exact breathing_promised_iff hret

/-- A configuration with eight priorities, and memory that is never used twice. -/
def exampleConfig : SpawnConfig .armv7em Nat where
  maxTaskNumber := 4
  taskPriorityLevels := 8
  defaultTaskPriority := 4
  defaultTaskId := 0
  default_lt := by decide
  closureSize _ := 4
  alloc live _ := live.foldr (fun p addr => max (p.1 + 2048) addr) 0x20001000
  alloc_fresh := by
    intro live o _ o' hmem
    have hlt : ∀ l : Live Nat, ∀ p ∈ l, p.1 < l.foldr (fun p addr => max (p.1 + 2048) addr) 0x20001000 := by
      intro l
      induction l with
      | nil => simp
      | cons q l ih =>
        intro p hp
        rw [List.foldr_cons]
        rcases List.mem_cons.mp hp with rfl | hp
        · omega
        · have := ih p hp
          omega
    exact Nat.lt_irrefl _ (hlt _ _ hmem)
  taskEntry := 0x8000
  restartableTaskEntry := 0x9000
  svcDestroyCurrentTask := 0xa000

/-- Two tasks exist before. -/
def exampleSystem : System .armv7em Nat where
  existTaskNum := 2
  readyLinkedList := []
  insertBuffer := []
  contended := false
  live := []
  mem := fun _ => 0
  dropped := []

/-- A restartable task with a priority that does not exist. -/
theorem spawn_promised_restartable : ∃ s', spawn exampleConfig exampleSystem .spawnRestartable
      (.task ⟨some 7, ⟨none, none, true⟩, some 8, none⟩) = some (s', .error .priorityNotAllowed) ∧
    Promised exampleSystem s' [7] (.error .priorityNotAllowed) := by
  have hret : spawn exampleConfig exampleSystem .spawnRestartable (.task ⟨some 7, ⟨none, none, true⟩, some 8, none⟩) =
    some (_, .error .priorityNotAllowed) := rfl
  exact ⟨_, hret, (spawn_promised_iff hret).mpr fun h => nomatch h.1⟩

/-- A task with such a priority that is not restartable: the closure is not dropped, and it stays on the heap. -/
theorem spawn_leaks : ∃ s', spawn exampleConfig exampleSystem .spawn
      (.task ⟨some 7, ⟨none, none, true⟩, some 8, none⟩) = some (s', .error .priorityNotAllowed) ∧
    s'.dropped = [] ∧ s'.live = [(0x20001000, .boxedClosure [7])] ∧
    ¬ Promised exampleSystem s' [7] (.error .priorityNotAllowed) :=
  ⟨_, rfl, rfl, rfl, fun h => List.cons_ne_nil _ _ h.2.2.2.1⟩

end Builder

end Hopter.Task
