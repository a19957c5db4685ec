-- SUMMARY: Mutexes with priority inheritance on the machine, for arbitrary client code.
import Hopter.Exec.Grounded
import Hopter.Task.Priority
import Hopter.Task.TaskList

/-!
# Mutexes

`src/sync/mutex.rs` on top of `src/sync/wait_queue.rs` and the spin lock of
`src/sync/spin_lock.rs`. `try_lock` takes the spin lock with the scheduler suspended and
records the owner. `lock` lends its priority to the owner and waits in the queue until
`try_lock` succeeds. The drop of a guard forgets the owner, releases the spin lock, and
notifies the queue, with the scheduler running in between.

The owner field is protected by a spin lock of its own, which is held with the scheduler
suspended and which no interrupt handler takes. So an access to the owner is one atomic
step, and so is a suspension of the scheduler around such a step only.

The guards that are alive are recorded. Handlers may notify the queues. `notify_cnt` is a
natural number: fewer than `2^32` notifications come while a wait queue is held.
-/

namespace Hopter.Sync.Mutex

open Exec Hopter.Task

/-- What a task does. `M` names the mutexes, `κ` what to do after a call, and `γ` the atomic
steps of the client itself. -/
inductive Call (M κ γ : Type) where
  | lock (m : M) (k : κ)
  | tryLock (m : M) (k : κ)
  /-- The guard of the mutex is dropped. -/
  | drop (m : M)
  /-- `change_current_priority`. -/
  | changePriority (prio : Nat)
  | own (g : γ)
  | yield

/-- What an interrupt handler does. -/
inductive HandlerCall (M η : Type) where
  | notify (m : M)
  | own (h : η)

/-- A client with the state `ρ`: the code after a call that returned a guard and after one that
did not, its own steps, and its interrupt handlers. -/
structure Client (M κ γ η ρ ι ξ : Type) where
  some : κ → List (Call M κ γ)
  none : κ → List (Call M κ γ)
  exec : ρ → γ → ξ → Option (ρ × List (Call M κ γ))
  handler : ι → List (HandlerCall M η)
  interrupt : ρ → η → ξ → Option (ρ × List (HandlerCall M η))

/-- What an access to a wait queue is for. -/
inductive QueueOp where
  | waitUntil
  /-- `notify_one_allow_isr`, from the drop of a guard or from a handler. -/
  | notifyOne (drop : Bool)

inductive Body (M κ γ η τ : Type) where
  | own (g : γ)
  | interrupt (h : η)
  /-- `raw_spin.is_locked()` in `try_lock`. -/
  | tryLock (m : M)
  /-- `raw_spin.try_lock()`. -/
  | rawTryLock (m : M)
  /-- The current task, which cannot change since the scheduler is suspended, becomes the owner. -/
  | setOwner (m : M) (t : τ)
  /-- `try_lock` has returned to the client. -/
  | afterTryLock (m : M) (k : κ)
  /-- The fast path of `lock` has returned. -/
  | afterFastPath (m : M) (k : κ)
  /-- The head of the loop of `wait_until`. -/
  | waitUntil (m : M) (k : κ)
  /-- The list is locked, and `condition` is called. -/
  | condition (m : M)
  /-- `condition` has returned to the task. -/
  | block (m : M) (t : τ)
  /-- The result of the closure of `wait_until` is there. -/
  | afterWait (m : M) (k : κ)
  /-- The first statement of `drop`. -/
  | takeOwner (m : M)
  /-- The inner guard is dropped. -/
  | unlock (m : M) (t : τ)
  | popNotify (m : M) (drop : Bool)
  | addNotify (m : M) (drop : Bool)
  | swapNotifyCnt (m : M)
  | popNotified (m : M) (cnt : Nat)
  | changePriority (prio : Nat)
  | pickNext

structure Choice (τ ξ : Type) where
  next : τ
  urgent : Bool
  client : ξ

/-- The life of a guard. -/
inductive Stage where
  /-- The spin lock is taken, and the owner is not yet recorded. -/
  | acquiring
  | held
  /-- The owner is forgotten, and the spin lock not yet released. -/
  | releasing
  deriving DecidableEq

structure Content (M ρ τ : Type) where
  /-- The spin lock. -/
  locked : M → Bool
  owner : M → Option τ
  queue : M → List τ
  notifyCnt : M → Nat
  priority : τ → TaskPriority
  /-- The link of the task is in a list. -/
  linked : τ → Bool
  /-- What the last `try_lock` returned to the task. -/
  result : M → τ → Option Bool
  cur : τ
  /-- `PENDING_CTXT_SWITCH`. -/
  switchDue : Bool
  client : ρ
  /-- History: the guards that are alive. -/
  guards : M → List (τ × Stage)
  /-- History: the tasks that were popped from the queue and have yet to run `try_lock` again. -/
  awake : M → List τ
  /-- History: the releases of the spin lock whose notification is not done. -/
  unapplied : M → Nat
  /-- History: the tasks that have lent their priority to the present owner. -/
  lent : M → τ → Bool

section Steps

variable {M κ γ η ρ τ ι ξ : Type} [DecidableEq M] [DecidableEq τ]

def Call.code : Call M κ γ → List (Code M QueueOp (Body M κ γ η τ))
  | .lock m k => [.body (.tryLock m), .body (.afterFastPath m k)]
  | .tryLock m k => [.body (.tryLock m), .body (.afterTryLock m k)]
  | .drop m => [.body (.takeOwner m)]
  | .changePriority prio => [.body (.changePriority prio), .yield]
  | .own g => [.body (.own g)]
  | .yield => [.yield]

def codes (calls : List (Call M κ γ)) : List (Code M QueueOp (Body M κ γ η τ)) :=
  calls.flatMap Call.code

def HandlerCall.code : HandlerCall M η → Code M QueueOp (Body M κ γ η τ)
  | .notify m => .access m false (.notifyOne false)
  | .own h => .body (.interrupt h)

def handlerCodes (calls : List (HandlerCall M η)) : List (Code M QueueOp (Body M κ γ η τ)) :=
  calls.map HandlerCall.code

namespace Content

def setResult (c : Content M ρ τ) (m : M) (t : τ) (r : Option Bool) : Content M ρ τ :=
  { c with result := Function.update c.result m (Function.update (c.result m) t r) }

/-- The current task has run `try_lock` again. -/
def retried (c : Content M ρ τ) (m : M) : Content M ρ τ :=
  { c with awake := Function.update c.awake m ((c.awake m).erase c.cur) }

/-- The spin lock is not free. -/
def failed (c : Content M ρ τ) (m : M) : Content M ρ τ := (c.retried m).setResult m c.cur (some false)

/-- The current task takes the spin lock. -/
def acquired (c : Content M ρ τ) (m : M) : Content M ρ τ :=
  { c.retried m with
    locked := Function.update c.locked m true
    guards := Function.update c.guards m ((c.cur, .acquiring) :: c.guards m) }

/-- The owner of the mutex changes. -/
def setOwner (c : Content M ρ τ) (m : M) (o : Option τ) : Content M ρ τ :=
  { c with
    owner := Function.update c.owner m o
    lent := Function.update c.lent m fun _ => false }

/-- A guard goes from one stage to the next. -/
def setStage (c : Content M ρ τ) (m : M) (t : τ) (stage stage' : Stage) : Content M ρ τ :=
  { c with guards := Function.update c.guards m ((t, stage') :: (c.guards m).erase (t, stage)) }

/-- `owner.ceil_priority_from(cur_task)`. -/
def inherit (c : Content M ρ τ) (m : M) : Content M ρ τ :=
  match c.owner m with
  | some owner =>
    { c with
      priority := Function.update c.priority owner ((c.priority owner).ceilPriorityFrom (c.priority c.cur))
      lent := Function.update c.lent m (Function.update (c.lent m) c.cur true) }
  | none => c

/-- The owner is taken out of its field, and gets its intrinsic priority back. -/
def takeOwner (c : Content M ρ τ) (m : M) : Content M ρ τ :=
  match c.owner m with
  | some owner =>
    { c.setOwner m none with
      priority := Function.update c.priority owner (c.priority owner).restoreIntrinsic }
  | none => c

/-- The spin lock is released. -/
def release (c : Content M ρ τ) (m : M) (t : τ) : Content M ρ τ :=
  { c with
    locked := Function.update c.locked m false
    guards := Function.update c.guards m ((c.guards m).erase (t, .releasing))
    unapplied := Function.update c.unapplied m (c.unapplied m + 1) }

/-- A notification of the queue is done; when it is from a drop, it is no longer owed. -/
def apply (c : Content M ρ τ) (m : M) (drop : Bool) : Content M ρ τ :=
  { c with unapplied := Function.update c.unapplied m (c.unapplied m - drop.toNat) }

/-- The task `t` is popped from the queue, which leaves `rest`, and goes to the scheduler. -/
def wake (c : Content M ρ τ) (m : M) (t : τ) (rest : List τ) (urgent : Bool) : Content M ρ τ :=
  { c with
    queue := Function.update c.queue m rest
    linked := Function.update c.linked t false
    awake := Function.update c.awake m (t :: c.awake m)
    switchDue := c.switchDue || urgent }

/-- The task goes into the queue. -/
def enqueue (c : Content M ρ τ) (m : M) (t : τ) : Content M ρ τ :=
  { c with
    queue := Function.update c.queue m (c.queue m ++ [t])
    linked := Function.update c.linked t true }

/-- `pop_highest_priority`. -/
def pop (c : Content M ρ τ) (m : M) : Option (τ × List τ) :=
  popHighestPriority (fun t => (c.priority t).effectivePriority) (c.queue m)

end Content

/-- One atomic step. `none` is a panic, or a choice that is not possible. -/
def exec (C : Client M κ γ η ρ ι ξ) (c : Content M ρ τ) (b : Body M κ γ η τ) (x : Choice τ ξ) :
    Option (Content M ρ τ × List (Code M QueueOp (Body M κ γ η τ))) :=
  match b with
  | .own g => (C.exec c.client g x.client).map fun (r, calls) => ({ c with client := r }, codes calls)
  | .interrupt h => (C.interrupt c.client h x.client).map fun (r, calls) =>
    ({ c with client := r }, handlerCodes calls)
  | .tryLock m =>
    if c.locked m = true then some (c.failed m, []) else some (c, [.suspended (.rawTryLock m)])
  | .rawTryLock m =>
    if c.locked m = true then some (c.failed m, [])
    else some (c.acquired m, [.body (.setOwner m c.cur)])
  | .setOwner m t => some
    (((c.setOwner m (some t)).setStage m t .acquiring .held).setResult m t (some true), [])
  | .afterTryLock m k =>
    (c.result m c.cur).map fun r => (c, if r = true then codes (C.some k) else codes (C.none k))
  | .afterFastPath m k => (c.result m c.cur).map fun r =>
    if r = true then (c, codes (C.some k)) else (c.inherit m, [.body (.waitUntil m k)])
  | .waitUntil m k => some (c, [.mayBlock, .access m true .waitUntil, .body (.afterWait m k)])
  | .condition m => some (c.setResult m c.cur none, [.body (.tryLock m), .body (.block m c.cur)])
  | .block m t => (c.result m t).bind fun r =>
    if r = true then some (c, []) else if c.linked t = true then none else some (c.enqueue m t, [])
  | .afterWait m k => (c.result m c.cur).map fun r =>
    (c, if r = true then codes (C.some k) else [.yield, .body (.waitUntil m k)])
  | .takeOwner m =>
    if (c.cur, .held) ∈ c.guards m then
      some ((c.takeOwner m).setStage m c.cur .held .releasing, [.body (.unlock m c.cur)])
    else none
  | .unlock m t => some (c.release m t, [.access m false (.notifyOne true)])
  | .popNotify m drop =>
    match c.pop m with
    | some (t, rest) => some ((c.apply m drop).wake m t rest x.urgent, [])
    | none => some (c.apply m drop, [])
  | .addNotify m _ => some
    ({ c with notifyCnt := Function.update c.notifyCnt m (c.notifyCnt m + 1) }, [])
  | .swapNotifyCnt m => some
    ({ c with notifyCnt := Function.update c.notifyCnt m 0 }, [.body (.popNotified m (c.notifyCnt m))])
  | .popNotified _ 0 => some (c, [])
  | .popNotified m (n + 1) =>
    match c.pop m with
    | some (t, rest) => some (c.wake m t rest x.urgent, [.body (.popNotified m n)])
    | none => some (c, [])
  | .changePriority prio => some
    ({ c with priority := Function.update c.priority c.cur ((c.priority c.cur).changeIntrinsic prio) }, [])
  | .pickNext =>
    if c.linked x.next = true then none
    else some ({ c with cur := x.next, switchDue := false }, [])

/-- The mutexes and a client as a kernel object of the machine. -/
def spec (C : Client M κ γ η ρ ι ξ) :
    Spec M QueueOp (Body M κ γ η τ) (Content M ρ τ) τ ι (Choice τ ξ) where
  full m
    | .waitUntil => [.body (.condition m)]
    | .notifyOne drop => [.body (.popNotify m drop)]
  pend m
    -- `wait_until` uses `must_with_full_access`
    | .waitUntil => []
    | .notifyOne drop => [.body (.addNotify m drop)]
  pended m := [.body (.swapNotifyCnt m)]
  exec := exec C
  wantsSwitch c := c.switchDue
  handler i := handlerCodes (C.handler i)
  pickNext := [.body .pickNext]
  cur c := c.cur

/-- The content at start. -/
def start (cur : τ) (priority : τ → TaskPriority) (client : ρ) : Content M ρ τ where
  locked _ := false
  owner _ := none
  queue _ := []
  notifyCnt _ := 0
  priority := priority
  linked _ := false
  result _ _ := none
  cur := cur
  switchDue := false
  client := client
  guards _ := []
  awake _ := []
  unapplied _ := 0
  lent _ _ := false

end Steps

end Hopter.Sync.Mutex
