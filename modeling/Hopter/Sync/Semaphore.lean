-- SUMMARY: Semaphores and their wait queues on the machine, for arbitrary client code.
import Hopter.Exec.Contexts
import Hopter.Task.TaskList

/-!
# Semaphores

`src/sync/semaphore.rs` on top of `src/sync/wait_queue.rs`. A semaphore has a counter
and two condition variables, each of which is a wait queue under a soft lock. `up`
waits for a decrement and announces an increment; `down` waits for an increment and
announces a decrement. The two are the same code for two directions (`Dir`).

The atomic steps are the loads and compare-exchanges on the counters, and the steps of
the wait-queue closures. What tasks and interrupt handlers do besides calling the
semaphores is left to a `Client`. The scheduler may pick any task that is not in a wait
queue.

`notify_cnt` is a natural number here. That of the source wraps around, so the two are the same
as long as fewer than `2^32` notifications come while a wait queue is held.
-/

namespace Hopter.Sync

open Exec Hopter.Task

/-- The two condition variables of a semaphore, `cv_incremented` and `cv_decremented`. -/
inductive Side where
  | incremented
  | decremented
  deriving DecidableEq

/-- Whether the counter goes up or down. -/
inductive Dir where
  | up
  | down
  deriving DecidableEq

namespace Dir

/-- The condition variable that the operation waits for. -/
def waits : Dir → Side
  | .up => .decremented
  | .down => .incremented

/-- The condition variable that the operation notifies. -/
def signals : Dir → Side
  | .up => .incremented
  | .down => .decremented

/-- The condition of `wait_without_lock_until`. -/
def condition : Dir → (maxCount count : Nat) → Bool
  | .up, maxCount, count => count < maxCount
  | .down, _, count => 0 < count

/-- The counter is at the end of its range. -/
def exhausted : Dir → (maxCount curCnt : Nat) → Bool
  | .up, maxCount, curCnt => curCnt = maxCount
  | .down, _, curCnt => curCnt = 0

def next : Dir → Nat → Nat
  | .up, curCnt => curCnt + 1
  | .down, curCnt => curCnt - 1

end Dir

/-- The operation that waits for a condition variable. -/
def Side.waiter : Side → Dir
  | .incremented => .down
  | .decremented => .up

-- ---------------------------------------------------------------------------
-- Clients
-- ---------------------------------------------------------------------------

/-- What a client does. `S` names the semaphores, `κ` what to do after a call, and `γ` the
atomic steps of the client itself. -/
inductive Call (S κ γ : Type) where
  | up (s : S) (k : κ)
  | down (s : S) (k : κ)
  | tryUpAllowIsr (s : S) (k : κ)
  | tryDownAllowIsr (s : S) (k : κ)
  | own (g : γ)
  | yield

/-- A client with the state `ρ`: the code after a call that succeeded and after one that
returned `Err`, its own steps, and its interrupt handlers. -/
structure Client (S κ γ ρ ι ξ : Type) where
  ok : κ → List (Call S κ γ)
  err : κ → List (Call S κ γ)
  exec : ρ → γ → ξ → Option (ρ × List (Call S κ γ))
  handler : ι → List (Call S κ γ)

-- ---------------------------------------------------------------------------
-- Atomic steps
-- ---------------------------------------------------------------------------

/-- What an access to a wait queue is for. -/
inductive QueueOp where
  | waitUntil
  | notifyOne

/-- A wait queue: a semaphore and one of its condition variables. -/
abbrev Queue (S : Type) := S × Side

inductive Body (S κ γ τ : Type) where
  | own (g : γ)
  /-- The head of the loop of `up` and `down`. -/
  | wait (d : Dir) (s : S) (k : κ)
  /-- The result of the closure of `wait_until` is there. -/
  | afterWait (d : Dir) (s : S) (k : κ)
  /-- `count.load`. -/
  | load (d : Dir) (s : S) (k : κ)
  /-- `count.compare_exchange`. -/
  | exchange (d : Dir) (s : S) (curCnt : Nat) (k : κ)
  | tryLoad (d : Dir) (s : S) (k : κ)
  | tryExchange (d : Dir) (s : S) (curCnt : Nat) (k : κ)
  /-- The condition of `wait_until` is evaluated. -/
  | checkCondition (q : Queue S)
  /-- The current task, which was read with the condition, is put into the queue. -/
  | pushBack (q : Queue S) (t : τ)
  /-- `notify_one_allow_isr` with full access. -/
  | popNotify (q : Queue S)
  /-- `notify_one_allow_isr` with pend-only access: `notify_cnt.fetch_add(1)`. -/
  | addNotify (q : Queue S)
  /-- `run_pended_op`: `notify_cnt.swap(0)`. -/
  | swapNotifyCnt (q : Queue S)
  /-- The loop of `run_pended_op`. -/
  | popNotified (q : Queue S) (cnt : Nat)
  | pickNext

/-- The choices that the model leaves open: the task that is scheduled next, the
priorities at the moment, whether a task that is woken up is urgent, and the client's. -/
structure Choice (τ ξ : Type) where
  next : τ
  priority : τ → Nat
  urgent : Bool
  client : ξ

structure Content (S ρ τ : Type) where
  count : S → Nat
  queue : Queue S → List τ
  notifyCnt : Queue S → Nat
  /-- The link of the task is in a list. -/
  linked : τ → Bool
  /-- What the last closure of `wait_until` returned to the task. -/
  met : τ → Bool
  cur : τ
  /-- `PENDING_CTXT_SWITCH`. -/
  switchDue : Bool
  client : ρ
  /-- History: successful `up`s. -/
  ups : S → Nat
  /-- History: successful `down`s. -/
  downs : S → Nat
  /-- History: the tasks that were popped from a queue and have neither been put back
  nor completed their operation since. -/
  awake : Queue S → List τ
  /-- History: successful operations whose notification was not applied to the queue. -/
  unapplied : Queue S → Nat

section Steps

variable {S κ γ ρ τ ι ξ : Type} [DecidableEq S] [DecidableEq τ]

/-- `Semaphore::up`. -/
def up (s : S) (k : κ) : Code (Queue S) QueueOp (Body S κ γ τ) := .body (.wait .up s k)

/-- `Semaphore::down`. -/
def down (s : S) (k : κ) : Code (Queue S) QueueOp (Body S κ γ τ) := .body (.wait .down s k)

/-- `Semaphore::try_up_allow_isr`. -/
def tryUpAllowIsr (s : S) (k : κ) : Code (Queue S) QueueOp (Body S κ γ τ) :=
  .body (.tryLoad .up s k)

/-- `Semaphore::try_down_allow_isr`. -/
def tryDownAllowIsr (s : S) (k : κ) : Code (Queue S) QueueOp (Body S κ γ τ) :=
  .body (.tryLoad .down s k)

def Call.code : Call S κ γ → Code (Queue S) QueueOp (Body S κ γ τ)
  | .up s k => Sync.up s k
  | .down s k => Sync.down s k
  | .tryUpAllowIsr s k => Sync.tryUpAllowIsr s k
  | .tryDownAllowIsr s k => Sync.tryDownAllowIsr s k
  | .own g => .body (.own g)
  | .yield => .yield

def codes (calls : List (Call S κ γ)) : List (Code (Queue S) QueueOp (Body S κ γ τ)) :=
  calls.map Call.code

/-- `notify_one_allow_isr`. -/
def notifyOneAllowIsr (q : Queue S) : Code (Queue S) QueueOp (Body S κ γ τ) :=
  .access q false .notifyOne

namespace Content

/-- The compare-exchange has succeeded. -/
def change (c : Content S ρ τ) (d : Dir) (s : S) : Content S ρ τ :=
  { c with
    count := Function.update c.count s (d.next (c.count s))
    ups := if d = .up then Function.update c.ups s (c.ups s + 1) else c.ups
    downs := if d = .down then Function.update c.downs s (c.downs s + 1) else c.downs
    unapplied := Function.update c.unapplied (s, d.signals) (c.unapplied (s, d.signals) + 1) }

/-- The current task has completed its operation. -/
def complete (c : Content S ρ τ) (q : Queue S) : Content S ρ τ :=
  { c with awake := Function.update c.awake q ((c.awake q).erase c.cur) }

/-- `n` notifications of the queue are applied. -/
def apply (c : Content S ρ τ) (q : Queue S) (n : Nat) : Content S ρ τ :=
  { c with unapplied := Function.update c.unapplied q (c.unapplied q - n) }

/-- The task `t` is popped from the queue, which leaves `rest`, and goes to the scheduler. -/
def wake (c : Content S ρ τ) (q : Queue S) (t : τ) (rest : List τ) (urgent : Bool) :
    Content S ρ τ :=
  { c.apply q 1 with
    queue := Function.update c.queue q rest
    linked := Function.update c.linked t false
    awake := Function.update c.awake q (t :: c.awake q)
    switchDue := c.switchDue || urgent }

end Content

/-- One atomic step. `none` is a panic, or a choice that is not possible. -/
def exec (maxCount : S → Nat) (C : Client S κ γ ρ ι ξ) (c : Content S ρ τ) (b : Body S κ γ τ)
    (x : Choice τ ξ) : Option (Content S ρ τ × List (Code (Queue S) QueueOp (Body S κ γ τ))) :=
  match b with
  | .own g => (C.exec c.client g x.client).map fun (r, calls) => ({ c with client := r }, codes calls)
  | .wait d s k => some
    (c, [.mayBlock, .access (s, d.waits) true .waitUntil, .body (.afterWait d s k)])
  | .afterWait d s k => some
    (c, if c.met c.cur = true then [.body (.load d s k)] else [.yield, .body (.wait d s k)])
  | .load d s k => some
    (c, if d.exhausted (maxCount s) (c.count s) = true then [.body (.wait d s k)]
      else [.body (.exchange d s (c.count s) k)])
  | .exchange d s curCnt k =>
    if c.count s = curCnt then some
      ((c.change d s).complete (s, d.waits), notifyOneAllowIsr (s, d.signals) :: codes (C.ok k))
    else some (c, [.body (.wait d s k)])
  | .tryLoad d s k => some
    (c, if d.exhausted (maxCount s) (c.count s) = true then codes (C.err k)
      else [.body (.tryExchange d s (c.count s) k)])
  | .tryExchange d s curCnt k =>
    if c.count s = curCnt then some
      (c.change d s, notifyOneAllowIsr (s, d.signals) :: codes (C.ok k))
    else some (c, [.body (.tryLoad d s k)])
  | .checkCondition q =>
    if q.2.waiter.condition (maxCount q.1) (c.count q.1) = true then some
      ({ c with met := Function.update c.met c.cur true }, [])
    else some
      ({ c with met := Function.update c.met c.cur false }, [.body (.pushBack q c.cur)])
  | .pushBack q t =>
    if c.linked t = true then none
    else some
      ({ c with
        queue := Function.update c.queue q (c.queue q ++ [t])
        linked := Function.update c.linked t true
        awake := Function.update c.awake q ((c.awake q).erase t) }, [])
  | .popNotify q =>
    match popHighestPriority x.priority (c.queue q) with
    | some (t, rest) => some (c.wake q t rest x.urgent, [])
    | none => some (c.apply q 1, [])
  | .addNotify q => some
    ({ c with notifyCnt := Function.update c.notifyCnt q (c.notifyCnt q + 1) }, [])
  | .swapNotifyCnt q => some
    ({ c with notifyCnt := Function.update c.notifyCnt q 0 }, [.body (.popNotified q (c.notifyCnt q))])
  | .popNotified _ 0 => some (c, [])
  | .popNotified q (n + 1) =>
    match popHighestPriority x.priority (c.queue q) with
    | some (t, rest) => some (c.wake q t rest x.urgent, [.body (.popNotified q n)])
    | none => some (c.apply q (n + 1), [])
  | .pickNext =>
    if c.linked x.next = true then none
    else some ({ c with cur := x.next, switchDue := false }, [])

/-- The semaphores and a client as a kernel object of the machine. -/
def spec (maxCount : S → Nat) (C : Client S κ γ ρ ι ξ) :
    Spec (Queue S) QueueOp (Body S κ γ τ) (Content S ρ τ) τ ι (Choice τ ξ) where
  full q
    | .waitUntil => [.body (.checkCondition q)]
    | .notifyOne => [.body (.popNotify q)]
  pend q
    -- `wait_until` uses `must_with_full_access`
    | .waitUntil => []
    | .notifyOne => [.body (.addNotify q)]
  pended q := [.body (.swapNotifyCnt q)]
  exec := exec maxCount C
  wantsSwitch c := c.switchDue
  handler i := codes (C.handler i)
  pickNext := [.body .pickNext]
  cur c := c.cur

/-- The content at start, with the counters that `Semaphore::new` gets. -/
def start (initCount : S → Nat) (cur : τ) (client : ρ) : Content S ρ τ where
  count := initCount
  queue _ := []
  notifyCnt _ := 0
  linked _ := false
  met _ := false
  cur := cur
  switchDue := false
  client := client
  ups _ := 0
  downs _ := 0
  awake _ := []
  unapplied _ := 0

end Steps

end Hopter.Sync
