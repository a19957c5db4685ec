-- SUMMARY: The kernel queues on the machine: the scheduler, the sleep queue, wait queues and mailboxes.
import Hopter.Exec.Contexts
import Hopter.Task.TaskList

/-!
# The kernel queues

`src/schedule/scheduler.rs`, `src/time/mod.rs`, `src/sync/wait_queue.rs` and
`src/sync/mailbox.rs` as one kernel object of the machine. Each of the four has a soft
lock, and the accesses nest: a mailbox is notified, which takes the waiting task out of the
sleep queue, which hands the task to the ready queue.

A task calls the kernel in any order that it likes, and so does an interrupt handler with
the calls that are allowed there. `W` names the wait queues and `B` the mailboxes. `TICKS`
is the low 32 bits of a clock that does not wrap; a wake-up tick is the low 32 bits of the
time at which the task is due. The lock-free buffers have no capacity here, the callbacks
for idle times are left out, and so are suspensions of the scheduler inside an access, which
change nothing.

`notify_cnt`, `pending_count` and `count` are natural numbers here. Those of the source wrap
around, so the two are the same as long as each of them counts fewer than `2^32` notifications.
-/

namespace Hopter.Kernel

open Exec Hopter.Task Hopter.Time

/-- The soft locks. -/
inductive Lock (W B : Type) where
  | ready
  | sleep
  | waitQueue (w : W)
  | mailbox (m : B)
  deriving DecidableEq

/-- The task that waits on a mailbox. -/
inductive WaitTask (τ : Type) where
  | withTimeout (t : τ)
  | withoutTimeout (t : τ)
  | noTask
  deriving DecidableEq

/-- The settings of `src/config.rs` that matter here. -/
structure Config where
  allowTaskPreemption : Bool
  taskPriorityLevels : Nat

/-- What an access is for. -/
inductive Op (τ : Type) where
  | pickNext
  /-- `Scheduler::accept_task`, for a task that comes out of a queue. -/
  | acceptTask (t : τ)
  /-- `Scheduler::accept_task`, for the task that `spawn` has made. -/
  | acceptNewTask (t : τ)
  | wakeSleepingTasks
  | addTask (t : τ) (due : Nat)
  | removeTask (t : τ)
  | wait
  | waitUntil
  | waitUntilTimeout (ms : BitVec 32)
  /-- The second access of `wait_until_timeout`. -/
  | timeoutOver
  | notify
  deriving DecidableEq

/-- The atomic steps. `pended` tells whether `wake_expired_tasks` is part of
`run_pended_op`, and `now` is the clock when it has read `TICKS`. -/
inductive Body (τ W B : Type) where
  -- The ready queue: `pick_next`
  | cleanUp
  | popNext
  | updateCurTask (t : τ)
  | clearRequest
  -- `insert_task_to_ready_queue`
  | acceptNew (t : τ)
  | checkPreempt (t : τ)
  | pushReady (t : τ)
  | enqueue (t : τ)
  | enqueueNew (t : τ)
  -- `run_pended_op` of the ready queue
  | lockReady
  | dequeue
  | pushPended (t : τ)
  -- The sleep queue: `wake_expired_tasks`
  | loadTicks (pended : Bool)
  | wakeLoop (now : Nat) (pended : Bool)
  | deleteLoop (now : Nat) (pended : Bool)
  | endWake (now : Nat) (pended : Bool)
  -- `run_pended_op` of the sleep queue
  | loadTimeToWakeup
  | clearTimeToWakeup (now : Nat)
  -- The other operations of the sleep queue
  | setTimeToWakeup
  | pushSorted (t : τ) (due : Nat)
  | remove (t : τ)
  | enqueueDelete (t : τ)
  -- Wait queues
  | pushWait (w : W)
  | checkCondition (w : W)
  | popNotify (w : W)
  | addNotify (w : W)
  | swapNotifyCnt (w : W)
  | popNotified (w : W) (cnt : Nat)
  -- Mailboxes
  | checkCount (m : B)
  | checkCountTimeout (m : B) (ms : BitVec 32)
  | deadline (m : B) (t : τ) (ms : BitVec 32)
  | takeResult (m : B)
  | takeWaiter (m : B)
  | setNotified (m : B)
  | addPending (m : B)
  | swapPendingCount (m : B)
  | addCount (m : B) (n : Nat)
  | takePended (m : B)
  | subCount (m : B) (timeout : Bool)
  /-- The guard of the spin lock inside the object is dropped. -/
  | unlockSpin (l : Lock W B)
  -- Code of tasks and of SysTick
  | app
  | idle
  | sleepMs (ms : BitVec 32)
  | sleepCheck (due : Nat)
  | addCurTask (due : Nat)
  | waitedUntil (w : W)
  | waited (m : B)
  /-- The blocked `wait` of a mailbox returns. -/
  | resumed (m : B)
  | waitedTimeout (m : B)
  | changeCurrentPriority (prio : Nat)
  | changeIntrinsicPriority (prio : Nat)
  | dropCurrentTask
  | advanceTick
  deriving DecidableEq

/-- The calls of a task. -/
inductive Call (τ W B : Type) where
  /-- `spawn`, with a name for the new task. -/
  | spawn (t : τ)
  | wait (w : W)
  | waitUntil (w : W)
  | notify (w : W)
  | mailWait (m : B)
  | mailWaitUntilTimeout (m : B) (ms : BitVec 32)
  | mailNotify (m : B)
  | sleepMs (ms : BitVec 32)
  | yieldCurrent
  | changeCurrentPriority (prio : Nat)
  | exit

/-- The calls of an interrupt handler, and the SysTick handler. -/
inductive HandlerCall (τ W B : Type) where
  | sysTick
  | spawn (t : τ)
  | notify (w : W)
  | mailNotify (m : B)

/-- The choices that the model leaves open: what a task calls next, and what the condition
of `wait_until` gives. -/
structure Choice (τ W B : Type) where
  call : Call τ W B
  condition : Bool

/-- The end of a call of `wait_until_timeout`. -/
structure Return (B : Type) where
  mailbox : B
  result : Bool
  /-- The call has got a notification. -/
  notified : Bool
  /-- The time at which the call is to give up. -/
  deadline : Nat
  clock : Nat
  deriving DecidableEq

structure Content (τ W B : Type) where
  readyLinkedList : List τ
  insertBuffer : List τ
  timeSortedQueue : List τ
  deleteBuffer : List τ
  timeToWakeup : Bool
  queue : W → List τ
  notifyCnt : W → Nat
  count : B → Nat
  pendingCount : B → Nat
  waitTask : B → WaitTask τ
  taskNotified : B → Bool
  /-- The spin lock inside the object: around the linked list, or around `wait_task`. -/
  spin : Lock W B → Bool
  /-- The link of the task is in a list. -/
  linked : τ → Bool
  /-- The task has been made. -/
  spawned : τ → Bool
  state : τ → TaskState
  /-- The effective priority. -/
  priority : τ → Nat
  /-- The time behind `wake_at_tick`. -/
  due : τ → Nat
  clock : Nat
  cur : τ
  /-- `PENDING_CTXT_SWITCH`. -/
  switchDue : Bool
  /-- The local variable of the task's last wait. -/
  shouldBlock : τ → Bool
  /-- History: the clock when a SysTick was last pended. -/
  lastPended : Option Nat
  /-- History: the notifications of a mailbox. -/
  issued : B → Nat
  /-- History: the waits of a mailbox that have got a notification. -/
  received : B → Nat
  /-- History: the blocked waiter of a mailbox has got a notification and not resumed yet. -/
  handed : B → Bool
  /-- History: the calls of `wait_until_timeout` that are over. -/
  returns : List (Return B)

section Steps

variable {τ W B : Type} [DecidableEq τ] [DecidableEq W] [DecidableEq B]

/-- Code of the kernel. -/
abbrev KCode (τ W B : Type) := Code (Lock W B) (Op τ) (Body τ W B)

def Call.code : Call τ W B → List (KCode τ W B)
  | .spawn t => [.access .ready false (.acceptNewTask t), .body .app]
  | .wait w => [.mayBlock, .access (.waitQueue w) true .wait, .yield, .body .app]
  | .waitUntil w =>
    [.mayBlock, .access (.waitQueue w) true .waitUntil, .body (.waitedUntil w), .body .app]
  | .notify w => [.access (.waitQueue w) false .notify, .body .app]
  | .mailWait m => [.mayBlock, .access (.mailbox m) true .wait, .body (.waited m), .body .app]
  | .mailWaitUntilTimeout m ms =>
    [.mayBlock, .access (.mailbox m) true (.waitUntilTimeout ms), .body (.waitedTimeout m), .body .app]
  | .mailNotify m => [.access (.mailbox m) false .notify, .body .app]
  | .sleepMs ms => [.body (.sleepMs ms), .body .app]
  | .yieldCurrent => [.yield, .body .app]
  | .changeCurrentPriority prio => [.body (.changeCurrentPriority prio), .body .app]
  | .exit => [.suspended .dropCurrentTask, .yield]

def HandlerCall.code : HandlerCall τ W B → List (KCode τ W B)
  | .sysTick => [.body .advanceTick, .access .sleep false .wakeSleepingTasks]
  | .spawn t => [.access .ready false (.acceptNewTask t)]
  | .notify w => [.access (.waitQueue w) false .notify]
  | .mailNotify m => [.access (.mailbox m) false .notify]

namespace Content

@[simp] def setState (c : Content τ W B) (t : τ) (st : TaskState) : Content τ W B :=
  { c with state := Function.update c.state t st }

@[simp] def setLinked (c : Content τ W B) (t : τ) (b : Bool) : Content τ W B :=
  { c with linked := Function.update c.linked t b }

@[simp] def setSpin (c : Content τ W B) (l : Lock W B) (b : Bool) : Content τ W B :=
  { c with spin := Function.update c.spin l b }

/-- `lock_now_or_die`. -/
def lockNowOrDie (c : Content τ W B) (l : Lock W B) : Option (Content τ W B) :=
  if c.spin l = true then none else some (c.setSpin l true)

/-- A task is linked into a list; this panics when its link is in use. -/
def link (c : Content τ W B) (t : τ) : Option (Content τ W B) :=
  if c.linked t = true then none else some (c.setLinked t true)

/-- The task is made. A name stands for one task only. -/
def spawn (c : Content τ W B) (t : τ) : Option (Content τ W B) :=
  if c.spawned t = true then none else some { c with spawned := Function.update c.spawned t true }

/-- `push_back` on the ready list. -/
def pushBackReady (c : Content τ W B) (t : τ) : Option (Content τ W B) :=
  (c.link t).map fun c => { c with readyLinkedList := c.readyLinkedList ++ [t] }

/-- `push_back` on the list of a wait queue. -/
def pushBackQueue (c : Content τ W B) (w : W) (t : τ) : Option (Content τ W B) :=
  (c.link t).map fun c => { c with queue := Function.update c.queue w (c.queue w ++ [t]) }

/-- `push_back_tick_sorted` on the sleep queue. -/
def pushBackSleeping (c : Content τ W B) (t : τ) : Option (Content τ W B) :=
  (c.link t).map fun c =>
    { c with timeSortedQueue := pushBackTickSorted (fun u => Tick.of (c.due u)) t c.timeSortedQueue }

/-- A task is taken out of a wait queue, which leaves `rest`. -/
@[simp] def unlinkQueue (c : Content τ W B) (w : W) (t : τ) (rest : List τ) : Content τ W B :=
  { c.setLinked t false with queue := Function.update c.queue w rest }

/-- A task is taken out of the sleep queue, which leaves `rest`. -/
@[simp] def unlinkSleeping (c : Content τ W B) (t : τ) (rest : List τ) : Content τ W B :=
  { c.setLinked t false with timeSortedQueue := rest }

@[simp] def setWaitTask (c : Content τ W B) (m : B) (w : WaitTask τ) : Content τ W B :=
  { c with waitTask := Function.update c.waitTask m w }

@[simp] def setCount (c : Content τ W B) (m : B) (n : Nat) : Content τ W B :=
  { c with count := Function.update c.count m n }

@[simp] def setShouldBlock (c : Content τ W B) (b : Bool) : Content τ W B :=
  { c with shouldBlock := Function.update c.shouldBlock c.cur b }

/-- A wait of the mailbox gets a notification without blocking, or resumes with one. -/
@[simp] def receive (c : Content τ W B) (m : B) : Content τ W B :=
  { c with
    received := Function.update c.received m (c.received m + 1)
    handed := Function.update c.handed m false }

/-- The blocked waiter gets a notification. -/
@[simp] def hand (c : Content τ W B) (m : B) : Content τ W B :=
  { c with handed := Function.update c.handed m true }

@[simp] def issue (c : Content τ W B) (m : B) : Content τ W B :=
  { c with issued := Function.update c.issued m (c.issued m + 1) }

/-- `should_preempt`, for the current task. -/
def shouldPreempt (C : Config) (c : Content τ W B) (t : τ) : Bool :=
  C.allowTaskPreemption && decide (c.priority t < c.priority c.cur)

/-- A context switch is requested when the task should preempt the current one. -/
@[simp] def request (C : Config) (c : Content τ W B) (t : τ) : Content τ W B :=
  { c with switchDue := if c.shouldPreempt C t = true then true else c.switchDue }

/-- The test of the loop of `wake_expired_tasks`. -/
def expired (c : Content τ W B) (now : Nat) (t : τ) : Bool :=
  tickCmp (Tick.of (c.due t)) (Tick.of now) != .gt

end Content

/-- One atomic step. `none` is a panic or the end of the system. -/
def exec (C : Config) (c : Content τ W B) (b : Body τ W B) (x : Choice τ W B) :
    Option (Content τ W B × List (KCode τ W B)) :=
  match b with
  | .cleanUp => (c.lockNowOrDie .ready).bind fun c =>
    match c.state c.cur with
    | .running => ((c.setState c.cur .ready).pushBackReady c.cur).map (·, [.body .popNext])
    | .blocked | .destructing | .ready => some (c, [.body .popNext])
    | .initializing => none
  | .popNext =>
    (popHighestPriority c.priority c.readyLinkedList).map fun (t, rest) =>
      ({ (c.setLinked t false).setState t .running with readyLinkedList := rest },
        [.body (.updateCurTask t)])
  | .updateCurTask t => some ({ c with cur := t }, [.body .clearRequest])
  | .clearRequest => some ({ c with switchDue := false }, [.body (.unlockSpin .ready)])
  | .acceptNew t => (c.spawn t).map (·, [.body (.checkPreempt t)])
  | .checkPreempt t => some (c.request C t, [.body (.pushReady t)])
  | .pushReady t => (c.lockNowOrDie .ready).bind fun c =>
    ((c.setState t .ready).pushBackReady t).map (·, [.body (.unlockSpin .ready)])
  | .enqueue t => some ({ c with insertBuffer := c.insertBuffer ++ [t] }, [])
  | .enqueueNew t => (c.spawn t).map fun c => ({ c with insertBuffer := c.insertBuffer ++ [t] }, [])
  | .lockReady => (c.lockNowOrDie .ready).map (·, [.body .dequeue])
  | .dequeue =>
    match c.insertBuffer with
    | [] => some (c, [.body (.unlockSpin .ready)])
    | t :: rest => some ({ c with insertBuffer := rest }, [.body (.pushPended t)])
  | .pushPended t => (((c.request C t).setState t .ready).pushBackReady t).map (·, [.body .dequeue])
  | .loadTicks pended => (c.lockNowOrDie .sleep).map (·, [.body (.wakeLoop c.clock pended)])
  | .wakeLoop now pended =>
    match c.timeSortedQueue with
    | [] => some (c, [.body (.deleteLoop now pended)])
    | t :: rest =>
      if c.expired now t = true then some
        (c.unlinkSleeping t rest, [.access .ready false (.acceptTask t), .body (.wakeLoop now pended)])
      else some (c, [.body (.deleteLoop now pended)])
  | .deleteLoop now pended =>
    match c.deleteBuffer with
    | [] => some (c, [.body (.endWake now pended)])
    | t :: rest =>
      match removeTask t c.timeSortedQueue with
      | some queue => some
        ({ c.unlinkSleeping t queue with deleteBuffer := rest },
          [.access .ready false (.acceptTask t), .body (.deleteLoop now pended)])
      | none => some ({ c with deleteBuffer := rest }, [.body (.deleteLoop now pended)])
  | .endWake now pended => some
    (c.setSpin .sleep false, if pended = true then [.body (.clearTimeToWakeup now)] else [])
  | .loadTimeToWakeup => some (c, if c.timeToWakeup = true then [.body (.loadTicks true)] else [])
  | .clearTimeToWakeup _ => some ({ c with timeToWakeup := false }, [])
  | .setTimeToWakeup => some ({ c with timeToWakeup := true, lastPended := some c.clock }, [])
  | .pushSorted t due =>
    (({ c with due := Function.update c.due t due } : Content τ W B).lockNowOrDie .sleep).bind fun c =>
      (c.pushBackSleeping t).map (·, [.body (.unlockSpin .sleep)])
  | .remove t => (c.lockNowOrDie .sleep).map fun c =>
    match removeTask t c.timeSortedQueue with
    | some queue =>
      (c.unlinkSleeping t queue, [.access .ready false (.acceptTask t), .body (.unlockSpin .sleep)])
    | none => (c, [.body (.unlockSpin .sleep)])
  | .enqueueDelete t => some ({ c with deleteBuffer := c.deleteBuffer ++ [t] }, [])
  | .pushWait w => ((c.setState c.cur .blocked).lockNowOrDie (.waitQueue w)).bind fun c =>
    (c.pushBackQueue w c.cur).map (·, [.body (.unlockSpin (.waitQueue w))])
  | .checkCondition w => (c.lockNowOrDie (.waitQueue w)).bind fun c =>
    if x.condition = true then some (c.setShouldBlock false, [.body (.unlockSpin (.waitQueue w))])
    else (((c.setShouldBlock true).setState c.cur .blocked).pushBackQueue w c.cur).map
      (·, [.body (.unlockSpin (.waitQueue w))])
  | .popNotify w => (c.lockNowOrDie (.waitQueue w)).map fun c =>
    match popHighestPriority c.priority (c.queue w) with
    | some (t, rest) =>
      (c.unlinkQueue w t rest,
        [.access .ready false (.acceptTask t), .body (.unlockSpin (.waitQueue w))])
    | none => (c, [.body (.unlockSpin (.waitQueue w))])
  | .addNotify w => some
    ({ c with notifyCnt := Function.update c.notifyCnt w (c.notifyCnt w + 1) }, [])
  | .swapNotifyCnt w => (c.lockNowOrDie (.waitQueue w)).map fun c =>
    ({ c with notifyCnt := Function.update c.notifyCnt w 0 }, [.body (.popNotified w (c.notifyCnt w))])
  | .popNotified w 0 => some (c, [.body (.unlockSpin (.waitQueue w))])
  | .popNotified w (n + 1) =>
    match popHighestPriority c.priority (c.queue w) with
    | some (t, rest) => some
      (c.unlinkQueue w t rest, [.access .ready false (.acceptTask t), .body (.popNotified w n)])
    | none => some (c, [.body (.unlockSpin (.waitQueue w))])
  | .checkCount m => (c.lockNowOrDie (.mailbox m)).bind fun c =>
    if c.waitTask m ≠ .noTask then none
    else if 0 < c.count m then some
      (((c.setCount m (c.count m - 1)).setShouldBlock false).receive m,
        [.body (.unlockSpin (.mailbox m))])
    else some
      (((c.setState c.cur .blocked).setWaitTask m (.withoutTimeout c.cur)).setShouldBlock true,
        [.body (.unlockSpin (.mailbox m))])
  | .checkCountTimeout m ms => (c.lockNowOrDie (.mailbox m)).bind fun c =>
    if c.waitTask m ≠ .noTask then none
    else if 0 < c.count m then some
      ({ ((c.setCount m (c.count m - 1)).setShouldBlock false).receive m with
          returns := c.returns ++ [⟨m, true, true, c.clock + ms.toNat, c.clock⟩] },
        [.body (.unlockSpin (.mailbox m))])
    else some
      ({ ((c.setState c.cur .blocked).setWaitTask m (.withTimeout c.cur)).setShouldBlock true with
          taskNotified := Function.update c.taskNotified m false },
        [.body (.deadline m c.cur ms)])
  | .deadline m t ms => some
    (c, [.access .sleep true (.addTask t (c.clock + ms.toNat)), .body (.unlockSpin (.mailbox m))])
  | .takeResult m => (c.lockNowOrDie (.mailbox m)).map fun c =>
    let d := { c.setWaitTask m .noTask with
      returns := c.returns ++ [⟨m, c.taskNotified m, c.handed m, c.due c.cur, c.clock⟩] }
    (if c.taskNotified m = true then d.receive m else d, [.body (.unlockSpin (.mailbox m))])
  | .takeWaiter m => ((c.issue m).lockNowOrDie (.mailbox m)).map fun c =>
    match c.waitTask m with
    | .withTimeout t =>
      ((c.setWaitTask m .noTask).hand m,
        [.access .sleep false (.removeTask t), .body (.setNotified m)])
    | .withoutTimeout t =>
      ((c.setWaitTask m .noTask).hand m,
        [.access .ready false (.acceptTask t), .body (.unlockSpin (.mailbox m))])
    | .noTask => (c.setCount m (c.count m + 1), [.body (.unlockSpin (.mailbox m))])
  | .setNotified m => some
    ({ c with taskNotified := Function.update c.taskNotified m true },
      [.body (.unlockSpin (.mailbox m))])
  | .addPending m => some
    ({ c.issue m with pendingCount := Function.update c.pendingCount m (c.pendingCount m + 1) }, [])
  | .swapPendingCount m => some
    ({ c with pendingCount := Function.update c.pendingCount m 0 }, [.body (.addCount m (c.pendingCount m))])
  | .addCount m n => some (c.setCount m (c.count m + n), [.body (.takePended m)])
  | .takePended m => (c.lockNowOrDie (.mailbox m)).map fun c =>
    match c.waitTask m with
    | .withTimeout t =>
      ((c.setWaitTask m .noTask).hand m,
        [.access .sleep false (.removeTask t), .body (.subCount m true)])
    | .withoutTimeout t =>
      ((c.setWaitTask m .noTask).hand m,
        [.access .ready false (.acceptTask t), .body (.subCount m false)])
    | .noTask => (c, [.body (.unlockSpin (.mailbox m))])
  -- `fetch_sub` wraps around
  | .subCount m timeout => some
    (c.setCount m (if c.count m = 0 then 2 ^ 32 - 1 else c.count m - 1),
      if timeout = true then [.body (.setNotified m)] else [.body (.unlockSpin (.mailbox m))])
  | .unlockSpin l => some (c.setSpin l false, [])
  | .app => some (c, x.call.code)
  -- `wfe`
  | .idle => some (c, [.body .idle])
  | .sleepMs ms => some
    (c, if 2 ^ 31 - 1 < ms.toNat then [] else [.body (.sleepCheck (c.clock + ms.toNat))])
  | .sleepCheck due => some
    (c, if tickCmp (Tick.of c.clock) (Tick.of due) = .lt then
        [.mayBlock, .suspended (.addCurTask due), .yield]
      else [])
  | .addCurTask due => some
    (c.setState c.cur .blocked, [.access .sleep true (.addTask c.cur due)])
  | .waitedUntil w => some
    (c, if c.shouldBlock c.cur = true then
        [.yield, .mayBlock, .access (.waitQueue w) true .waitUntil, .body (.waitedUntil w)]
      else [])
  | .waited m => some (c, if c.shouldBlock c.cur = true then [.yield, .body (.resumed m)] else [])
  | .resumed m => some (c.receive m, [])
  | .waitedTimeout m => some
    (c, if c.shouldBlock c.cur = true then [.yield, .access (.mailbox m) true .timeoutOver] else [])
  | .changeCurrentPriority prio => some
    (c, if C.taskPriorityLevels - 1 ≤ prio then []
      else [.suspended (.changeIntrinsicPriority prio), .yield])
  | .changeIntrinsicPriority prio => some
    ({ c with priority := Function.update c.priority c.cur prio }, [])
  | .dropCurrentTask => some (c.setState c.cur .destructing, [])
  | .advanceTick => some ({ c with clock := c.clock + 1 }, [])

/-- The closures of full accesses. -/
def fullAccess : Lock W B → Op τ → List (KCode τ W B)
  | .ready, .pickNext => [.body .cleanUp]
  | .ready, .acceptTask t => [.body (.checkPreempt t)]
  | .ready, .acceptNewTask t => [.body (.acceptNew t)]
  | .sleep, .wakeSleepingTasks => [.body (.loadTicks false)]
  | .sleep, .addTask t due => [.body (.pushSorted t due)]
  | .sleep, .removeTask t => [.body (.remove t)]
  | .waitQueue w, .wait => [.body (.pushWait w)]
  | .waitQueue w, .waitUntil => [.body (.checkCondition w)]
  | .waitQueue w, .notify => [.body (.popNotify w)]
  | .mailbox m, .wait => [.body (.checkCount m)]
  | .mailbox m, .waitUntilTimeout ms => [.body (.checkCountTimeout m ms)]
  | .mailbox m, .timeoutOver => [.body (.takeResult m)]
  | .mailbox m, .notify => [.body (.takeWaiter m)]
  -- there are no such accesses
  | _, _ => []

/-- The closures of pend-only accesses. All others use `must_with_full_access`. -/
def pendOnlyAccess : Lock W B → Op τ → List (KCode τ W B)
  | .ready, .acceptTask t => [.body (.enqueue t)]
  | .ready, .acceptNewTask t => [.body (.enqueueNew t)]
  | .sleep, .wakeSleepingTasks => [.body .setTimeToWakeup]
  | .sleep, .removeTask t => [.body (.enqueueDelete t)]
  | .waitQueue w, .notify => [.body (.addNotify w)]
  | .mailbox m, .notify => [.body (.addPending m)]
  | _, _ => []

def runPendedOp : Lock W B → List (KCode τ W B)
  | .ready => [.body .lockReady]
  | .sleep => [.body .loadTimeToWakeup]
  | .waitQueue w => [.body (.swapNotifyCnt w)]
  | .mailbox m => [.body (.swapPendingCount m)]

/-- The kernel queues as a kernel object of the machine. -/
def spec (C : Config) :
    Spec (Lock W B) (Op τ) (Body τ W B) (Content τ W B) τ (List (HandlerCall τ W B)) (Choice τ W B) where
  full := fullAccess
  pend := pendOnlyAccess
  pended := runPendedOp
  exec := exec C
  wantsSwitch c := c.switchDue
  handler calls := calls.flatMap HandlerCall.code
  pickNext := [.access .ready true .pickNext]
  cur c := c.cur

/-- The content when the scheduler has been started: the idle task runs, and the main task is
ready. -/
def start (idle main : τ) (priority : τ → Nat) (clock : Nat) : Content τ W B where
  readyLinkedList := [main]
  insertBuffer := []
  timeSortedQueue := []
  deleteBuffer := []
  timeToWakeup := false
  queue _ := []
  notifyCnt _ := 0
  count _ := 0
  pendingCount _ := 0
  waitTask _ := .noTask
  taskNotified _ := false
  spin _ := false
  linked t := t = main
  spawned t := t = idle ∨ t = main
  state t := if t = idle then .running else if t = main then .ready else .initializing
  priority := priority
  due _ := 0
  clock := clock
  cur := idle
  switchDue := false
  shouldBlock _ := false
  lastPended := none
  issued _ := 0
  received _ := 0
  handed _ := false
  returns := []

/-- `idle_task` yields at first, and then does nothing. The other tasks call the kernel. -/
def code (idle t : τ) : List (KCode τ W B) :=
  if t = idle then [.yield, .body .idle] else [.body .app]

/-- The machine when the scheduler has been started. -/
def boot (idle main : τ) (priority : τ → Nat) (clock : Nat) :
    State (Lock W B) (Op τ) (Body τ W B) (Content τ W B) τ :=
  init (start idle main priority clock) idle (code idle)

end Steps

end Hopter.Kernel
