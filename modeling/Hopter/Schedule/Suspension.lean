-- SUMMARY: Suspension of the scheduler: the public calls of tasks, guards and masks, and when PendSV is taken.
import Hopter.Base.Run
import Mathlib.Algebra.Ring.Nat
import Mathlib.Data.List.Basic
import Mathlib.Logic.Function.Basic

/-!
# Suspension of the scheduler

A context switch is requested by pending PendSV, which is taken when no interrupt handler
is active and interrupts are not masked. `pick_next` (`src/schedule/scheduler.rs`) halts the
system when it runs while `SUSPEND_CNT` is positive. This module looks at all that changes
`SUSPEND_CNT` and pends PendSV, and leaves out what the kernel objects hold.

Code of the kernel is made of scopes that suspend the scheduler, of work that may request a
context switch, and of the statements that pend PendSV. A task may keep guards between its
calls: guards of spin locks that suspend the scheduler, and masks of all interrupts
(`src/interrupt/mask.rs`), which suspend the scheduler too. At the start of a call the stack
is empty, and so the guards are in a list of their own.

A task that panics is unwound (`src/unwind/unwind.rs`): the guards on its stack are dropped, and
between them drop handlers of the application may make calls of their own. The unwinder yields
as well, when the scheduler is not suspended.
-/

namespace Hopter.Schedule

-- ---------------------------------------------------------------------------
-- Code
-- ---------------------------------------------------------------------------

/-- What suspends the scheduler while it is alive. -/
inductive Guard where
  /-- `SchedSuspendGuard`, alone or in the guard of a spin lock. -/
  | sched
  /-- `HeldInterrupt<AllIrqExceptSvc>`. -/
  | irq
  deriving DecidableEq

inductive Stmt where
  /-- Anything that does not touch the counter. It may set `PENDING_CTXT_SWITCH`. -/
  | work
  /-- `with_suspended_scheduler`, `with_cur_task` or a spin lock of the kernel. -/
  | suspended (body : List Stmt)
  /-- The scope of a guard that masks all interrupts. -/
  | masked (body : List Stmt)
  /-- `if Scheduler::is_suspended() || current::is_in_isr_context() { panic!() }`. -/
  | mayBlock
  /-- `context_switch::yield_current_task()`. -/
  | yield
  /-- `if !Scheduler::is_suspended() { context_switch::yield_current_task() }`. -/
  | yieldUnlessSuspended

mutual

/-- Code that neither blocks nor yields. -/
def Stmt.plain : Stmt → Bool
  | .work => true
  | .suspended body | .masked body => plainAll body
  | _ => false

def plainAll : List Stmt → Bool
  | [] => true
  | stmt :: body => stmt.plain && plainAll body

end

/-- `Scheduler::accept_task`. -/
def acceptTask : Stmt := .suspended [.work]

/-- An access to a soft lock, during which `tasks` tasks go to the scheduler. -/
def access (body : List Stmt) (tasks : Nat) : Stmt :=
  .suspended (body ++ List.replicate tasks acceptTask)

def yieldCurrent : List Stmt := [.yieldUnlessSuspended]

/-- `change_current_priority`, which does nothing for a priority that is not allowed. -/
def changeCurrentPriority (levels prio : Nat) : List Stmt :=
  if levels - 1 ≤ prio then [] else [.suspended [.work], .yield]

/-- `sleep_ms`, which does not block when the time is over already. -/
def sleepMs (sleeps : Bool) (tasks : Nat) : List Stmt :=
  if sleeps = true then [.mayBlock, .suspended [.work, access [.work] tasks], .yield] else []

/-- `WaitQueue::wait`. -/
def wait (tasks : Nat) : List Stmt := [.mayBlock, access [.work] tasks, .yield]

/-- `WaitQueue::wait_until`: the rounds in which the condition is not met, and the last one. -/
def waitUntil (condition : List Stmt) (rounds : List Nat) (tasks : Nat) : List Stmt :=
  (rounds.flatMap fun tasks => [.mayBlock, access (condition ++ [.work]) tasks, .yield]) ++
    [.mayBlock, access condition tasks]

/-- `WaitQueue::notify_one_allow_isr`. -/
def notifyOne (tasks : Nat) : List Stmt := [access [.work] tasks]

/-- `Mailbox::wait`. -/
def mailboxWait (blocks : Bool) (tasks : Nat) : List Stmt :=
  [.mayBlock, access [.work] tasks] ++ if blocks = true then [.yield] else []

/-- `Mailbox::wait_until_timeout`. -/
def mailboxWaitUntilTimeout (blocks : Bool) (tasks sleepTasks lastTasks : Nat) : List Stmt :=
  if blocks = true then
    [.mayBlock, access [.work, access [.work] sleepTasks] tasks, .yield, access [.work] lastTasks]
  else [.mayBlock, access [.work] tasks]

/-- `Mailbox::notify_allow_isr`, which may remove the waiting task from the sleep queue. -/
def mailboxNotify (tasks sleepTasks : Nat) : List Stmt :=
  [access [.work, access [.work] sleepTasks] tasks]

/-- What a task calls. -/
inductive Call where
  | yieldCurrent
  | changeCurrentPriority (prio : Nat)
  | sleepMs (sleeps : Bool) (tasks : Nat)
  | wait (tasks : Nat)
  /-- `Semaphore::up` and `down`, `Mutex::lock` and the condition variables. -/
  | waitUntil (condition : List Stmt) (rounds : List Nat) (tasks : Nat)
  | notifyOne (tasks : Nat)
  | mailboxWait (blocks : Bool) (tasks : Nat)
  | mailboxWaitUntilTimeout (blocks : Bool) (tasks sleepTasks lastTasks : Nat)
  | mailboxNotify (tasks sleepTasks : Nat)
  /-- A task is built and goes to the scheduler. -/
  | spawn
  /-- `try_lock` of a mutex or of a semaphore and any other code that does not block. -/
  | plain (body : List Stmt)
  /-- The guard of a spin lock or a mask is created, and kept. -/
  | hold (g : Guard)
  /-- One of the guards is dropped. -/
  | drop (n : Nat)
  /-- The task returns, and its guards are dropped. -/
  | exit

-- ---------------------------------------------------------------------------
-- The machine
-- ---------------------------------------------------------------------------

inductive Instr where
  | stmt (s : Stmt)
  | hold (g : Guard)
  | drop (n : Nat)
  /-- The write to `BASEPRI` and `ALL_IRQ_MASK_CNT` in `__disable_recursive`. -/
  | disable
  /-- The same in `__enable_recursive`; `Scheduler::force_unhold` follows. -/
  | enable
  /-- `SUSPEND_CNT.fetch_sub(1)` in `Scheduler::resume`. -/
  | resume
  /-- The rest of `Scheduler::resume`. -/
  | reschedule
  /-- The unwinder, before the first landing pad and after each one. -/
  | unwinder
  /-- The guards of the task are dropped, after a panic or not, and then the task is destroyed. -/
  | unwind (panicked : Bool)
  | iret
  /-- `pick_next` after its check of the counter: the scheduler is suspended. -/
  | pickNext
  /-- The choice of the next task. -/
  | choose
  /-- The end of PendSV. -/
  | restore

def Call.code (levels : Nat) : Call → List Instr
  | .yieldCurrent => Schedule.yieldCurrent.map .stmt
  | .changeCurrentPriority prio => (Schedule.changeCurrentPriority levels prio).map .stmt
  | .sleepMs sleeps tasks => (Schedule.sleepMs sleeps tasks).map .stmt
  | .wait tasks => (Schedule.wait tasks).map .stmt
  | .waitUntil condition rounds tasks => (Schedule.waitUntil condition rounds tasks).map .stmt
  | .notifyOne tasks => (Schedule.notifyOne tasks).map .stmt
  | .mailboxWait blocks tasks => (Schedule.mailboxWait blocks tasks).map .stmt
  | .mailboxWaitUntilTimeout blocks tasks sleepTasks lastTasks =>
    (Schedule.mailboxWaitUntilTimeout blocks tasks sleepTasks lastTasks).map .stmt
  | .mailboxNotify tasks sleepTasks => (Schedule.mailboxNotify tasks sleepTasks).map .stmt
  | .spawn => [.stmt acceptTask]
  | .plain body => body.map .stmt
  | .hold g => [.hold g]
  | .drop n => [.drop n]
  | .exit => [.unwind false]

/-- The code that a call is given does not block or yield itself. -/
def Call.plainArgs : Call → Bool
  | .waitUntil body _ _ | .plain body => plainAll body
  | _ => true

/-- The drop of a guard. -/
def Guard.release : Guard → Instr
  | .sched => .resume
  | .irq => .enable

structure State (τ : Type) where
  /-- `SUSPEND_CNT`. -/
  suspendCnt : Nat
  pendsv : Bool
  /-- `PENDING_CTXT_SWITCH`. -/
  switchDue : Bool
  /-- `ALL_IRQ_MASK_CNT`. -/
  maskCnt : Nat
  /-- `BASEPRI` masks all interrupts, PendSV included. -/
  basepri : Bool
  stack : List Instr
  running : τ
  /-- The task that `CUR_TASK_CTXT_PTR` points to. -/
  cur : τ
  saved : τ → List Instr
  /-- The guards that tasks keep. -/
  held : τ → List Guard
  /-- `unrecoverable::die()` in `pick_next`. -/
  died : Bool

structure Choice (τ : Type) where
  urgent : Bool
  next : τ
  /-- The unwinder asks for a context switch: it has lowered the priority of the task, or
  `ALLOW_TASK_PREEMPTION` is off. -/
  reschedule : Bool
  /-- A task that has panicked starts again in place. -/
  restarts : Bool

inductive Action (τ : Type) where
  | call (c : Call)
  | run (x : Choice τ)
  /-- An interrupt handler that runs the statements. -/
  | preempt (body : List Stmt)
  | pendsv
  /-- The code of the task panics, but not in the middle of setting a mask. -/
  | panic

def Instr.isFrame : Instr → Bool
  | .iret | .restore => true
  | _ => false

def taskLevel (k : List Instr) : Bool := k.all fun i => !i.isFrame

/-- A mask is being created: the scheduler is suspended, and `BASEPRI` is written next. -/
def Instr.isDisable : Instr → Bool
  | .disable => true
  | _ => false

/-- The parts of a scope that unwinding runs. -/
def Instr.landing : Instr → Bool
  | .enable | .resume | .reschedule => true
  | _ => false

def landingPads (k : List Instr) : List Instr := (k.filter Instr.landing).flatMap fun i => [i, .unwinder]

/-- `create_unwind_state`, which may restart the task concurrently, the landing pads, and the end of
the task. -/
def unwindStack (k : List Instr) : List Instr :=
  .stmt (.suspended [.work, acceptTask]) :: .unwinder :: (landingPads k ++ [.unwind true])

/-- `is_unwinding`. -/
def unwinding (k : List Instr) : Bool := k.any fun i => i matches .unwind true

/-- Code of the application makes the call: that of the task, or a drop handler. -/
def Call.enabled : Call → List Instr → Bool
  | _, [] => true
  | .exit, _ => false
  | _, .unwinder :: _ => true
  | _, _ => false

section Machine

variable {τ : Type} [DecidableEq τ]

def runInstr (s : State τ) (x : Choice τ) (k : List Instr) : Instr → Option (State τ)
  | .stmt .work => some { s with switchDue := s.switchDue || x.urgent, stack := k }
  | .stmt (.suspended body) => some
    { s with suspendCnt := s.suspendCnt + 1, stack := body.map .stmt ++ .resume :: k }
  | .stmt (.masked body) => some
    { s with suspendCnt := s.suspendCnt + 1, stack := .disable :: body.map .stmt ++ .enable :: k }
  | .stmt .mayBlock =>
    if taskLevel s.stack = true then
      if s.suspendCnt = 0 then some { s with stack := k }
      -- a double panic halts the system
      else if unwinding k = true then none
      else some { s with stack := unwindStack k }
    else none
  | .stmt .yield => some { s with pendsv := true, stack := k }
  | .stmt .yieldUnlessSuspended =>
    if s.suspendCnt = 0 then some { s with stack := .stmt .yield :: k } else some { s with stack := k }
  | .hold .sched => some
    { s with
      suspendCnt := s.suspendCnt + 1
      held := Function.update s.held s.running (.sched :: s.held s.running)
      stack := k }
  | .hold .irq => some
    { s with
      suspendCnt := s.suspendCnt + 1
      held := Function.update s.held s.running (.irq :: s.held s.running)
      stack := .disable :: k }
  | .drop n => (s.held s.running)[n]?.map fun g =>
    { s with
      held := Function.update s.held s.running ((s.held s.running).eraseIdx n)
      stack := g.release :: k }
  | .disable => some { s with maskCnt := s.maskCnt + 1, basepri := true, stack := k }
  | .enable => some
    { s with
      maskCnt := s.maskCnt - 1
      basepri := if s.maskCnt = 1 then false else s.basepri
      stack := .resume :: k }
  | .resume => some { s with suspendCnt := s.suspendCnt - 1, stack := .reschedule :: k }
  | .reschedule => some
    { s with
      pendsv := if s.suspendCnt = 0 ∧ s.switchDue = true then true else s.pendsv
      stack := k }
  | .unwinder =>
    if x.reschedule = true ∧ s.suspendCnt = 0 then some { s with stack := .stmt .yield :: k }
    else some { s with stack := k }
  | .unwind panicked =>
    match s.held s.running with
    | [] =>
      if panicked = true ∧ x.restarts = true then some { s with stack := k }
      -- `drop_current_task_from_svc`
      else some { s with stack := .stmt (.suspended [.work]) :: .stmt .yield :: k }
    | g :: gs => some
      { s with
        held := Function.update s.held s.running gs
        stack := g.release :: ((if panicked = true then [.unwinder] else []) ++ .unwind panicked :: k) }
  | .iret => some { s with stack := k }
  | .pickNext => some
    { s with suspendCnt := s.suspendCnt + 1, stack := .choose :: .stmt .work :: .resume :: k }
  | .choose => some { s with cur := x.next, switchDue := false, stack := k }
  | .restore => some
    { s with
      running := s.cur
      stack := s.saved s.cur
      saved := Function.update s.saved s.cur [] }

/-- PendSV is taken before the next instruction of the task. -/
def State.switches (s : State τ) : Bool := s.pendsv && !s.basepri && taskLevel s.stack

/-- One step. Nothing happens after `die`. -/
def step (levels : Nat) (s : State τ) (a : Action τ) : Option (State τ) :=
  if s.died = true then none else
  match a with
  | .call c =>
    if c.enabled s.stack = true ∧ s.switches = false ∧ c.plainArgs = true then
      some { s with stack := c.code levels ++ s.stack }
    else none
  | .run x =>
    match s.stack with
    | [] => none
    | i :: k => if s.switches = true then none else runInstr s x k i
  | .preempt body =>
    if s.basepri = false ∧ plainAll body = true then
      some { s with stack := body.map .stmt ++ .iret :: s.stack }
    else none
  | .pendsv =>
    if s.switches = true then
      if 0 < s.suspendCnt then some { s with died := true }
      else some
        { s with
          pendsv := false
          saved := Function.update s.saved s.running s.stack
          stack := [.pickNext, .restore] }
    else none
  | .panic =>
    if s.switches = false ∧ taskLevel s.stack = true ∧ unwinding s.stack = false ∧
        s.stack.any Instr.isDisable = false then
      some { s with stack := unwindStack s.stack }
    else none

/-- The state after `Scheduler::start`, with the idle task on the CPU. -/
def start (idle : τ) : State τ where
  suspendCnt := 0
  pendsv := false
  switchDue := false
  maskCnt := 0
  basepri := false
  stack := []
  running := idle
  cur := idle
  saved _ := []
  held _ := []
  died := false

end Machine

end Hopter.Schedule
