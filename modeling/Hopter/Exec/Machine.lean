-- SUMMARY: The execution model: nested interrupts, scheduler suspension, soft locks and context switches as one stack machine.
import Hopter.Base.Run
import Mathlib.Logic.Function.Basic
import Mathlib.Data.List.Basic

/-!
# The execution model

The CPU runs one task and, on top of it, interrupt handlers. A handler finishes
before the code that it preempts resumes, so what is left to do is one stack of
instructions: the rest of the innermost handler first, the rest of the task last.
Every instruction is an atomic step of the source, and a handler may come in
before any of them.

The instructions that are the same for all kernel objects are built in: entering
`with_suspended_scheduler` and leaving it, the guard of a soft lock and its
release loop (`src/sync/soft_lock.rs`), and the PendSV exception that switches
tasks. What a kernel object adds (the access closures of its soft locks, its own
atomic steps) is a `Spec`. All soft locks of the kernel are inside a
`RefCellSchedSafe`, and so a guard is always taken with the scheduler suspended.
-/

namespace Hopter.Exec

/-- The two atomic flags of a soft lock. -/
structure Flags where
  locked : Bool
  pending : Bool
  deriving DecidableEq

/-- Code of tasks, of interrupt handlers and of access closures. `Λ` names the soft
locks, `ω` what an access is for, and `β` the atomic steps of the kernel objects. -/
inductive Code (Λ ω β : Type) where
  | body (b : β)
  /-- `with_suspended_scheduler(|q, _| q.with_access(..))`, and with `must` the
  variant `must_with_full_access`, which spins when it does not win the lock. -/
  | access (l : Λ) (must : Bool) (op : ω)
  /-- A step that runs with the scheduler suspended, but without a lock. -/
  | suspended (b : β)
  /-- `if Scheduler::is_suspended() || current::is_in_isr_context() { panic!() }`. -/
  | mayBlock
  /-- `context_switch::yield_current_task()`. -/
  | yield

/-- What is on the stack: code, and the parts of the built-in operations that are
still to be done. -/
inductive Instr (Λ ω β : Type) where
  | code (c : Code Λ ω β)
  /-- `AccessGuard::guard`: the compare-exchange on `locked`. -/
  | guard (l : Λ) (must : Bool) (op : ω)
  /-- Drop of a guard with pend-only access: `pending.store(true)`. -/
  | setPending (l : Λ)
  /-- Drop of a guard with full access: `pending.swap(false)`. -/
  | swapPending (l : Λ)
  /-- `locked.store(false)`. -/
  | unlock (l : Λ)
  /-- `pending.load()` after the release. -/
  | checkPending (l : Λ)
  /-- The compare-exchange that takes the lock again. -/
  | relock (l : Λ)
  /-- Drop of the suspension guard: `SUSPEND_CNT.fetch_sub(1)`. -/
  | resume
  /-- The rest of `Scheduler::resume`: request a context switch if one is due. -/
  | reschedule
  /-- Return from an interrupt handler. -/
  | iret
  /-- The end of PendSV: check that the kernel stack is empty and load the context of
  the chosen task. -/
  | restore

/-- A kernel object, or several: `τ` names the tasks, `σ` is the state, `ι` names the
interrupt handlers, and `χ` resolves the choices that the model leaves open. -/
structure Spec (Λ ω β σ τ ι χ : Type) where
  /-- The closure that runs with full access. -/
  full : Λ → ω → List (Code Λ ω β)
  /-- The closure that runs with pend-only access. -/
  pend : Λ → ω → List (Code Λ ω β)
  /-- `run_pended_op`. -/
  pended : Λ → List (Code Λ ω β)
  /-- One atomic step; it may go on with more code. `none` when it cannot be taken. -/
  exec : σ → β → χ → Option (σ × List (Code Λ ω β))
  /-- `PENDING_CTXT_SWITCH`. -/
  wantsSwitch : σ → Bool
  handler : ι → List (Code Λ ω β)
  /-- The PendSV handler, which chooses the next task. -/
  pickNext : List (Code Λ ω β)
  /-- The task that `CUR_TASK_CTXT_PTR` points to. -/
  cur : σ → τ

/-- The state of the machine. -/
structure State (Λ ω β σ τ : Type) where
  flags : Λ → Flags
  /-- `SUSPEND_CNT`. -/
  suspendCnt : Nat
  /-- PendSV is pending. -/
  pendsv : Bool
  stack : List (Instr Λ ω β)
  /-- The task whose context the CPU holds. -/
  running : τ
  /-- The contexts of the tasks that are switched out. -/
  saved : τ → List (Instr Λ ω β)
  content : σ
  /-- History: a pend-only access to the lock has completed, and no `run_pended_op`
  has started since. -/
  owed : Λ → Bool

inductive Action (ι χ : Type) where
  /-- The instruction on top of the stack runs. -/
  | run (x : χ)
  /-- An interrupt comes in. -/
  | preempt (i : ι)
  /-- The pending PendSV exception is taken. -/
  | pendsv

variable {Λ ω β σ τ ι χ : Type}

def Instr.isFrame : Instr Λ ω β → Bool
  | .iret | .restore => true
  | _ => false

/-- No handler is active, PendSV included. -/
def taskLevel (k : List (Instr Λ ω β)) : Bool := k.all fun i => !i.isFrame

/-- Put code on the stack. -/
def push (cs : List (Code Λ ω β)) (k : List (Instr Λ ω β)) : List (Instr Λ ω β) :=
  cs.map Instr.code ++ k

variable [DecidableEq Λ] [DecidableEq τ]

def setLocked (s : State Λ ω β σ τ) (l : Λ) (b : Bool) : State Λ ω β σ τ :=
  { s with flags := Function.update s.flags l { s.flags l with locked := b } }

def setPendingFlag (s : State Λ ω β σ τ) (l : Λ) (b : Bool) : State Λ ω β σ τ :=
  { s with flags := Function.update s.flags l { s.flags l with pending := b } }

/-- Run the instruction `i`, which was on top of `k`. -/
def runInstr (M : Spec Λ ω β σ τ ι χ) (s : State Λ ω β σ τ) (x : χ) (k : List (Instr Λ ω β)) :
    Instr Λ ω β → Option (State Λ ω β σ τ)
  | .code (.body b) => (M.exec s.content b x).map fun (c, cs) =>
    { s with content := c, stack := push cs k }
  | .code (.access l must op) => some
    { s with suspendCnt := s.suspendCnt + 1, stack := .guard l must op :: .resume :: k }
  | .code (.suspended b) => some
    { s with suspendCnt := s.suspendCnt + 1, stack := .code (.body b) :: .resume :: k }
  | .code .mayBlock =>
    if s.suspendCnt = 0 ∧ taskLevel s.stack = true then some { s with stack := k } else none
  | .code .yield => some { s with pendsv := true, stack := k }
  | .guard l must op =>
    if (s.flags l).locked = false then
      some { setLocked s l true with stack := push (M.full l op) (.swapPending l :: k) }
    else if must = true then none
    else some { s with stack := push (M.pend l op) (.setPending l :: k) }
  | .setPending l => some
    { setPendingFlag s l true with stack := k, owed := Function.update s.owed l true }
  | .swapPending l =>
    if (s.flags l).pending = true then some
      { setPendingFlag s l false with
        stack := push (M.pended l) (.unlock l :: k)
        owed := Function.update s.owed l false }
    else some { setPendingFlag s l false with stack := .unlock l :: k }
  | .unlock l => some { setLocked s l false with stack := .checkPending l :: k }
  | .checkPending l =>
    if (s.flags l).pending = true then some { s with stack := .relock l :: k }
    else some { s with stack := k }
  | .relock l =>
    if (s.flags l).locked = false then
      some { setLocked s l true with stack := .swapPending l :: k }
    else none
  | .resume => some { s with suspendCnt := s.suspendCnt - 1, stack := .reschedule :: k }
  | .reschedule => some
    { s with
      pendsv := if s.suspendCnt = 0 ∧ M.wantsSwitch s.content = true then true else s.pendsv
      stack := k }
  | .iret => some { s with stack := k }
  | .restore =>
    if k.isEmpty = true then some
      { s with
        running := M.cur s.content
        stack := s.saved (M.cur s.content)
        saved := Function.update s.saved (M.cur s.content) [] }
    else none

/-- One step. At task level a pending PendSV comes before the next instruction. -/
def step (M : Spec Λ ω β σ τ ι χ) (s : State Λ ω β σ τ) : Action ι χ → Option (State Λ ω β σ τ)
  | .run x =>
    match s.stack with
    | [] => none
    | i :: k => if s.pendsv = true ∧ taskLevel s.stack = true then none else runInstr M s x k i
  | .preempt i => some { s with stack := push (M.handler i) (.iret :: s.stack) }
  | .pendsv =>
    if s.pendsv = true ∧ s.suspendCnt = 0 ∧ taskLevel s.stack = true then some
      { s with
        pendsv := false
        saved := Function.update s.saved s.running s.stack
        stack := push M.pickNext [.restore] }
    else none

end Hopter.Exec
