-- SUMMARY: Releasing a lock, by dropping its guard and by `force_unlock`.
import Hopter.Task.Priority
import Hopter.Task.TaskList

/-!
# Releasing locks

The locks of `src/sync/spin_lock.rs` and `src/sync/mutex.rs` hold a condition while they are
locked: the scheduler is suspended, or IRQs are masked. Dropping the guard of a lock releases
it and gives the condition up; `force_unlock` is for guards that were forgotten. The guard of
a mutex no longer suspends the scheduler, since it is downgraded when the mutex is acquired.

The functions are those of one context that is not preempted in between. `none` is a panic,
or the end of the system. `notify_cnt` is a natural number, for fewer than `2 ^ 32` notifications.
-/

namespace Hopter.Sync.Release

open Hopter.Task

/-- `ALLOW_TASK_PREEMPTION` and `MAX_TASK_NUMBER`. -/
structure Config where
  allowTaskPreemption : Bool
  maxTaskNumber : Nat

/-- The types with `MaskableIrq`: those that `irq!` declares, named by `ι`, all IRQs but SVC,
and tuples. -/
inductive Irq (ι : Type) where
  | declared (i : ι)
  | allIrqExceptSvc
  | tuple (t₀ t₁ : Irq ι)

inductive LockType (ι : Type) where
  | spin
  | spinIrqSafe (irq : Irq ι)
  | spinSchedSafe
  | spinSchedIrqSafe (irq : Irq ι)
  | mutex
  | mutexIrqSafe (irq : Irq ι)

structure State (ι τ : Type) where
  /-- `SUSPEND_CNT`. -/
  suspendCnt : BitVec 32
  /-- `PENDING_CTXT_SWITCH`. -/
  pendingCtxtSwitch : Bool
  /-- PendSV is pended. -/
  pendSv : Bool
  maskCnt : ι → BitVec 32
  /-- The IRQ is masked in the NVIC. -/
  masked : ι → Bool
  allIrqMaskCnt : BitVec 32
  /-- `BASEPRI` and the priority of SVC are raised. -/
  raised : Bool
  /-- The spin lock of the lock that is released. -/
  locked : Bool
  /-- The owner of the mutex, and the spin lock around it. -/
  owner : Option τ
  ownerLocked : Bool
  poisoned : Bool
  unwinding : Bool
  /-- The wait queue of the mutex. -/
  queue : List τ
  /-- A context that was preempted has full access to the wait queue. -/
  queueHeld : Bool
  notifyCnt : Nat
  cur : τ
  priority : τ → TaskPriority
  ready : List τ
  /-- A context that was preempted has full access to the ready queue. -/
  readyHeld : Bool
  insertBuffer : List τ

variable {ι τ : Type} [DecidableEq ι] [DecidableEq τ]

-- ---------------------------------------------------------------------------
-- Conditions
-- ---------------------------------------------------------------------------

namespace State

def suspend (s : State ι τ) : State ι τ := { s with suspendCnt := s.suspendCnt + 1 }

/-- `Scheduler::resume`, which is the drop of a `SchedSuspendGuard` and `force_unhold`. -/
def resume (s : State ι τ) : State ι τ :=
  let s := { s with suspendCnt := s.suspendCnt - 1 }
  if s.suspendCnt = 0 ∧ s.pendingCtxtSwitch = true then { s with pendSv := true } else s

end State

/-- `__enable_recursive`, which is the drop of a `HeldInterrupt` and `force_unhold`. -/
def Irq.enableRecursive : Irq ι → State ι τ → Option (State ι τ)
  | .declared i, s =>
    -- `assert!(prev_cnt > 0)`
    if s.maskCnt i = 0 then none
    else some
      { s with
        maskCnt := Function.update s.maskCnt i (s.maskCnt i - 1)
        masked := if s.maskCnt i = 1 then Function.update s.masked i false else s.masked }
  | .allIrqExceptSvc, s =>
    if s.allIrqMaskCnt = 0 then none
    else some
      { s with
        allIrqMaskCnt := s.allIrqMaskCnt - 1
        raised := if s.allIrqMaskCnt = 1 then false else s.raised }.resume
  | .tuple t₀ t₁, s => (t₁.enableRecursive s).bind t₀.enableRecursive

/-- A condition that is held: `H` in the source. -/
inductive Holdable (ι : Type) where
  | nothing
  | scheduler
  | irq (i : Irq ι)
  /-- `CompoundHoldable<Scheduler, H>`. -/
  | compound (h : Holdable ι)

/-- The drop of the guard of a condition. The guard of a compound condition is a pair with the
guard of the scheduler in the second place. -/
def Holdable.dropGuard : Holdable ι → State ι τ → Option (State ι τ)
  | .nothing, s => some s
  | .scheduler, s => some s.resume
  | .irq i, s => i.enableRecursive s
  | .compound h, s => (h.dropGuard s).map State.resume

/-- `force_unhold`. -/
def Holdable.forceUnhold : Holdable ι → State ι τ → Option (State ι τ)
  | .nothing, s => some s
  | .scheduler, s => some s.resume
  | .irq i, s => i.enableRecursive s
  | .compound h, s => (h.forceUnhold s).map State.resume

-- ---------------------------------------------------------------------------
-- Wait queues
-- ---------------------------------------------------------------------------

namespace State

/-- `should_preempt`. -/
def shouldPreempt (cfg : Config) (s : State ι τ) (t : τ) : Bool :=
  cfg.allowTaskPreemption && (s.priority t).effectivePriority < (s.priority s.cur).effectivePriority

/-- `accept_task`. -/
def acceptTask (cfg : Config) (s : State ι τ) (t : τ) : Option (State ι τ) :=
  let s := s.suspend
  if s.readyHeld = true then
    -- `enqueue(task).unwrap_or_die()`
    if s.insertBuffer.length < cfg.maxTaskNumber then
      some { s with insertBuffer := s.insertBuffer ++ [t] }.resume
    else none
  else some
    { s with
      pendingCtxtSwitch := s.pendingCtxtSwitch || s.shouldPreempt cfg t
      ready := s.ready ++ [t] }.resume

/-- `notify_one_allow_isr`. -/
def notifyOne (cfg : Config) (s : State ι τ) : Option (State ι τ) :=
  let s := s.suspend
  if s.queueHeld = true then some { s with notifyCnt := s.notifyCnt + 1 }.resume
  else
    match popHighestPriority (fun t => (s.priority t).effectivePriority) s.queue with
    | none => some s.resume
    | some (t, rest) => ({ s with queue := rest }.acceptTask cfg t).map resume

/-- `self.owner.lock_now_or_die().take()`, with the guard dropped at the end of the statement. -/
def takeOwner (s : State ι τ) : Option (State ι τ) :=
  if s.ownerLocked = true then none else some { s.suspend with owner := none }.resume

/-- The same, with the priority of the owner restored before the guard is dropped. -/
def takeOwnerAndRestore (s : State ι τ) : Option (State ι τ) :=
  if s.ownerLocked = true then none
  else
    match s.owner with
    | some t => some
      { s.suspend with
        owner := none
        priority := Function.update s.priority t (s.priority t).restoreIntrinsic }.resume
    | none => some s.suspend.resume

end State

-- ---------------------------------------------------------------------------
-- Locks
-- ---------------------------------------------------------------------------

/-- The drop of a `GenericSpinGuard` that holds `h`. -/
def dropSpinGuard (h : Holdable ι) (s : State ι τ) : Option (State ι τ) :=
  h.dropGuard { s with locked := false }

/-- `GenericSpin::force_unlock`. -/
def forceUnlockSpin (h : Holdable ι) (s : State ι τ) : Option (State ι τ) :=
  h.forceUnhold { s with locked := false }

/-- The drop of a `GenericMutexGuard`. -/
def dropMutexGuard (cfg : Config) (h : Holdable ι) (s : State ι τ) : Option (State ι τ) :=
  s.takeOwnerAndRestore.bind fun s =>
    let s := { s with poisoned := s.poisoned || s.unwinding }
    -- The inner guard was downgraded: it holds `h` only.
    (dropSpinGuard h s).bind (State.notifyOne cfg)

/-- `GenericMutex::force_unlock`. -/
def forceUnlockMutex (cfg : Config) (h : Holdable ι) (s : State ι τ) : Option (State ι τ) :=
  s.takeOwner.bind fun s => (forceUnlockSpin (.compound h) s).bind (State.notifyOne cfg)

/-- The drop of the guard of a lock. -/
def LockType.dropGuard (cfg : Config) : LockType ι → State ι τ → Option (State ι τ)
  | .spin => dropSpinGuard .nothing
  | .spinIrqSafe irq => dropSpinGuard (.irq irq)
  | .spinSchedSafe => dropSpinGuard .scheduler
  | .spinSchedIrqSafe irq => dropSpinGuard (.compound (.irq irq))
  | .mutex => dropMutexGuard cfg .nothing
  | .mutexIrqSafe irq => dropMutexGuard cfg (.irq irq)

/-- `force_unlock` on a lock whose guard was forgotten. -/
def LockType.forceUnlock (cfg : Config) : LockType ι → State ι τ → Option (State ι τ)
  | .spin => forceUnlockSpin .nothing
  | .spinIrqSafe irq => forceUnlockSpin (.irq irq)
  | .spinSchedSafe => forceUnlockSpin .scheduler
  | .spinSchedIrqSafe irq => forceUnlockSpin (.compound (.irq irq))
  | .mutex => forceUnlockMutex cfg .nothing
  | .mutexIrqSafe irq => forceUnlockMutex cfg (.irq irq)

def LockType.isSpin : LockType ι → Bool
  | .mutex | .mutexIrqSafe _ => false
  | _ => true

-- ---------------------------------------------------------------------------
-- Suspensions of the scheduler
-- ---------------------------------------------------------------------------

/-- How many suspensions of the scheduler belong to the masked IRQs. -/
def Irq.suspensions : Irq ι → Nat
  | .declared _ => 0
  | .allIrqExceptSvc => 1
  | .tuple t₀ t₁ => t₁.suspensions + t₀.suspensions

def Holdable.suspensions : Holdable ι → Nat
  | .nothing => 0
  | .scheduler => 1
  | .irq i => i.suspensions
  | .compound h => h.suspensions + 1

/-- How many suspensions of the scheduler belong to the guard of a lock. -/
def LockType.suspensions : LockType ι → Nat
  | .spin | .mutex => 0
  | .spinSchedSafe => 1
  | .spinIrqSafe irq | .mutexIrqSafe irq => irq.suspensions
  | .spinSchedIrqSafe irq => irq.suspensions + 1

variable {cfg : Config} {ty : LockType ι} {s s' : State ι τ}

/-- The state `s'` has `n` suspensions less than `s`. -/
def Unsuspends (n : Nat) (s s' : State ι τ) : Prop := s'.suspendCnt = s.suspendCnt - BitVec.ofNat 32 n

omit [DecidableEq ι] [DecidableEq τ] in
theorem Unsuspends.trans {s'' : State ι τ} {n k : Nat} (h : Unsuspends n s s') (h' : Unsuspends k s' s'') :
    Unsuspends (n + k) s s'' := by
  unfold Unsuspends at *
  rw [h', h, BitVec.ofNat_add]
  grind

omit [DecidableEq ι] [DecidableEq τ] in
@[simp] theorem suspendCnt_resume : s.resume.suspendCnt = s.suspendCnt - 1 := by
  unfold State.resume
  dsimp only
  split <;> rfl

omit [DecidableEq ι] [DecidableEq τ] in
/-- A section that suspends the scheduler and resumes it keeps the count. -/
theorem suspendCnt_section (h : s'.suspendCnt = s.suspend.suspendCnt) :
    s'.resume.suspendCnt = s.suspendCnt := by
  rw [suspendCnt_resume, h]
  exact BitVec.add_sub_cancel s.suspendCnt 1

omit [DecidableEq ι] [DecidableEq τ] in
theorem unsuspends_resume : Unsuspends 1 s s.resume := suspendCnt_resume

omit [DecidableEq τ] in
theorem Irq.enableRecursive_unsuspends {irq : Irq ι} (h : irq.enableRecursive s = some s') :
    Unsuspends irq.suspensions s s' := by
  induction irq generalizing s s' with
  | declared i =>
    simp only [enableRecursive] at h
    split at h
    · cases h
    · obtain rfl := Option.some.inj h
      simp [Unsuspends, suspensions]
  | allIrqExceptSvc =>
    simp only [enableRecursive] at h
    split at h
    · cases h
    · obtain rfl := Option.some.inj h
      exact suspendCnt_resume
  | tuple t₀ t₁ ih₀ ih₁ =>
    obtain ⟨s₁, h₁, h₀⟩ := Option.bind_eq_some_iff.mp h
    exact (ih₁ h₁).trans (ih₀ h₀)

omit [DecidableEq τ] in
theorem Holdable.dropGuard_unsuspends {h : Holdable ι} (hdrop : h.dropGuard s = some s') :
    Unsuspends h.suspensions s s' := by
  induction h generalizing s' with
  | nothing =>
    obtain rfl := Option.some.inj hdrop
    simp [Unsuspends, suspensions]
  | scheduler =>
    obtain rfl := Option.some.inj hdrop
    exact unsuspends_resume
  | irq i => exact i.enableRecursive_unsuspends hdrop
  | compound h ih =>
    obtain ⟨s₁, h₁, rfl⟩ := Option.map_eq_some_iff.mp hdrop
    exact (ih h₁).trans unsuspends_resume

omit [DecidableEq τ] in
/-- For a condition alone, the two ways to give it up are the same. -/
theorem Holdable.forceUnhold_eq (h : Holdable ι) (s : State ι τ) : h.forceUnhold s = h.dropGuard s := by
  induction h with
  | nothing | scheduler | irq i => rfl
  | compound h ih => simp only [forceUnhold, dropGuard, ih]

omit [DecidableEq ι] [DecidableEq τ] in
theorem suspendCnt_acceptTask {t : τ} (h : s.acceptTask cfg t = some s') : s'.suspendCnt = s.suspendCnt := by
  simp only [State.acceptTask] at h
  split at h
  · split at h
    · obtain rfl := Option.some.inj h
      exact suspendCnt_section rfl
    · cases h
  · obtain rfl := Option.some.inj h
    exact suspendCnt_section rfl

omit [DecidableEq ι] [DecidableEq τ] in
theorem suspendCnt_notifyOne (h : s.notifyOne cfg = some s') : s'.suspendCnt = s.suspendCnt := by
  simp only [State.notifyOne] at h
  split at h
  · obtain rfl := Option.some.inj h
    exact suspendCnt_section rfl
  · split at h
    · obtain rfl := Option.some.inj h
      exact suspendCnt_section rfl
    · obtain ⟨s₁, haccept, rfl⟩ := Option.map_eq_some_iff.mp h
      have hcnt := suspendCnt_acceptTask haccept
      exact suspendCnt_section (s := s) hcnt

omit [DecidableEq ι] in
theorem suspendCnt_takeOwnerAndRestore (h : s.takeOwnerAndRestore = some s') :
    s'.suspendCnt = s.suspendCnt := by
  simp only [State.takeOwnerAndRestore] at h
  split at h
  · cases h
  · split at h <;> obtain rfl := Option.some.inj h <;> exact suspendCnt_section rfl

omit [DecidableEq ι] [DecidableEq τ] in
theorem suspendCnt_takeOwner (h : s.takeOwner = some s') : s'.suspendCnt = s.suspendCnt := by
  simp only [State.takeOwner] at h
  split at h
  · cases h
  · obtain rfl := Option.some.inj h
    exact suspendCnt_section rfl

omit [DecidableEq τ] in
theorem dropSpinGuard_unsuspends {h : Holdable ι} (hdrop : dropSpinGuard h s = some s') :
    Unsuspends h.suspensions s s' := by
  have hheld := h.dropGuard_unsuspends hdrop
  exact hheld

/-- The drop of the guard of a mutex gives up what the guard holds. -/
theorem dropMutexGuard_unsuspends {h : Holdable ι} (hdrop : dropMutexGuard cfg h s = some s') :
    Unsuspends h.suspensions s s' := by
  simp only [dropMutexGuard, Option.bind_eq_some_iff] at hdrop
  obtain ⟨s₁, hown, s₂, hspin, hnotify⟩ := hdrop
  have hheld := h.dropGuard_unsuspends hspin
  unfold Unsuspends at hheld ⊢
  rw [suspendCnt_notifyOne hnotify, hheld, ← suspendCnt_takeOwnerAndRestore hown]

omit [DecidableEq τ] in
/-- `force_unlock` on a mutex resumes the scheduler once more. -/
theorem forceUnlockMutex_unsuspends {h : Holdable ι} (hforce : forceUnlockMutex cfg h s = some s') :
    Unsuspends (h.suspensions + 1) s s' := by
  simp only [forceUnlockMutex, forceUnlockSpin, Option.bind_eq_some_iff] at hforce
  obtain ⟨s₁, hown, s₂, hspin, hnotify⟩ := hforce
  rw [Holdable.forceUnhold_eq] at hspin
  have hheld := Holdable.dropGuard_unsuspends hspin
  unfold Unsuspends at hheld ⊢
  rw [suspendCnt_notifyOne hnotify, hheld, ← suspendCnt_takeOwner hown]
  rfl

-- ---------------------------------------------------------------------------
-- Forced release
-- ---------------------------------------------------------------------------

/-- The counters, the lock, its owner, the priorities and the wait queue are the same. -/
structure Same (s s' : State ι τ) : Prop where
  suspendCnt : s'.suspendCnt = s.suspendCnt
  maskCnt : s'.maskCnt = s.maskCnt
  allIrqMaskCnt : s'.allIrqMaskCnt = s.allIrqMaskCnt
  locked : s'.locked = s.locked
  owner : s'.owner = s.owner
  priority : s'.priority = s.priority
  queue : s'.queue = s.queue

omit [DecidableEq ι] [DecidableEq τ] in
theorem Same.refl (s : State ι τ) : Same s s := ⟨rfl, rfl, rfl, rfl, rfl, rfl, rfl⟩

omit [DecidableEq ι] [DecidableEq τ] in
theorem not_unsuspends_succ {s₁ s₂ : State ι τ} {n : Nat} (h₁ : Unsuspends n s s₁)
    (h₂ : Unsuspends (n + 1) s s₂) : s₂.suspendCnt ≠ s₁.suspendCnt := by
  unfold Unsuspends at h₁ h₂
  rw [h₁, h₂, BitVec.ofNat_add]
  intro heq
  have : (1 : BitVec 32) = 0 := by grind
  exact absurd this (by decide)

/-- Dropping a guard takes exactly its own suspensions off the count, and `force_unlock` does
the same as dropping the guard if and only if the lock is a spin lock. -/
theorem forceUnlock_iff_isSpin (hdrop : ty.dropGuard cfg s = some s') :
    Unsuspends ty.suspensions s s' ∧
      ((∃ s'', ty.forceUnlock cfg s = some s'' ∧ Same s' s'') ↔ ty.isSpin = true) := by
  -- The two functions of a spin lock are the same.
  have hspin : ∀ {h : Holdable ι}, dropSpinGuard h s = some s' →
      ∃ s'', forceUnlockSpin h s = some s'' ∧ Same s' s'' := by
    intro h hdrop
    refine ⟨s', ?_, Same.refl s'⟩
    rw [forceUnlockSpin, Holdable.forceUnhold_eq]
    exact hdrop
  have hmutex : ∀ {h : Holdable ι}, dropMutexGuard cfg h s = some s' →
      ¬ ∃ s'', forceUnlockMutex cfg h s = some s'' ∧ Same s' s'' := by
    rintro h hdrop ⟨s'', hforce, hsame⟩
    exact not_unsuspends_succ (dropMutexGuard_unsuspends hdrop) (forceUnlockMutex_unsuspends hforce)
      hsame.suspendCnt
  cases ty with
  | spin => exact ⟨dropSpinGuard_unsuspends (h := .nothing) hdrop, iff_of_true (hspin hdrop) rfl⟩
  | spinIrqSafe irq => exact ⟨dropSpinGuard_unsuspends (h := .irq irq) hdrop, iff_of_true (hspin hdrop) rfl⟩
  | spinSchedSafe => exact ⟨dropSpinGuard_unsuspends (h := .scheduler) hdrop, iff_of_true (hspin hdrop) rfl⟩
  | spinSchedIrqSafe irq =>
    exact ⟨dropSpinGuard_unsuspends (h := .compound (.irq irq)) hdrop, iff_of_true (hspin hdrop) rfl⟩
  | mutex =>
    exact ⟨dropMutexGuard_unsuspends (h := .nothing) hdrop, iff_of_false (hmutex hdrop) Bool.false_ne_true⟩
  | mutexIrqSafe irq =>
    exact ⟨dropMutexGuard_unsuspends (h := .irq irq) hdrop, iff_of_false (hmutex hdrop) Bool.false_ne_true⟩

/-- A state in which one lock is held and the scheduler is suspended `n` times. -/
def heldBy (n : BitVec 32) (priority : Nat → TaskPriority) (ready : List Nat) : State Nat Nat where
  suspendCnt := n
  pendingCtxtSwitch := false
  pendSv := false
  maskCnt _ := 0
  masked _ := false
  allIrqMaskCnt := 0
  raised := false
  locked := true
  owner := some 0
  ownerLocked := false
  poisoned := false
  unwinding := false
  queue := []
  queueHeld := false
  notifyCnt := 0
  cur := 0
  priority := priority
  ready := ready
  readyHeld := false
  insertBuffer := []

theorem forceUnlock_iff_isSpin_sched :
    ∃ s' s'' : State Nat Nat,
      LockType.spinSchedSafe.dropGuard ⟨true, 16⟩ (heldBy 1 (fun _ => .intrinsic 5) []) = some s' ∧
        LockType.spinSchedSafe.forceUnlock ⟨true, 16⟩ (heldBy 1 (fun _ => .intrinsic 5) []) = some s'' ∧
          Same s' s'' ∧ s'.suspendCnt = 0 := by
  obtain ⟨s', hdrop, hcnt⟩ : ∃ s' : State Nat Nat,
      LockType.spinSchedSafe.dropGuard ⟨true, 16⟩ (heldBy 1 (fun _ => .intrinsic 5) []) = some s' ∧
        s'.suspendCnt = 0 := ⟨_, rfl, rfl⟩
  obtain ⟨s'', hforce, hsame⟩ := (forceUnlock_iff_isSpin hdrop).2.mpr rfl
  exact ⟨s', s'', hdrop, hforce, hsame, hcnt⟩

/-- The owner of a mutex has inherited a priority. Dropping the guard restores its own and
leaves no suspension; `force_unlock` keeps the inherited one, and the count wraps. -/
theorem forceUnlock_mutex_wraps :
    let s : State Nat Nat := heldBy 0 (fun _ => .inherited 2 10) []
    (LockType.mutex.dropGuard ⟨true, 16⟩ s).map (fun s => (s.suspendCnt, s.priority 0)) =
        some (0, .intrinsic 10) ∧
      (LockType.mutex.forceUnlock ⟨true, 16⟩ s).map (fun s => (s.suspendCnt, s.priority 0)) =
        some (4294967295, .inherited 2 10) := by
  constructor <;> rfl

-- ---------------------------------------------------------------------------
-- Better tasks
-- ---------------------------------------------------------------------------

namespace State

/-- A context switch was requested. -/
def Requested (s : State ι τ) : Prop := s.pendingCtxtSwitch = true ∨ s.pendSv = true

/-- No ready task has a higher effective priority than the current one. -/
def NoneBetter (s : State ι τ) : Prop :=
  ∀ t ∈ s.ready, (s.priority s.cur).effectivePriority ≤ (s.priority t).effectivePriority

/-- The effective priority of a task when the owner of the mutex has given up what it has
inherited. -/
def ownPriority (s : State ι τ) (t : τ) : Nat :=
  if s.owner = some t then (s.priority t).intrinsicPriority else (s.priority t).effectivePriority

end State

/-- The tasks, the wait queue and the requests are the same. -/
structure SameTasks (s s' : State ι τ) : Prop where
  cur : s'.cur = s.cur
  priority : s'.priority = s.priority
  queue : s'.queue = s.queue
  queueHeld : s'.queueHeld = s.queueHeld
  ready : s'.ready = s.ready
  readyHeld : s'.readyHeld = s.readyHeld
  requested : s'.Requested ↔ s.Requested

omit [DecidableEq ι] [DecidableEq τ] in
theorem SameTasks.trans {s'' : State ι τ} (h : SameTasks s s') (h' : SameTasks s' s'') : SameTasks s s'' where
  cur := h'.cur.trans h.cur
  priority := h'.priority.trans h.priority
  queue := h'.queue.trans h.queue
  queueHeld := h'.queueHeld.trans h.queueHeld
  ready := h'.ready.trans h.ready
  readyHeld := h'.readyHeld.trans h.readyHeld
  requested := h'.requested.trans h.requested

omit [DecidableEq ι] [DecidableEq τ] in
theorem SameTasks.noneBetter (h : SameTasks s s') : s'.NoneBetter ↔ s.NoneBetter := by
  unfold State.NoneBetter
  rw [h.cur, h.priority, h.ready]

omit [DecidableEq ι] [DecidableEq τ] in
/-- Resuming the scheduler makes no new request: it pends PendSV for one that was made. -/
theorem sameTasks_resume : SameTasks s s.resume := by
  unfold State.resume
  dsimp only
  split
  · rename_i h
    exact ⟨rfl, rfl, rfl, rfl, rfl, rfl, iff_of_true (.inr rfl) (.inl h.2)⟩
  · exact ⟨rfl, rfl, rfl, rfl, rfl, rfl, Iff.rfl⟩

omit [DecidableEq τ] in
theorem Irq.enableRecursive_sameTasks {irq : Irq ι} (h : irq.enableRecursive s = some s') :
    SameTasks s s' := by
  induction irq generalizing s s' with
  | declared i =>
    simp only [enableRecursive] at h
    split at h
    · cases h
    · obtain rfl := Option.some.inj h
      exact ⟨rfl, rfl, rfl, rfl, rfl, rfl, Iff.rfl⟩
  | allIrqExceptSvc =>
    simp only [enableRecursive] at h
    split at h
    · cases h
    · obtain rfl := Option.some.inj h
      refine SameTasks.trans ?_ sameTasks_resume
      exact ⟨rfl, rfl, rfl, rfl, rfl, rfl, Iff.rfl⟩
  | tuple t₀ t₁ ih₀ ih₁ =>
    obtain ⟨s₁, h₁, h₀⟩ := Option.bind_eq_some_iff.mp h
    exact (ih₁ h₁).trans (ih₀ h₀)

omit [DecidableEq τ] in
theorem Holdable.dropGuard_sameTasks {h : Holdable ι} (hdrop : h.dropGuard s = some s') :
    SameTasks s s' := by
  induction h generalizing s' with
  | nothing =>
    obtain rfl := Option.some.inj hdrop
    exact ⟨rfl, rfl, rfl, rfl, rfl, rfl, Iff.rfl⟩
  | scheduler =>
    obtain rfl := Option.some.inj hdrop
    exact sameTasks_resume
  | irq i => exact i.enableRecursive_sameTasks hdrop
  | compound h ih =>
    obtain ⟨s₁, h₁, rfl⟩ := Option.map_eq_some_iff.mp hdrop
    exact (ih h₁).trans sameTasks_resume

omit [DecidableEq ι] in
/-- The priority of the owner is restored, and nothing is requested. -/
theorem takeOwnerAndRestore_sameTasks (h : s.takeOwnerAndRestore = some s') :
    ∃ p : τ → TaskPriority, (∀ t, (p t).effectivePriority = s.ownPriority t) ∧
      SameTasks { s with priority := p } s' := by
  simp only [State.takeOwnerAndRestore] at h
  split at h
  · cases h
  · split at h
    · rename_i t howner
      obtain rfl := Option.some.inj h
      refine ⟨Function.update s.priority t (s.priority t).restoreIntrinsic, ?_, ?_⟩
      · intro u
        simp only [State.ownPriority, howner, Option.some.injEq]
        split
        · rename_i htu
          subst htu
          rw [Function.update_self]
          rfl
        · rename_i htu
          rw [Function.update_of_ne (Ne.symm htu)]
      · refine SameTasks.trans ?_ sameTasks_resume
        exact ⟨rfl, rfl, rfl, rfl, rfl, rfl, Iff.rfl⟩
    · rename_i howner
      obtain rfl := Option.some.inj h
      refine ⟨s.priority, ?_, ?_⟩
      · intro u
        simp [State.ownPriority, howner]
      · refine SameTasks.trans ?_ sameTasks_resume
        exact ⟨rfl, rfl, rfl, rfl, rfl, rfl, Iff.rfl⟩

omit [DecidableEq ι] [DecidableEq τ] in
/-- When preemption is allowed, a task that is accepted is not better than the current one, or
a switch is requested. -/
theorem acceptTask_noneBetter (hallow : cfg.allowTaskPreemption = true) {t : τ}
    (h : s.acceptTask cfg t = some s') :
    s'.NoneBetter ∨ s'.Requested ↔
      s.Requested ∨
        (s.readyHeld = false ∧ (s.priority t).effectivePriority < (s.priority s.cur).effectivePriority) ∨
          s.NoneBetter := by
  simp only [State.acceptTask] at h
  split at h
  · rename_i hheld
    split at h
    · obtain rfl := Option.some.inj h
      rw [sameTasks_resume.noneBetter, sameTasks_resume.requested]
      have hheld : s.readyHeld = true := hheld
      simp [hheld, State.NoneBetter, State.Requested, State.suspend, or_comm]
    · cases h
  · rename_i hheld
    obtain rfl := Option.some.inj h
    rw [sameTasks_resume.noneBetter, sameTasks_resume.requested]
    have hheld : s.readyHeld = false := by simpa [State.suspend] using hheld
    simp only [State.NoneBetter, State.Requested, State.suspend, State.shouldPreempt, hallow, hheld]
    simp only [List.mem_append, List.mem_singleton, Bool.true_and, Bool.or_eq_true, decide_eq_true_eq,
      true_and]
    constructor
    · rintro (hbetter | (hpending | hlt) | hpend)
      · exact .inr (.inr fun u hu => hbetter u (.inl hu))
      · exact .inl (.inl hpending)
      · exact .inr (.inl hlt)
      · exact .inl (.inr hpend)
    · rintro ((hpending | hpend) | hlt | hbetter)
      · exact .inr (.inl (.inl hpending))
      · exact .inr (.inr hpend)
      · exact .inr (.inl (.inr hlt))
      · -- The accepted task is compared with the current one.
        by_cases hlt : (s.priority t).effectivePriority < (s.priority s.cur).effectivePriority
        · exact .inr (.inl (.inr hlt))
        · refine .inl ?_
          rintro u (hu | rfl)
          · exact hbetter u hu
          · exact Nat.le_of_not_lt hlt

omit [DecidableEq ι] [DecidableEq τ] in
/-- The only check that `notify_one` makes is against the waiter that it wakes. -/
theorem notifyOne_noneBetter (hallow : cfg.allowTaskPreemption = true) (h : s.notifyOne cfg = some s') :
    s'.NoneBetter ∨ s'.Requested ↔
      s.Requested ∨
        (s.queueHeld = false ∧ s.readyHeld = false ∧
            ∃ w ∈ s.queue, (s.priority w).effectivePriority < (s.priority s.cur).effectivePriority) ∨
          s.NoneBetter := by
  simp only [State.notifyOne] at h
  split at h
  · rename_i hheld
    have hheld : s.queueHeld = true := hheld
    obtain rfl := Option.some.inj h
    rw [sameTasks_resume.noneBetter, sameTasks_resume.requested]
    simp [hheld, State.NoneBetter, State.Requested, State.suspend, or_comm]
  · rename_i hheld
    have hheld : s.queueHeld = false := by simpa [State.suspend] using hheld
    obtain hnil | hcons := eq_or_ne s.queue []
    · have hpop : popHighestPriority (fun t => (s.suspend.priority t).effectivePriority) s.suspend.queue =
          none := by
        show popHighestPriority _ s.queue = none
        rw [hnil]
        exact popHighestPriority_nil _
      rw [hpop] at h
      obtain rfl := Option.some.inj h
      rw [sameTasks_resume.noneBetter, sameTasks_resume.requested]
      simp [hnil, State.NoneBetter, State.Requested, State.suspend, or_comm]
    · obtain ⟨t, rest, hpop, hperm, hmin⟩ :=
        popHighestPriority_spec (fun t => (s.priority t).effectivePriority) hcons
      have hpop : popHighestPriority (fun t => (s.suspend.priority t).effectivePriority) s.suspend.queue =
          some (t, rest) := hpop
      rw [hpop] at h
      obtain ⟨s₁, haccept, rfl⟩ := Option.map_eq_some_iff.mp h
      rw [sameTasks_resume.noneBetter, sameTasks_resume.requested, acceptTask_noneBetter hallow haccept]
      -- The waiter that is woken has the highest priority of the waiters.
      have hwaiter :
          (∃ w ∈ s.queue, (s.priority w).effectivePriority < (s.priority s.cur).effectivePriority) ↔
          (s.priority t).effectivePriority < (s.priority s.cur).effectivePriority := by
        constructor
        · rintro ⟨w, hw, hlt⟩
          exact Nat.lt_of_le_of_lt (hmin w hw) hlt
        · intro hlt
          exact ⟨t, hperm.mem_iff.mpr List.mem_cons_self, hlt⟩
      rw [hwaiter]
      simp [hheld, State.NoneBetter, State.Requested, State.suspend]

/-- With preemption allowed, dropping the guard of a mutex leaves no better task ready without
a request for a switch if and only if one was requested, a waiter is better than the current
task without what it has inherited, or no ready task is. -/
theorem dropMutexGuard_noneBetter (hallow : cfg.allowTaskPreemption = true) {h : Holdable ι}
    (hdrop : dropMutexGuard cfg h s = some s') :
    s'.NoneBetter ∨ s'.Requested ↔
      s.Requested ∨
        (s.queueHeld = false ∧ s.readyHeld = false ∧
            ∃ w ∈ s.queue, s.ownPriority w < s.ownPriority s.cur) ∨
          ∀ t ∈ s.ready, s.ownPriority s.cur ≤ s.ownPriority t := by
  simp only [dropMutexGuard, Option.bind_eq_some_iff] at hdrop
  obtain ⟨s₁, hown, s₂, hspin, hnotify⟩ := hdrop
  obtain ⟨p, hp, htasks⟩ := takeOwnerAndRestore_sameTasks hown
  have hsame : SameTasks { s with priority := p } s₂ := by
    refine SameTasks.trans ?_ (h.dropGuard_sameTasks hspin)
    exact ⟨htasks.cur, htasks.priority, htasks.queue, htasks.queueHeld, htasks.ready, htasks.readyHeld,
      htasks.requested⟩
  rw [notifyOne_noneBetter hallow hnotify, hsame.noneBetter, hsame.requested, hsame.queue, hsame.queueHeld,
    hsame.readyHeld, hsame.priority, hsame.cur]
  simp only [State.NoneBetter, State.Requested, hp]

/-- The owner has inherited the priority of a task that then waits for the mutex. -/
theorem dropMutexGuard_noneBetter_waiter :
    ∃ s' : State Nat Nat,
      LockType.mutex.dropGuard ⟨true, 16⟩
          { heldBy 0 (fun t => if t = 0 then .inherited 2 10 else .intrinsic 2) [] with queue := [1] } =
            some s' ∧
        (s'.NoneBetter ∨ s'.Requested) := by
  obtain ⟨s', hdrop⟩ : ∃ s' : State Nat Nat,
      dropMutexGuard ⟨true, 16⟩ .nothing
          { heldBy 0 (fun t => if t = 0 then .inherited 2 10 else .intrinsic 2) [] with queue := [1] } =
            some s' :=
    ⟨_, rfl⟩
  refine ⟨s', hdrop, (dropMutexGuard_noneBetter rfl hdrop).mpr (.inr (.inl ⟨rfl, rfl, 1, ?_, ?_⟩))⟩
  · decide
  · decide

/-- The current task has inherited priority 2 from a contender that was preempted before it
queued, and a task of priority 5 has become ready. Dropping the guard lowers the current task
to 10, and no switch is requested. -/
theorem dropMutexGuard_better :
    let s : State Nat Nat :=
      heldBy 0 (fun t => if t = 0 then .inherited 2 10 else if t = 1 then .intrinsic 5 else .intrinsic 2)
        [1, 2]
    s.NoneBetter ∧
      ∃ s' : State Nat Nat,
        LockType.mutex.dropGuard ⟨true, 16⟩ s = some s' ∧ ¬ s'.NoneBetter ∧ ¬ s'.Requested := by
  refine ⟨?_, _, rfl, ?_, ?_⟩
  · unfold State.NoneBetter
    decide
  · unfold State.NoneBetter
    decide
  · unfold State.Requested
    decide

end Hopter.Sync.Release
