-- SUMMARY: The spin lock around the owner of a mutex, when interrupt handlers lock the mutex as well.
import Hopter.Base.Nest
import Hopter.Base.Run
import Hopter.Task.Priority

/-!
# The owner of a mutex

`src/sync/mutex.rs` and `src/sync/spin_lock.rs` again, at the level of single atomic
accesses. The field `owner` of a mutex has a spin lock of its own, which is taken with
`lock_now_or_die` in three places: in `try_lock`, when a task has taken the mutex; in
`lock`, when it has not, to lend its priority; and in the drop of a guard. A handler may
run `try_lock` and drop the guard at any point. Spin locks suspend the scheduler before
they are taken, and resume it after they are released.

Which tasks the wait queue wakes is left open here: a task in `wait_until` may run at any
time.
-/

namespace Hopter.Sync.OwnerLock

open Hopter.Task

-- ---------------------------------------------------------------------------
-- Model
-- ---------------------------------------------------------------------------

/-- Where `try_lock` is called from. -/
inductive Caller where
  | client
  /-- The fast path of `lock`. -/
  | lock
  /-- The condition that `lock` gives to `wait_until`. -/
  | waitUntil

/-- What the owner field is locked for with the current task. -/
inductive CurUse where
  | setOwner (k : Caller)
  | inherit

/-- What the owner field is locked for. -/
inductive Use where
  /-- In a closure that `with_cur_task` runs. -/
  | withCurTask (w : CurUse)
  | drop

/-- The next access of `owner.lock_now_or_die()`, or of the code with its guard. -/
inductive OwnerStage where
  /-- `raw_spin.is_locked()`. -/
  | isLocked
  | hold
  /-- `raw_spin.try_lock()`. -/
  | rawTryLock
  /-- The owner is read or written. -/
  | access
  | unlock
  | unhold

/-- The next access of a context to the mutex `m`. -/
inductive Phase (M : Type) where
  | idle
  /-- `raw_spin.is_locked()` in `try_lock`. -/
  | isLocked (m : M) (k : Caller)
  | hold (m : M) (k : Caller)
  /-- `raw_spin.try_lock()`. -/
  | rawTryLock (m : M) (k : Caller)
  /-- `try_lock` has failed, and drops `_held`. -/
  | unhold (m : M) (k : Caller)
  /-- `with_cur_task` suspends the scheduler. -/
  | enter (m : M) (w : CurUse)
  | owner (m : M) (u : Use) (stage : OwnerStage)
  /-- `with_cur_task` resumes the scheduler. -/
  | leave (m : M) (w : CurUse)
  /-- The guard is downgraded: the scheduler is resumed. -/
  | downgrade (m : M) (k : Caller)
  /-- The head of the loop of `wait_until`. -/
  | waitUntil (m : M)
  /-- The access to the wait queue ends. -/
  | waited (m : M) (found : Bool)
  /-- The drop of a guard releases the spin lock of the mutex. -/
  | release (m : M)

structure Context (M : Type) where
  phase : Phase M
  /-- The mutexes whose guards the context holds. -/
  guards : List M

structure State (M τ : Type) where
  /-- The spin lock of the mutex. -/
  locked : M → Bool
  /-- The spin lock of its owner field. -/
  ownerLocked : M → Bool
  owner : M → Option τ
  priority : τ → TaskPriority
  /-- `SUSPEND_CNT`. -/
  suspendCnt : Nat
  nest : Nest τ (Context M)
  /-- `lock_now_or_die` has failed. -/
  died : Bool

inductive Call (M : Type) where
  | lock (m : M)
  | tryLock (m : M)
  /-- The guard of the mutex is dropped. -/
  | drop (m : M)

inductive Action (M τ : Type) where
  | call (c : Call M)
  /-- The context that runs goes on by one access. -/
  | next
  /-- A handler starts. -/
  | preempt
  | iret
  /-- PendSV switches to another task. -/
  | switch (t : τ)

variable {M τ : Type} [DecidableEq M] [DecidableEq τ]

/-- Where a context goes on when `try_lock` has returned `None`. -/
def Caller.failed (m : M) : Caller → Phase M
  | .client => .idle
  | .lock => .enter m .inherit
  | .waitUntil => .waited m false

/-- Where it goes on when `try_lock` has returned a guard. -/
def Caller.acquired (m : M) : Caller → Phase M
  | .client | .lock => .idle
  | .waitUntil => .waited m true

namespace State

def init (current : τ) (priority : τ → TaskPriority) : State M τ :=
  ⟨fun _ => false, fun _ => false, fun _ => none, priority, 0, ⟨fun _ => ⟨.idle, []⟩, current, []⟩, false⟩

/-- `is_in_isr_context`. -/
def inIsr (s : State M τ) : Bool := !s.nest.handlers.isEmpty

/-- The context that runs goes on with `phase`. -/
def goto (s : State M τ) (phase : Phase M) : State M τ :=
  { s with nest := s.nest.setTop ⟨phase, s.nest.top.guards⟩ }

def suspend (s : State M τ) : State M τ := { s with suspendCnt := s.suspendCnt + 1 }

def resume (s : State M τ) : State M τ := { s with suspendCnt := s.suspendCnt - 1 }

def die (s : State M τ) : State M τ := { s with died := true }

/-- The owner is recorded, lent a priority, or taken out of its field. -/
def useOwner (s : State M τ) (m : M) : Use → State M τ
  | .withCurTask (.setOwner _) => { s with owner := Function.update s.owner m (some s.nest.current) }
  | .withCurTask .inherit =>
    match s.owner m with
    | some t =>
      { s with
        priority := Function.update s.priority t
          ((s.priority t).ceilPriorityFrom (s.priority s.nest.current)) }
    | none => s
  | .drop =>
    match s.owner m with
    | some t =>
      { s with
        owner := Function.update s.owner m none
        priority := Function.update s.priority t (s.priority t).restoreIntrinsic }
    | none => s

/-- Where a context goes on when it has unlocked the owner field. -/
def afterOwner (m : M) : Use → Phase M
  | .withCurTask w => .leave m w
  | .drop => .release m

/-- Where a context goes on after `with_cur_task`. -/
def afterCurTask (m : M) : CurUse → Phase M
  | .setOwner k => .downgrade m k
  | .inherit => .waitUntil m

/-- An access to the owner field. -/
def runOwner (s : State M τ) (m : M) (u : Use) : OwnerStage → State M τ
  | .isLocked => if s.ownerLocked m = true then s.die else s.goto (.owner m u .hold)
  | .hold => s.suspend.goto (.owner m u .rawTryLock)
  | .rawTryLock =>
    if s.ownerLocked m = true then s.die
    else { s with ownerLocked := Function.update s.ownerLocked m true }.goto (.owner m u .access)
  | .access => (s.useOwner m u).goto (.owner m u .unlock)
  | .unlock => { s with ownerLocked := Function.update s.ownerLocked m false }.goto (.owner m u .unhold)
  | .unhold => s.resume.goto (afterOwner m u)

/-- One access of the context that runs. `none` when it is in no call, or panics. -/
def next (s : State M τ) : Option (State M τ) :=
  match s.nest.top.phase with
  | .idle => none
  | .isLocked m k => some (s.goto (if s.locked m = true then k.failed m else .hold m k))
  | .hold m k => some (s.suspend.goto (.rawTryLock m k))
  | .rawTryLock m k =>
    if s.locked m = true then some (s.goto (.unhold m k))
    else some ({ s with locked := Function.update s.locked m true }.goto
      (if s.inIsr = true then .downgrade m k else .enter m (.setOwner k)))
  | .unhold m k => some (s.resume.goto (k.failed m))
  | .enter m w => some (s.suspend.goto (.owner m (.withCurTask w) .isLocked))
  | .owner m u stage => some (s.runOwner m u stage)
  | .leave m w => some (s.resume.goto (afterCurTask m w))
  | .downgrade m k => some
    { s.resume with nest := s.nest.setTop ⟨k.acquired m, m :: s.nest.top.guards⟩ }
  | .waitUntil m =>
    -- `if Scheduler::is_suspended() ... panic!()`
    if s.suspendCnt = 0 then some (s.suspend.goto (.isLocked m .waitUntil)) else none
  | .waited m found => some (s.resume.goto (if found = true then .idle else .waitUntil m))
  | .release m => some ({ s with locked := Function.update s.locked m false }.goto .idle)

/-- One step. Handlers do not block, so they do not call `lock`, and they drop their guards
before they return. -/
def step (s : State M τ) : Action M τ → Option (State M τ)
  | .call c =>
    match s.died, s.nest.top.phase, c with
    | false, .idle, .lock m => if s.inIsr = true then none else some (s.goto (.isLocked m .lock))
    | false, .idle, .tryLock m => some (s.goto (.isLocked m .client))
    | false, .idle, .drop m =>
      if m ∈ s.nest.top.guards then
        some { s with nest := s.nest.setTop ⟨.owner m .drop .isLocked, s.nest.top.guards.erase m⟩ }
      else none
    | _, _, _ => none
  | .next => if s.died = true then none else s.next
  | .preempt => if s.died = true then none else some { s with nest := s.nest.push ⟨.idle, []⟩ }
  | .iret =>
    match s.died, s.nest.handlers with
    | false, ⟨.idle, []⟩ :: _ => some { s with nest := s.nest.pop }
    | _, _ => none
  | .switch t =>
    if s.died = false ∧ s.nest.handlers = [] ∧ s.suspendCnt = 0 then some { s with nest := s.nest.switch t }
    else none

end State

-- ---------------------------------------------------------------------------
-- What the contexts hold
-- ---------------------------------------------------------------------------

/-- The suspensions of the scheduler by the code that calls `try_lock`. -/
def Caller.suspensions : Caller → Nat
  | .client | .lock => 0
  | .waitUntil => 1

def CurUse.suspensions : CurUse → Nat
  | .setOwner k => k.suspensions + 1
  | .inherit => 0

/-- The suspensions outside of the spin lock of the owner field. -/
def Use.suspensions : Use → Nat
  | .withCurTask w => w.suspensions + 1
  | .drop => 0

/-- The suspension by the spin lock of the owner field. -/
def OwnerStage.suspensions : OwnerStage → Nat
  | .isLocked | .hold => 0
  | .rawTryLock | .access | .unlock | .unhold => 1

/-- How many times the context has suspended the scheduler. -/
def Phase.suspensions : Phase M → Nat
  | .idle | .waitUntil _ | .release _ => 0
  | .isLocked _ k | .hold _ k => k.suspensions
  | .rawTryLock _ k | .unhold _ k | .downgrade _ k => k.suspensions + 1
  | .enter _ w => w.suspensions
  | .owner _ u stage => u.suspensions + stage.suspensions
  | .leave _ w => w.suspensions + 1
  | .waited _ _ => 1

/-- The mutex is held by the context that locks its owner field. -/
def CurUse.raw : CurUse → Bool
  | .setOwner _ => true
  | .inherit => false

def Use.raw : Use → Bool
  | .withCurTask w => w.raw
  | .drop => true

/-- The context has taken the spin lock of the mutex in the call that it is in. -/
def Phase.raw (m : M) : Phase M → Bool
  | .enter m' w | .leave m' w => decide (m' = m) && w.raw
  | .owner m' u _ => decide (m' = m) && u.raw
  | .downgrade m' _ | .release m' => m' = m
  | _ => false

def OwnerStage.locks : OwnerStage → Bool
  | .access | .unlock => true
  | _ => false

/-- The context has locked the owner field of the mutex. -/
def Phase.locksOwner (m : M) : Phase M → Bool
  | .owner m' _ stage => decide (m' = m) && stage.locks
  | _ => false

/-- A task lends its priority to the owner of the mutex, and has locked the owner field. -/
def Phase.lends (m : M) : Phase M → Bool
  | .owner m' (.withCurTask .inherit) stage => decide (m' = m) && stage.locks
  | _ => false

/-- Handlers call `try_lock` and drop guards. -/
def Caller.ofHandler : Caller → Bool
  | .client => true
  | .lock | .waitUntil => false

def Phase.ofHandler : Phase M → Bool
  | .idle | .owner _ .drop _ | .release _ => true
  | .isLocked _ k | .hold _ k | .rawTryLock _ k | .unhold _ k | .downgrade _ k => k.ofHandler
  | _ => false

namespace Context

def suspensions (c : Context M) : Nat := c.phase.suspensions

/-- How many times the context holds the spin lock of the mutex. -/
def raw (m : M) (c : Context M) : Nat := c.guards.count m + (c.phase.raw m).toNat

def locksOwner (m : M) (c : Context M) : Nat := (c.phase.locksOwner m).toNat

end Context

variable [Fintype τ] {s s' : State M τ} {m : M}

/-- The two spin locks are held by one context at most, only the current task and the handlers
suspend the scheduler, and a handler holds no mutex whose owner field the current task has
locked to lend its priority. -/
structure Inv (s : State M τ) : Prop where
  alive : s.died = false
  raw : ∀ m, s.nest.total (Context.raw m) = (s.locked m).toNat
  owner : ∀ m, s.nest.total (Context.locksOwner m) = (s.ownerLocked m).toNat
  suspended : s.nest.total Context.suspensions = s.suspendCnt
  away : ∀ t ≠ s.nest.current, (s.nest.task t).suspensions = 0
  handlers : ∀ c ∈ s.nest.handlers, c.phase.ofHandler = true
  apart : ∀ c ∈ s.nest.handlers, ∀ m, 0 < c.raw m → (s.nest.task s.nest.current).phase.lends m = false

/-- The mutex whose spin lock the context is about to take. -/
def Phase.takes : Phase M → Option M
  | .rawTryLock m _ => some m
  | _ => none

/-- A handler takes a mutex that is free only while the current task does not have its owner
field locked to lend its priority. -/
def Orderly (s : State M τ) : Action M τ → Prop
  | .next => ∀ m ∈ s.nest.top.phase.takes, s.inIsr = true → s.locked m = false →
      (s.nest.task s.nest.current).phase.lends m = false
  | _ => True

instance (s : State M τ) : (a : Action M τ) → Decidable (Orderly s a)
  | .next => inferInstanceAs (Decidable (∀ m ∈ s.nest.top.phase.takes, _))
  | .call _ | .preempt | .iret | .switch _ => isTrue trivial

/-- The owner field is locked with the scheduler suspended. -/
theorem Phase.suspensions_of_locksOwner {p : Phase M} (h : p.locksOwner m = true) : 0 < p.suspensions := by
  cases p with
  | owner m' u stage =>
    cases stage with
    | access | unlock => exact Nat.succ_pos _
    | isLocked | hold | rawTryLock | unhold => simp [locksOwner, OwnerStage.locks] at h
  | _ => cases h

/-- Whoever has locked the owner field holds the mutex, or lends its priority. -/
theorem Phase.raw_or_lends {p : Phase M} (h : p.locksOwner m = true) : p.raw m = true ∨ p.lends m = true := by
  cases p with
  | owner m' u stage =>
    have hm : m' = m := by
      simp only [locksOwner, Bool.and_eq_true, decide_eq_true_eq] at h
      exact h.1
    cases u with
    | withCurTask w =>
      cases w with
      | setOwner k => exact Or.inl (by simp [raw, Use.raw, CurUse.raw, hm])
      | inherit => exact Or.inr h
    | drop => exact Or.inl (by simp [raw, Use.raw, hm])
  | _ => cases h

theorem Phase.not_lends_of_ofHandler {p : Phase M} (h : p.ofHandler = true) : p.lends m = false := by
  unfold Phase.lends
  split
  · cases h
  · rfl

omit [DecidableEq τ] in
/-- Only the current task locks the owner field. -/
theorem Inv.eq_current (h : Inv s) {t : τ} (hown : (s.nest.task t).phase.locksOwner m = true) :
    t = s.nest.current := by
  by_contra ht
  have hzero := h.away t ht
  have := Phase.suspensions_of_locksOwner hown
  simp only [Context.suspensions] at hzero
  omega

omit [DecidableEq τ] in
/-- When a context is about to lock the owner field, it finds it free. -/
theorem Inv.owner_free (h : Inv s) {u : Use} {stage : OwnerStage}
    (hphase : s.nest.top.phase = .owner m u stage) (hfree : s.nest.top.phase.locksOwner m = false) :
    s.ownerLocked m = false := by
  by_contra hlocked
  have htotal := h.owner m
  rw [Bool.not_eq_false] at hlocked
  rw [hlocked, Bool.toNat_true] at htotal
  obtain ⟨c, hc, hpos⟩ := Nest.exists_of_total_pos (f := Context.locksOwner m) (n := s.nest) (by omega)
  have hown : c.phase.locksOwner m = true := by
    by_contra hnot
    rw [Bool.not_eq_true] at hnot
    simp [Context.locksOwner, hnot] at hpos
  -- The mutex has one holder.
  have hle : s.nest.total (Context.raw m) ≤ 1 := by
    rw [h.raw m]
    exact Bool.toNat_le _
  have hraw : ∀ {d : Context M}, d.phase.raw m = true → 0 < d.raw m := by
    intro d hd
    simp [Context.raw, hd]
  cases hhandlers : s.nest.handlers with
  | nil =>
    have htop : s.nest.top = s.nest.task s.nest.current := by simp [Nest.top, hhandlers]
    rcases hc with ⟨t, rfl⟩ | hc
    · obtain rfl := h.eq_current hown
      rw [htop] at hfree
      simp [hfree] at hown
    · simp [hhandlers] at hc
  | cons x rest =>
    have htop : s.nest.top = x := by simp [Nest.top, hhandlers]
    have hx : x ∈ s.nest.handlers := by simp [hhandlers]
    have hxHandler := h.handlers x hx
    rw [htop] at hphase hfree
    have hxraw : x.phase.raw m = true := by
      rw [hphase] at hxHandler ⊢
      cases u with
      | drop => simp [Phase.raw, Use.raw]
      | withCurTask w => cases hxHandler
    rcases hc with ⟨t, rfl⟩ | hc
    · obtain rfl := h.eq_current hown
      rcases Phase.raw_or_lends hown with hr | hl
      · have := Nest.add_le_total_of_mem (f := Context.raw m) (t := s.nest.current) hx
        have := hraw hxraw
        have := hraw hr
        omega
      · simp [h.apart x hx m (hraw hxraw)] at hl
    · have hcHandler := h.handlers c hc
      rw [hhandlers] at hc
      rcases List.mem_cons.mp hc with rfl | hc
      · simp [hfree] at hown
      · rcases Phase.raw_or_lends hown with hr | hl
        · have := Nest.add_le_total_of_cons (f := Context.raw m) hhandlers hc
          have := hraw hxraw
          have := hraw hr
          omega
        · simp [Phase.not_lends_of_ofHandler hcHandler] at hl

-- ---------------------------------------------------------------------------
-- Steps
-- ---------------------------------------------------------------------------

/-- The context that runs becomes `c`, and the locks and the counter follow it. -/
theorem Inv.setTop (h : Inv s) {c : Context M} (hnest : s'.nest = s.nest.setTop c) (hdied : s'.died = s.died)
    (hraw : ∀ m, (s'.locked m).toNat + s.nest.top.raw m = (s.locked m).toNat + c.raw m)
    (howner : ∀ m, (s'.ownerLocked m).toNat + s.nest.top.locksOwner m = (s.ownerLocked m).toNat + c.locksOwner m)
    (hsuspended : s'.suspendCnt + s.nest.top.suspensions = s.suspendCnt + c.suspensions)
    (hhandler : s.inIsr = true → s.nest.top.phase.ofHandler = true → c.phase.ofHandler = true)
    (hgain : s.inIsr = true → ∀ m, 0 < c.raw m → s.nest.top.raw m = 0 →
      (s.nest.task s.nest.current).phase.lends m = false) : Inv s' := by
  have htotal : ∀ f : Context M → Nat, s'.nest.total f + f s.nest.top = s.nest.total f + f c := by
    intro f
    rw [hnest]
    exact Nest.total_setTop
  have hcontexts : (∀ t ≠ s'.nest.current, (s'.nest.task t).suspensions = 0) ∧
      (∀ c ∈ s'.nest.handlers, c.phase.ofHandler = true) ∧
      ∀ c ∈ s'.nest.handlers, ∀ m, 0 < c.raw m → (s'.nest.task s'.nest.current).phase.lends m = false := by
    cases hhandlers : s.nest.handlers with
    | nil =>
      rw [hnest, Nest.setTop_task hhandlers]
      refine ⟨fun t ht => ?_, by simp [hhandlers], by simp [hhandlers]⟩
      simp only at ht ⊢
      rw [Function.update_of_ne ht]
      exact h.away t ht
    | cons x rest =>
      have htop : s.nest.top = x := by simp [Nest.top, hhandlers]
      have hisr : s.inIsr = true := by simp [State.inIsr, hhandlers]
      have hmem : ∀ d ∈ x :: rest, d.phase.ofHandler = true := hhandlers ▸ h.handlers
      have hapart := h.apart
      rw [hhandlers] at hapart
      rw [hnest, Nest.setTop_handler hhandlers]
      refine ⟨h.away, List.forall_mem_cons.mpr ⟨hhandler hisr ?_, fun d hd => hmem d (by simp [hd])⟩,
        List.forall_mem_cons.mpr ⟨fun m hm => ?_, fun d hd => hapart d (by simp [hd])⟩⟩
      · rw [htop]
        exact hmem x (by simp)
      · by_cases hzero : s.nest.top.raw m = 0
        · exact hgain hisr m hm hzero
        · exact hapart x (by simp) m (by rw [← htop]; omega)
  refine ⟨hdied.trans h.alive, fun m => ?_, fun m => ?_, ?_, hcontexts.1, hcontexts.2.1, hcontexts.2.2⟩
  · have := htotal (Context.raw m)
    have := hraw m
    have := h.raw m
    omega
  · have := htotal (Context.locksOwner m)
    have := howner m
    have := h.owner m
    omega
  · have := htotal Context.suspensions
    have := h.suspended
    omega

/-- The context that runs goes on to the phase `p`, with the guards that it has. -/
theorem Inv.goto (h : Inv s) {p₀ p : Phase M} (hphase : s.nest.top.phase = p₀)
    (hnest : s'.nest = s.nest.setTop ⟨p, s.nest.top.guards⟩) (hdied : s'.died = s.died)
    (hraw : ∀ m, (s'.locked m).toNat + (p₀.raw m).toNat = (s.locked m).toNat + (p.raw m).toNat)
    (howner : ∀ m, (s'.ownerLocked m).toNat + (p₀.locksOwner m).toNat =
      (s.ownerLocked m).toNat + (p.locksOwner m).toNat)
    (hsuspended : s'.suspendCnt + p₀.suspensions = s.suspendCnt + p.suspensions)
    (hhandler : s.inIsr = true → p₀.ofHandler = true → p.ofHandler = true)
    (hgain : s.inIsr = true → ∀ m, p.raw m = true → p₀.raw m = false →
      (s.nest.task s.nest.current).phase.lends m = false) : Inv s' := by
  subst hphase
  refine h.setTop hnest hdied (fun m => ?_) howner hsuspended hhandler fun hisr m hpos hzero => ?_
  · have := hraw m
    simp only [Context.raw]
    omega
  · simp only [Context.raw] at hpos hzero
    refine hgain hisr m ?_ ?_
    · cases hp : p.raw m with
      | true => rfl
      | false =>
        rw [hp] at hpos
        simp only [Bool.toNat_false] at hpos
        omega
    · cases hp : s.nest.top.phase.raw m with
      | true => simp [hp] at hzero
      | false => rfl

/-- A step that takes and releases no spin lock. -/
theorem Inv.walk (h : Inv s) {p₀ p : Phase M} (hphase : s.nest.top.phase = p₀)
    (hnest : s'.nest = s.nest.setTop ⟨p, s.nest.top.guards⟩) (hdied : s'.died = s.died)
    (hlocked : s'.locked = s.locked) (hownerLocked : s'.ownerLocked = s.ownerLocked)
    (hraw : ∀ m, p.raw m = p₀.raw m) (howner : ∀ m, p.locksOwner m = p₀.locksOwner m)
    (hsuspended : s'.suspendCnt + p₀.suspensions = s.suspendCnt + p.suspensions)
    (hhandler : s.inIsr = true → p₀.ofHandler = true → p.ofHandler = true) : Inv s' := by
  refine h.goto hphase hnest hdied (fun m => ?_) (fun m => ?_) hsuspended hhandler fun _ m hr hn => ?_
  · rw [hlocked, hraw m]
  · rw [hownerLocked, howner m]
  · rw [hraw m, hn] at hr
    cases hr

omit [DecidableEq τ] in
/-- The count covers the suspensions of the context that runs. -/
theorem Inv.le_suspendCnt (h : Inv s) : s.nest.top.phase.suspensions ≤ s.suspendCnt := by
  rw [← h.suspended]
  exact Nest.le_total (f := Context.suspensions) s.nest.has_top

omit [Fintype τ] in
theorem State.useOwner_eq (s : State M τ) (m : M) (u : Use) : (s.useOwner m u).locked = s.locked ∧
    (s.useOwner m u).ownerLocked = s.ownerLocked ∧ (s.useOwner m u).suspendCnt = s.suspendCnt ∧
      (s.useOwner m u).nest = s.nest ∧ (s.useOwner m u).died = s.died := by
  unfold useOwner
  split
  · exact ⟨rfl, rfl, rfl, rfl, rfl⟩
  · split <;> exact ⟨rfl, rfl, rfl, rfl, rfl⟩
  · split <;> exact ⟨rfl, rfl, rfl, rfl, rfl⟩

/-- One access to the owner field. -/
theorem Inv.runOwner (h : Inv s) {u : Use} {stage : OwnerStage}
    (hphase : s.nest.top.phase = .owner m u stage) : Inv (s.runOwner m u stage) := by
  have hle := h.le_suspendCnt
  have hfree := h.owner_free hphase
  rw [hphase] at hle hfree
  have hsame : ∀ {stage'}, (Phase.owner m u stage).ofHandler = true →
      (Phase.owner m u stage').ofHandler = true := fun h => by
    cases u with
    | withCurTask w => cases h
    | drop => rfl
  cases stage with
  | isLocked =>
    simp only [State.runOwner, hfree (by simp [Phase.locksOwner, OwnerStage.locks]), Bool.false_eq_true, if_false]
    exact h.walk hphase rfl rfl rfl rfl (fun _ => rfl) (fun _ => rfl) rfl fun _ => hsame
  | hold =>
    refine h.walk hphase rfl rfl rfl rfl (fun _ => rfl) (fun _ => rfl) ?_ fun _ => hsame
    exact Nat.add_right_comm _ _ _
  | rawTryLock =>
    have hfree := hfree (by simp [Phase.locksOwner, OwnerStage.locks])
    simp only [State.runOwner, hfree, Bool.false_eq_true, if_false]
    refine h.goto hphase rfl rfl (fun _ => rfl) (fun m' => ?_) rfl (fun _ => hsame) fun _ m' hr hn => ?_
    · by_cases hm : m' = m
      · subst hm
        simp [State.goto, Phase.locksOwner, OwnerStage.locks, hfree]
      · simp [State.goto, Phase.locksOwner, OwnerStage.locks, Function.update_of_ne hm, Ne.symm hm]
    · cases hn.symm.trans hr
  | access =>
    obtain ⟨hlocked, howner, hcnt, hnest, hdied⟩ := s.useOwner_eq m u
    refine h.walk (p := .owner m u .unlock) hphase ?_ hdied hlocked howner (fun _ => rfl) (fun _ => rfl) ?_
      fun _ => hsame
    · simp only [State.runOwner, State.goto, hnest]
    · simp only [State.runOwner, State.goto, hcnt]
      rfl
  | unlock =>
    have hlocked : s.ownerLocked m = true := by
      have hle : s.nest.top.locksOwner m ≤ _ := Nest.le_total (f := Context.locksOwner m) s.nest.has_top
      rw [h.owner m] at hle
      simp only [Context.locksOwner, hphase, Phase.locksOwner, OwnerStage.locks, decide_true,
        Bool.and_self, Bool.toNat_true] at hle
      cases hcase : s.ownerLocked m with
      | true => rfl
      | false => simp [hcase] at hle
    refine h.goto hphase rfl rfl (fun _ => rfl) (fun m' => ?_) rfl (fun _ => hsame) fun _ m' hr hn => ?_
    · by_cases hm : m' = m
      · subst hm
        simp [State.runOwner, State.goto, Phase.locksOwner, OwnerStage.locks, hlocked]
      · simp [State.runOwner, State.goto, Phase.locksOwner, OwnerStage.locks, Function.update_of_ne hm, Ne.symm hm]
    · cases hn.symm.trans hr
  | unhold =>
    have hpos : 1 ≤ s.suspendCnt := Nat.le_trans (Nat.le_add_left 1 _) hle
    have hcnt : s.suspendCnt - 1 + 1 = s.suspendCnt := Nat.sub_add_cancel hpos
    cases u with
    | withCurTask w =>
      refine h.walk hphase rfl rfl rfl rfl (fun _ => rfl) (fun m' => ?_) ?_ fun _ h => by cases h
      · simp [State.afterOwner, Phase.locksOwner, OwnerStage.locks]
      · simp only [State.runOwner, State.goto, State.resume, State.afterOwner, Phase.suspensions, Use.suspensions,
          OwnerStage.suspensions]
        omega
    | drop =>
      refine h.walk hphase rfl rfl rfl rfl (fun m' => ?_) (fun m' => ?_) ?_ fun _ _ => rfl
      · simp [State.afterOwner, Phase.raw, Use.raw]
      · simp [State.afterOwner, Phase.locksOwner, OwnerStage.locks]
      · simp only [State.runOwner, State.goto, State.resume, State.afterOwner, Phase.suspensions, Use.suspensions,
          OwnerStage.suspensions]
        omega

omit [DecidableEq τ] in
/-- A context that holds the mutex finds it locked. -/
theorem Inv.locked_of_raw (h : Inv s) (hraw : s.nest.top.phase.raw m = true) : s.locked m = true := by
  have hle : s.nest.top.raw m ≤ _ := Nest.le_total (f := Context.raw m) s.nest.has_top
  rw [h.raw m, Context.raw, hraw, Bool.toNat_true] at hle
  cases hcase : s.locked m with
  | true => rfl
  | false =>
    rw [hcase, Bool.toNat_false] at hle
    omega

/-- A failed `try_lock` leaves nothing behind. -/
theorem Caller.failed_eq (k : Caller) (m : M) : (k.failed m).suspensions = k.suspensions ∧
    (∀ m', (k.failed m).raw m' = false) ∧ (∀ m', (k.failed m).locksOwner m' = false) ∧
      (k.ofHandler = true → (k.failed m).ofHandler = true) := by
  cases k with
  | client | waitUntil => exact ⟨rfl, fun _ => rfl, fun _ => rfl, id⟩
  | lock => exact ⟨rfl, fun m' => Bool.and_false _, fun _ => rfl, id⟩

theorem Caller.acquired_eq (k : Caller) (m : M) : (k.acquired m).suspensions = k.suspensions ∧
    (∀ m', (k.acquired m).raw m' = false) ∧ (∀ m', (k.acquired m).locksOwner m' = false) ∧
      (k.ofHandler = true → (k.acquired m).ofHandler = true) := by
  cases k with
  | client | lock => exact ⟨rfl, fun _ => rfl, fun _ => rfl, fun _ => rfl⟩
  | waitUntil => exact ⟨rfl, fun _ => rfl, fun _ => rfl, id⟩

/-- `raw_spin.try_lock()` succeeds. -/
theorem Inv.acquire (h : Inv s) {k : Caller} (hok : Orderly s .next)
    (hphase : s.nest.top.phase = .rawTryLock m k) (hfree : s.locked m = false) :
    Inv ({ s with locked := Function.update s.locked m true }.goto
      (if s.inIsr = true then .downgrade m k else .enter m (.setOwner k))) := by
  have hraw : ∀ (p : Phase M) m', (∀ m', p.raw m' = decide (m = m')) →
      (Function.update s.locked m true m').toNat + ((Phase.rawTryLock m k).raw m').toNat =
        (s.locked m').toNat + (p.raw m').toNat := by
    intro p m' hp
    rw [hp]
    by_cases hm : m' = m
    · subst hm
      simp [Phase.raw, hfree]
    · simp [Phase.raw, Function.update_of_ne hm, Ne.symm hm]
  cases hisr : s.inIsr with
  | true =>
    refine h.goto hphase rfl rfl (fun m' => hraw _ m' fun _ => rfl) (fun _ => rfl) rfl (fun _ hh => hh)
      fun _ m' hr _ => ?_
    obtain rfl : m = m' := by simpa [Phase.raw] using hr
    exact hok m (by simp [hphase, Phase.takes]) hisr hfree
  | false =>
    refine h.goto hphase rfl rfl (fun m' => hraw _ m' fun _ => Bool.and_true _) (fun _ => rfl) rfl ?_ ?_
    · simp [hisr]
    · simp [hisr]

theorem Inv.next (h : Inv s) (hok : Orderly s .next) (hstep : s.next = some s') : Inv s' := by
  have hle := h.le_suspendCnt
  cases hphase : s.nest.top.phase with
  | idle =>
    simp only [State.next, hphase] at hstep
    cases hstep
  | isLocked m k =>
    simp only [State.next, hphase, Option.some.injEq] at hstep
    subst hstep
    obtain ⟨hsusp, hraw, howner, hhandler⟩ := k.failed_eq m
    split
    · refine h.walk hphase rfl rfl rfl rfl hraw howner ?_ fun _ => hhandler
      simp only [State.goto, hsusp]
      rfl
    · exact h.walk hphase rfl rfl rfl rfl (fun _ => rfl) (fun _ => rfl) rfl fun _ hh => hh
  | hold m k =>
    simp only [State.next, hphase, Option.some.injEq] at hstep
    subst hstep
    refine h.walk hphase rfl rfl rfl rfl (fun _ => rfl) (fun _ => rfl) ?_ fun _ hh => hh
    simp only [State.goto, State.suspend, Phase.suspensions]
    omega
  | rawTryLock m k =>
    simp only [State.next, hphase] at hstep
    split at hstep
    · obtain rfl := Option.some.inj hstep
      exact h.walk hphase rfl rfl rfl rfl (fun _ => rfl) (fun _ => rfl) rfl fun _ hh => hh
    · rename_i hfree
      obtain rfl := Option.some.inj hstep
      exact h.acquire hok hphase (by simpa using hfree)
  | unhold m k =>
    simp only [State.next, hphase, Option.some.injEq] at hstep
    subst hstep
    obtain ⟨hsusp, hraw, howner, hhandler⟩ := k.failed_eq m
    have hunhold : (Phase.unhold m k).suspensions = k.suspensions + 1 := rfl
    rw [hphase, hunhold] at hle
    refine h.walk hphase rfl rfl rfl rfl hraw howner ?_ fun _ => hhandler
    simp only [State.goto, State.resume, hsusp, hunhold]
    omega
  | enter m w =>
    simp only [State.next, hphase, Option.some.injEq] at hstep
    subst hstep
    refine h.walk hphase rfl rfl rfl rfl (fun _ => rfl) (fun _ => Bool.and_false _) ?_ fun _ hh => by cases hh
    simp only [State.goto, State.suspend, Phase.suspensions, Use.suspensions, OwnerStage.suspensions]
    omega
  | owner m u stage =>
    simp only [State.next, hphase, Option.some.injEq] at hstep
    subst hstep
    exact h.runOwner hphase
  | leave m w =>
    simp only [State.next, hphase, Option.some.injEq] at hstep
    subst hstep
    rw [hphase] at hle
    cases w with
    | setOwner k =>
      refine h.walk hphase rfl rfl rfl rfl (fun _ => (Bool.and_true _).symm) (fun _ => rfl) ?_ fun _ hh => by cases hh
      simp only [State.goto, State.resume, State.afterCurTask, Phase.suspensions, CurUse.suspensions] at hle ⊢
      omega
    | inherit =>
      refine h.walk hphase rfl rfl rfl rfl (fun _ => (Bool.and_false _).symm) (fun _ => rfl) ?_ fun _ hh => by cases hh
      simp only [State.goto, State.resume, State.afterCurTask, Phase.suspensions, CurUse.suspensions] at hle ⊢
      omega
  | downgrade m k =>
    simp only [State.next, hphase, Option.some.injEq] at hstep
    subst hstep
    obtain ⟨hsusp, hraw, howner, hhandler⟩ := k.acquired_eq m
    have hdown : (Phase.downgrade m k).suspensions = k.suspensions + 1 := rfl
    have hdownRaw : ∀ m', (Phase.downgrade m k).raw m' = decide (m = m') := fun _ => rfl
    rw [hphase, hdown] at hle
    refine h.setTop rfl rfl (fun m' => ?_) (fun m' => ?_) ?_ (fun _ => ?_) fun _ m' hpos hzero => ?_
    · simp only [State.resume, Context.raw, hphase, hdownRaw, hraw, List.count_cons]
      by_cases hm : m = m'
      · simp [hm]
      · simp [hm]
    · simp only [State.resume, Context.locksOwner, hphase, howner]
      rfl
    · simp only [State.resume, Context.suspensions, hphase, hsusp, hdown]
      omega
    · rw [hphase]
      exact hhandler
    · -- The guard is for the mutex that the context has taken.
      simp only [Context.raw, hphase, hdownRaw, hraw, List.count_cons, Bool.toNat_false] at hpos hzero
      by_cases hm : m = m'
      · simp [hm] at hzero
      · simp [hm] at hpos hzero
        exact absurd hpos (List.count_eq_zero.mp hzero)
  | waitUntil m =>
    simp only [State.next, hphase] at hstep
    split at hstep
    · obtain rfl := Option.some.inj hstep
      exact h.walk hphase rfl rfl rfl rfl (fun _ => rfl) (fun _ => rfl) rfl fun _ hh => by cases hh
    · cases hstep
  | waited m found =>
    simp only [State.next, hphase, Option.some.injEq] at hstep
    subst hstep
    rw [hphase] at hle
    have hcnt : s.suspendCnt - 1 + 1 = s.suspendCnt := Nat.sub_add_cancel hle
    cases found with
    | true => exact h.walk hphase rfl rfl rfl rfl (fun _ => rfl) (fun _ => rfl) hcnt fun _ _ => rfl
    | false => exact h.walk hphase rfl rfl rfl rfl (fun _ => rfl) (fun _ => rfl) hcnt fun _ hh => by cases hh
  | release m =>
    simp only [State.next, hphase, Option.some.injEq] at hstep
    subst hstep
    have hlocked : s.locked m = true := h.locked_of_raw (by simp [hphase, Phase.raw])
    refine h.goto hphase rfl rfl (fun m' => ?_) (fun _ => rfl) rfl (fun _ _ => rfl) fun _ m' hr _ => by cases hr
    by_cases hm : m' = m
    · subst hm
      simp [State.goto, Phase.raw, hlocked]
    · simp [State.goto, Phase.raw, Function.update_of_ne hm, Ne.symm hm]

theorem Inv.call (h : Inv s) {c : Call M} (hstep : s.step (.call c) = some s') : Inv s' := by
  simp only [State.step] at hstep
  split at hstep
  · rename_i hphase
    split at hstep
    · cases hstep
    · rename_i hisr
      obtain rfl := Option.some.inj hstep
      exact h.walk hphase rfl rfl rfl rfl (fun _ => rfl) (fun _ => rfl) rfl fun hi => absurd hi hisr
  · rename_i hphase
    obtain rfl := Option.some.inj hstep
    exact h.walk hphase rfl rfl rfl rfl (fun _ => rfl) (fun _ => rfl) rfl fun _ _ => rfl
  · rename_i m _ hphase
    split at hstep
    · rename_i hm
      obtain rfl := Option.some.inj hstep
      -- The guard goes from the client to the call that drops it.
      have hcount := List.count_erase_self (a := m) (l := s.nest.top.guards)
      have hpos := List.count_pos_iff.mpr hm
      refine h.setTop rfl rfl (fun m' => ?_) (fun m' => ?_) ?_ (fun _ _ => rfl) fun _ m' hraw hzero => ?_
      · by_cases hmm : m' = m
        · subst hmm
          simp [Context.raw, hphase, Phase.raw, Use.raw, hcount]
          omega
        · simp [Context.raw, hphase, Phase.raw, Use.raw, List.count_erase_of_ne hmm, Ne.symm hmm]
      · simp [Context.locksOwner, hphase, Phase.locksOwner, OwnerStage.locks]
      · simp [Context.suspensions, hphase, Phase.suspensions, Use.suspensions, OwnerStage.suspensions]
      · by_cases hmm : m' = m
        · subst hmm
          simp only [Context.raw] at hzero
          omega
        · simp [Context.raw, Phase.raw, Use.raw, List.count_erase_of_ne hmm, Ne.symm hmm] at hraw
          simp only [Context.raw] at hzero
          have := List.count_pos_iff.mpr hraw
          omega
    · cases hstep
  · cases hstep

theorem Inv.step {a : Action M τ} (h : Inv s) (hok : Orderly s a) (hstep : s.step a = some s') : Inv s' := by
  have hzero : ∀ m : M, Context.raw m (⟨.idle, []⟩ : Context M) = 0 := fun m => rfl
  cases a with
  | call c => exact h.call hstep
  | next =>
    simp only [State.step] at hstep
    split at hstep
    · cases hstep
    · exact h.next hok hstep
  | preempt =>
    simp only [State.step] at hstep
    split at hstep
    · cases hstep
    · obtain rfl := Option.some.inj hstep
      refine ⟨h.alive, fun m => ?_, fun m => ?_, ?_, h.away, List.forall_mem_cons.mpr ⟨rfl, h.handlers⟩,
        List.forall_mem_cons.mpr ⟨fun m hm => ?_, h.apart⟩⟩
      · exact Nest.total_push.trans (h.raw m)
      · exact Nest.total_push.trans (h.owner m)
      · exact Nest.total_push.trans h.suspended
      · rw [hzero] at hm
        omega
  | iret =>
    simp only [State.step] at hstep
    split at hstep
    · rename_i rest _ hcons
      obtain rfl := Option.some.inj hstep
      have hsub : ∀ c ∈ s.nest.pop.handlers, c ∈ s.nest.handlers := fun c hc => List.mem_of_mem_tail hc
      refine ⟨h.alive, fun m => ?_, fun m => ?_, ?_, h.away, fun c hc => h.handlers c (hsub c hc),
        fun c hc => h.apart c (hsub c hc)⟩
      · exact (Nest.total_pop (f := Context.raw m) hcons).trans (h.raw m)
      · exact (Nest.total_pop (f := Context.locksOwner m) hcons).trans (h.owner m)
      · exact (Nest.total_pop (f := Context.suspensions) hcons).trans h.suspended
    · cases hstep
  | switch t =>
    simp only [State.step] at hstep
    split at hstep
    · rename_i hswitch
      obtain rfl := Option.some.inj hstep
      -- The scheduler is not suspended, so no task has suspended it.
      have hnone : ∀ u, (s.nest.task u).suspensions = 0 := fun u => by
        have := Nest.le_total (f := Context.suspensions) (n := s.nest) (Or.inl ⟨u, rfl⟩)
        have := h.suspended
        omega
      refine ⟨h.alive, h.raw, h.owner, h.suspended, fun u _ => hnone u, h.handlers, fun c hc => ?_⟩
      simp [Nest.switch, hswitch.2.1] at hc
    · cases hstep

omit [DecidableEq τ] in
theorem Inv.init (t : τ) (priority : τ → TaskPriority) : Inv (State.init (M := M) t priority) := by
  refine ⟨rfl, fun m => ?_, fun m => ?_, ?_, fun u _ => rfl, by simp [State.init], by simp [State.init]⟩
  · simp [Nest.total, State.init, Context.raw, Phase.raw]
  · simp [Nest.total, State.init, Context.locksOwner, Phase.locksOwner]
  · simp [Nest.total, State.init, Context.suspensions, Phase.suspensions]

/-- In every orderly run, `lock_now_or_die` on the owner field succeeds. -/
theorem exec_owner_free {t : τ} {priority : τ → TaskPriority} {actions : List (Action M τ)}
    (hok : Run.Allowed State.step Orderly (State.init t priority) actions)
    (hrun : Run.exec State.step (State.init t priority) actions = some s) : s.died = false := by
  have hinv : Inv s :=
    Run.exec_inv_of_allowed Inv (fun h hok hstep => h.step hok hstep) (Inv.init t priority) hok hrun
  exact hinv.alive

/-- A task locks a free mutex, and a handler tries to take it on the way. -/
def contended : List (Action Unit (Fin 2)) :=
  [.call (.lock ())] ++ List.replicate 4 .next ++
    [.preempt, .call (.tryLock ()), .next, .iret] ++ List.replicate 8 .next

theorem exec_owner_free_contended : ∃ s,
    Run.exec State.step (State.init 0 fun _ => .intrinsic 0) contended = some s ∧
      (s.nest.task 0).guards = [()] ∧ s.died = false := by
  have hguards : (Run.exec State.step (State.init 0 fun _ => .intrinsic 0) contended).map
      (fun s => (s.nest.task 0).guards) = some [()] := by decide +kernel
  obtain ⟨s, hrun, hguards⟩ := Option.map_eq_some_iff.mp hguards
  have hok : Run.Allowed State.step Orderly (State.init 0 fun _ => .intrinsic 0) contended := by
    decide +kernel
  exact ⟨s, hrun, hguards, exec_owner_free hok hrun⟩

/-- A task fails to lock the mutex, and its owner drops the guard before the task lends its
priority. While the task has the owner field locked, a handler takes the mutex and drops it. -/
def releasedOwner : List (Action Unit (Fin 2)) :=
  -- The task 1 locks the mutex.
  [.switch 1, .call (.lock ())] ++ List.replicate 12 .next ++
  -- The task 0 finds it locked.
  [.switch 0, .call (.lock ()), .next] ++
  -- The task 1 drops its guard.
  [.switch 1, .call (.drop ())] ++ List.replicate 7 .next ++
  -- The task 0 locks the owner field.
  [.switch 0] ++ List.replicate 4 .next ++
  [.preempt, .call (.tryLock ())] ++ List.replicate 4 .next ++ [.call (.drop ()), .next]

theorem exec_owner_locked : ∃ s,
    Run.exec State.step (State.init 0 fun _ => .intrinsic 0) releasedOwner = some s ∧ s.died = true := by
  have hdied : (Run.exec State.step (State.init 0 fun _ => .intrinsic 0) releasedOwner).map State.died =
      some true := by decide +kernel
  exact Option.map_eq_some_iff.mp hdied

end Hopter.Sync.OwnerLock
