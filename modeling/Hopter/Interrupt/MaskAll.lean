-- SUMMARY: Masking all IRQs but the supervisor call: who runs while they are masked, and the spin locks on top.
import Hopter.Base.Run
import Hopter.Base.Nest

/-!
# Masking all IRQs

`AllIrqExceptSvc` in `src/interrupt/mask.rs`. `mask` suspends the scheduler, raises the priority of
the supervisor call, writes `BASEPRI`, and counts its guard. Dropping the last guard undoes this in
the reverse order. A handler can preempt a context between any two steps, as far as `BASEPRI` and
the priorities let it.

A spin lock of `src/sync/spin_lock.rs` that holds such a guard is taken and released under it.
-/

namespace Hopter.Interrupt

-- ---------------------------------------------------------------------------
-- Model
-- ---------------------------------------------------------------------------

/-- The priorities in `src/config/mod.rs`, with what is asserted of them there. Smaller numbers are
higher priorities. `IRQ_ENABLE_BASEPRI_PRIORITY` is 0. -/
structure Priorities where
  irqMax : Nat
  irqMin : Nat
  irqDisableBasepri : Nat
  svcNormal : Nat
  svcRaised : Nat
  pendsv : Nat
  irq_lt : irqMax < irqMin
  disable_le : irqDisableBasepri ≤ irqMax
  irq_lt_svc : irqMin < svcNormal
  raised_lt : svcRaised < svcNormal
  svc_allowed : svcRaised < irqDisableBasepri
  svc_le_pendsv : svcNormal ≤ pendsv

/-- Where a context is in `__disable_recursive` and `__enable_recursive`. Each phase is named after
what was done last. -/
inductive AllPhase where
  | idle
  /-- The scheduler is suspended. -/
  | held
  /-- The priority of the supervisor call is raised. -/
  | raised
  /-- `BASEPRI` is written, and `fetch_add` is next. -/
  | masked
  /-- `fetch_sub` has returned 1. -/
  | discounted
  /-- `BASEPRI` is zero again. -/
  | unmasked
  /-- Only the scheduler is left to resume. -/
  | resuming
  deriving DecidableEq

structure AllContext where
  phase : AllPhase
  /-- How many guards the context has, apart from that of the spin lock. -/
  guards : Nat
  /-- The context has the guard of the spin lock. -/
  lock : Bool
  /-- The execution priority of a handler. That of a task is below all others. -/
  prio : Nat

structure AllState (τ : Type) where
  basepri : Nat
  /-- The priority of the supervisor call. -/
  svcall : Nat
  /-- `ALL_IRQ_MASK_CNT` -/
  maskCnt : Nat
  /-- `SUSPEND_CNT` of the scheduler. -/
  suspendCnt : Nat
  /-- The raw spin lock. -/
  locked : Bool
  nest : Nest τ AllContext

def threadPrio : Nat := 256

def AllState.init {τ : Type} (P : Priorities) (current : τ) : AllState τ :=
  ⟨0, P.svcNormal, 0, 0, false, fun _ => ⟨.idle, 0, false, threadPrio⟩, current, []⟩

/-- `BASEPRI` lets an exception through. -/
def AllState.Passes {τ : Type} (s : AllState τ) (prio : Nat) : Prop := s.basepri = 0 ∨ prio < s.basepri

instance {τ : Type} (s : AllState τ) (prio : Nat) : Decidable (s.Passes prio) :=
  inferInstanceAs (Decidable (_ ∨ _))

inductive AllAction (τ : Type) where
  /-- The context that runs calls `mask`, up to the suspension of the scheduler. -/
  | mask
  /-- It drops a guard, up to `fetch_sub`. -/
  | drop
  /-- It goes on with the call that it is in. -/
  | next
  /-- It tries to lock the raw spin lock under a guard. -/
  | tryLock
  /-- It drops the guard of the spin lock, up to the release of the raw one. -/
  | unlock
  /-- A handler starts. -/
  | preempt (prio : Nat)
  /-- The handler returns. -/
  | iret
  /-- Another task runs. -/
  | switch (t : τ)

variable {τ : Type} [DecidableEq τ] (P : Priorities)

/-- The context that runs takes a step of `__disable_recursive` or `__enable_recursive`. A failed
assertion stops the machine. -/
def AllState.next (s : AllState τ) : Option (AllState τ) :=
  let c := s.nest.top
  match c.phase with
  | .idle => none
  | .held => some { s with svcall := P.svcRaised, nest := s.nest.setTop { c with phase := .raised } }
  | .raised => some { s with basepri := P.irqDisableBasepri, nest := s.nest.setTop { c with phase := .masked } }
  | .masked =>
    -- `assert!(prev_cnt < usize::MAX)`
    if s.maskCnt < 2 ^ 32 - 1 then some
      { s with
        maskCnt := s.maskCnt + 1
        nest := s.nest.setTop { c with phase := .idle, guards := c.guards + 1 } }
    else none
  | .discounted => some { s with basepri := 0, nest := s.nest.setTop { c with phase := .unmasked } }
  | .unmasked => some { s with svcall := P.svcNormal, nest := s.nest.setTop { c with phase := .resuming } }
  | .resuming => some { s with suspendCnt := s.suspendCnt - 1, nest := s.nest.setTop { c with phase := .idle } }

def AllState.step (s : AllState τ) : AllAction τ → Option (AllState τ)
  | .mask =>
    if s.nest.top.phase = .idle then some
      { s with suspendCnt := s.suspendCnt + 1, nest := s.nest.setTop { s.nest.top with phase := .held } }
    else none
  | .drop =>
    if s.nest.top.phase = .idle ∧ 0 < s.nest.top.guards then
      -- `assert!(prev_cnt > 0)`
      if s.maskCnt = 0 then none
      else some
        { s with
          maskCnt := s.maskCnt - 1
          nest := s.nest.setTop
            { s.nest.top with
              phase := if s.maskCnt = 1 then .discounted else .resuming
              guards := s.nest.top.guards - 1 } }
    else none
  | .next => s.next P
  | .tryLock =>
    if s.nest.top.phase = .idle ∧ 0 < s.nest.top.guards then
      -- A lock that is taken is left alone, and the guard is dropped next.
      if s.locked = true then some s
      else some
        { s with
          locked := true
          nest := s.nest.setTop { s.nest.top with guards := s.nest.top.guards - 1, lock := true } }
    else none
  | .unlock =>
    if s.nest.top.phase = .idle ∧ s.nest.top.lock = true then some
      { s with
        locked := false
        nest := s.nest.setTop { s.nest.top with guards := s.nest.top.guards + 1, lock := false } }
    else none
  | .preempt prio =>
    if P.irqMax ≤ prio ∧ prio ≤ P.irqMin ∧ prio < s.nest.top.prio ∧ s.Passes prio then
      some { s with nest := s.nest.push ⟨.idle, 0, false, prio⟩ }
    else none
  | .iret =>
    match s.nest.handlers with
    | ⟨.idle, 0, false, _⟩ :: _ => some { s with nest := s.nest.pop }
    | _ => none
  | .switch t =>
    if s.nest.handlers = [] ∧ s.suspendCnt = 0 ∧ s.Passes P.pendsv then some { s with nest := s.nest.switch t }
    else none

-- ---------------------------------------------------------------------------
-- The invariant
-- ---------------------------------------------------------------------------

/-- The guards of a context. -/
def AllContext.held (c : AllContext) : Nat := c.guards + if c.lock = true then 1 else 0

/-- What makes a context keep all IRQs masked. -/
def AllContext.closed (c : AllContext) : Nat :=
  c.held + if c.phase = .masked ∨ c.phase = .discounted then 1 else 0

/-- What makes a context keep the scheduler suspended. -/
def AllContext.busy (c : AllContext) : Nat := c.held + if c.phase = .idle then 0 else 1

theorem AllContext.held_le_closed (c : AllContext) : c.held ≤ c.closed := Nat.le_add_right _ _

theorem AllContext.closed_le_busy (c : AllContext) : c.closed ≤ c.busy := by
  unfold closed busy
  cases c.phase <;> simp

theorem AllContext.lock_of_closed {c : AllContext} (h : c.closed = 0) : c.lock = false := by
  have hheld := c.held_le_closed
  cases hlock : c.lock with
  | false => rfl
  | true =>
    simp only [held, hlock, if_true] at hheld
    omega

/-- The last guard of the context was dropped, and `BASEPRI` or the priority of the supervisor call
are still to be written. -/
def AllContext.Opening (c : AllContext) : Prop := c.phase = .discounted ∨ c.phase = .unmasked

/-- Only the context that runs keeps the IRQs masked: while it does, no other one can start. -/
structure AllInv [Fintype τ] (s : AllState τ) : Prop where
  count : s.maskCnt = s.nest.total AllContext.held
  suspended : s.suspendCnt = s.nest.total AllContext.busy
  alone : s.nest.total AllContext.closed = s.nest.top.closed
  basepri : s.basepri = if s.nest.top.closed = 0 then 0 else P.irqDisableBasepri
  opening : ∀ c, s.nest.Has c → c.Opening → c.held = 0
  lock : s.locked = s.nest.top.lock

variable {P} [Fintype τ] {s s' : AllState τ} {c : AllContext} {a : AllAction τ}

omit [DecidableEq τ] in
theorem AllInv.init (t : τ) : AllInv P (AllState.init P t) := by
  have hzero : ∀ f : AllContext → Nat, f ⟨.idle, 0, false, threadPrio⟩ = 0 →
      (AllState.init P t).nest.total f = 0 := by
    intro f hf
    simp [AllState.init, Nest.total, hf]
  refine ⟨(hzero _ rfl).symm, (hzero _ rfl).symm, hzero _ rfl, rfl, ?_, rfl⟩
  rintro c (⟨t, rfl⟩ | hc) hopening
  · rcases hopening with h | h <;> cases h
  · simp [AllState.init] at hc

omit [DecidableEq τ] in
/-- `BASEPRI` is zero, or it keeps all handlers out. -/
theorem AllInv.not_passes (h : AllInv P s) (hclosed : s.nest.top.closed ≠ 0) {prio : Nat}
    (hprio : P.irqMax ≤ prio) : ¬ s.Passes prio := by
  have hbasepri := h.basepri
  rw [if_neg hclosed] at hbasepri
  have := P.svc_allowed
  have := P.disable_le
  rintro (hzero | hlt)
  · omega
  · omega

omit [DecidableEq τ] in
theorem AllInv.closed_eq_zero (h : AllInv P s) {prio : Nat} (hprio : P.irqMax ≤ prio) (hpasses : s.Passes prio) :
    s.nest.top.closed = 0 := by
  by_contra hclosed
  exact h.not_passes hclosed hprio hpasses

/-- A step of the context that runs. -/
theorem AllInv.setTop (h : AllInv P s) {basepri svcall maskCnt suspendCnt : Nat} {locked : Bool}
    (hcount : maskCnt + s.nest.top.held = s.maskCnt + c.held)
    (hsuspended : suspendCnt + s.nest.top.busy = s.suspendCnt + c.busy)
    (hbasepri : basepri = if c.closed = 0 then 0 else P.irqDisableBasepri)
    (hopening : c.Opening → c.held = 0) (hlock : locked = c.lock) :
    AllInv P ⟨basepri, svcall, maskCnt, suspendCnt, locked, s.nest.setTop c⟩ := by
  have hheld := Nest.total_setTop (n := s.nest) (c := c) (f := AllContext.held)
  have hbusy := Nest.total_setTop (n := s.nest) (c := c) (f := AllContext.busy)
  have hclosed := Nest.total_setTop (n := s.nest) (c := c) (f := AllContext.closed)
  have := h.count
  have := h.suspended
  have := h.alone
  refine ⟨by simp only; omega, by simp only; omega, ?_, ?_, ?_, ?_⟩
  · rw [Nest.top_setTop]
    simp only
    omega
  · rw [Nest.top_setTop]
    exact hbasepri
  · intro d hd hopen
    rcases hd.of_setTop with rfl | hd
    · exact hopening hopen
    · exact h.opening d hd hopen
  · rw [Nest.top_setTop]
    exact hlock

/-- A step to another phase, with the same guards. -/
theorem AllInv.setPhase (h : AllInv P s) {basepri svcall suspendCnt : Nat} {phase : AllPhase}
    (hsuspended : suspendCnt + (if s.nest.top.phase = .idle then 0 else 1) =
      s.suspendCnt + if phase = .idle then 0 else 1)
    (hbasepri : basepri =
      if s.nest.top.held = 0 ∧ phase ≠ .masked ∧ phase ≠ .discounted then 0 else P.irqDisableBasepri)
    (hopening : phase = .discounted ∨ phase = .unmasked → s.nest.top.held = 0) :
    AllInv P ⟨basepri, svcall, s.maskCnt, suspendCnt, s.locked, s.nest.setTop { s.nest.top with phase := phase }⟩ := by
  refine h.setTop rfl ?_ ?_ hopening h.lock
  · simp only [AllContext.busy, AllContext.held]
    omega
  · rw [hbasepri]
    refine if_congr ?_ rfl rfl
    cases phase <;> simp [AllContext.closed, AllContext.held]

theorem AllInv.next (h : AllInv P s) (hstep : s.next P = some s') : AllInv P s' := by
  have hbasepri := h.basepri
  have hopening := h.opening s.nest.top s.nest.has_top
  have hbusy : s.nest.top.busy ≤ s.suspendCnt := h.suspended ▸ Nest.le_total s.nest.has_top
  unfold AllState.next at hstep
  cases hphase : s.nest.top.phase with
  | idle => simp [hphase] at hstep
  | held =>
    simp only [hphase, Option.some.injEq] at hstep
    obtain rfl := hstep
    refine h.setPhase (by simp [hphase]) ?_ (by simp)
    simpa [AllContext.closed, hphase] using hbasepri
  | raised =>
    simp only [hphase, Option.some.injEq] at hstep
    obtain rfl := hstep
    exact h.setPhase (by simp [hphase]) (by simp) (by simp)
  | masked =>
    simp only [hphase] at hstep
    split at hstep
    · obtain rfl := Option.some.inj hstep
      -- The guard takes over from the phase.
      refine h.setTop ?_ ?_ ?_ (by simp [AllContext.Opening]) h.lock
      · simp only [AllContext.held]
        omega
      · simp only [AllContext.busy, AllContext.held, hphase]
        simp
        omega
      · simpa [AllContext.closed, AllContext.held, hphase] using hbasepri
    · cases hstep
  | discounted =>
    simp only [hphase, Option.some.injEq] at hstep
    obtain rfl := hstep
    have hheld := hopening (.inl hphase)
    exact h.setPhase (by simp [hphase]) (by simp [hheld]) fun _ => hheld
  | unmasked =>
    simp only [hphase, Option.some.injEq] at hstep
    obtain rfl := hstep
    refine h.setPhase (by simp [hphase]) ?_ (by simp)
    simpa [AllContext.closed, hphase] using hbasepri
  | resuming =>
    simp only [hphase, Option.some.injEq] at hstep
    obtain rfl := hstep
    simp only [AllContext.busy, hphase] at hbusy
    refine h.setPhase ?_ ?_ (by simp)
    · simp [hphase]
      simp at hbusy
      omega
    · simpa [AllContext.closed, hphase] using hbasepri

/-- The last guard leaves the context with the phase in which the IRQs are still masked. -/
theorem AllInv.drop (h : AllInv P s) (hphase : s.nest.top.phase = .idle) (hpos : 0 < s.nest.top.guards) :
    AllInv P
      { s with
        maskCnt := s.maskCnt - 1
        nest := s.nest.setTop
          { s.nest.top with
            phase := if s.maskCnt = 1 then .discounted else .resuming
            guards := s.nest.top.guards - 1 } } := by
  have hcount := h.count
  have hbasepri := h.basepri
  have hle := Nest.le_total (f := AllContext.held) s.nest.has_top
  -- All guards are those of the context that runs.
  have hall : s.maskCnt = s.nest.top.held := by
    have hheld : s.nest.total AllContext.held ≤ s.nest.total AllContext.closed :=
      Nest.total_le AllContext.held_le_closed
    have hclosed : s.nest.top.closed = s.nest.top.held := by simp [AllContext.closed, hphase]
    have := h.alone
    omega
  have hdis : s.basepri = P.irqDisableBasepri := by
    rw [hbasepri, if_neg]
    simp only [AllContext.closed, AllContext.held]
    omega
  simp only [AllContext.held] at hall
  by_cases hone : s.maskCnt = 1
  · rw [if_pos hone]
    refine h.setTop ?_ ?_ ?_ ?_ h.lock
    · simp only [AllContext.held]
      omega
    · simp only [AllContext.busy, AllContext.held, hphase, if_true, reduceCtorEq, if_false]
      omega
    · simp [AllContext.closed, hdis]
    · intro _
      simp only [AllContext.held]
      omega
  · rw [if_neg hone]
    refine h.setTop ?_ ?_ ?_ (by simp [AllContext.Opening]) h.lock
    · simp only [AllContext.held]
      omega
    · simp only [AllContext.busy, AllContext.held, hphase, if_true, reduceCtorEq, if_false]
      omega
    · rw [hdis, if_neg]
      simp only [AllContext.closed, AllContext.held]
      omega

theorem AllInv.mask (h : AllInv P s) (hphase : s.nest.top.phase = .idle) :
    AllInv P { s with suspendCnt := s.suspendCnt + 1, nest := s.nest.setTop { s.nest.top with phase := .held } } := by
  have hbasepri := h.basepri
  refine h.setPhase (by simp [hphase]) ?_ (by simp)
  simpa [AllContext.closed, hphase] using hbasepri

/-- The guard of the spin lock is one that the context had. -/
theorem AllInv.moveGuard (h : AllInv P s) (hphase : s.nest.top.phase = .idle) {guards : Nat} {lock : Bool}
    (hguards : (AllContext.held ⟨.idle, guards, lock, s.nest.top.prio⟩) = s.nest.top.held) :
    AllInv P { s with
      locked := lock
      nest := s.nest.setTop { s.nest.top with guards := guards, lock := lock } } := by
  have hbasepri := h.basepri
  have hheld : AllContext.held { s.nest.top with guards := guards, lock := lock } = s.nest.top.held := hguards
  have hclosed : AllContext.closed { s.nest.top with guards := guards, lock := lock } = s.nest.top.closed :=
    congrArg (· + if s.nest.top.phase = .masked ∨ s.nest.top.phase = .discounted then 1 else 0) hheld
  refine h.setTop ?_ ?_ ?_ (by simp [AllContext.Opening, hphase]) rfl
  · rw [hheld]
  · simp only [AllContext.busy, hheld]
  · rw [hclosed, hbasepri]

omit [DecidableEq τ] in
/-- A new handler has nothing, and neither has anyone else. -/
theorem AllInv.push (h : AllInv P s) {prio : Nat} (hclosed : s.nest.top.closed = 0) :
    AllInv P { s with nest := s.nest.push ⟨.idle, 0, false, prio⟩ } := by
  have hbasepri := h.basepri
  have halone := h.alone
  rw [hclosed] at hbasepri halone
  refine ⟨?_, ?_, ?_, hbasepri, ?_, h.lock.trans (AllContext.lock_of_closed hclosed)⟩
  · rw [Nest.total_push]
    exact h.count
  · rw [Nest.total_push]
    exact h.suspended
  · rw [Nest.total_push, halone]
    rfl
  · intro c hc hopen
    rcases Nest.has_push.mp hc with rfl | hc
    · rfl
    · exact h.opening c hc hopen

omit [DecidableEq τ] in
/-- When nobody keeps the IRQs masked, the context that runs does not matter. -/
theorem AllInv.congr (h : AllInv P s) {nest : Nest τ AllContext} (hclosed : s.nest.top.closed = 0)
    (htotal : ∀ f : AllContext → Nat, (∀ prio, f ⟨.idle, 0, false, prio⟩ = 0) → nest.total f = s.nest.total f)
    (hhas : ∀ c, nest.Has c → s.nest.Has c) : AllInv P { s with nest := nest } := by
  have hbasepri := h.basepri
  have hzero : nest.total AllContext.closed = 0 := by rw [htotal _ fun _ => rfl, h.alone, hclosed]
  have htop : nest.top.closed = 0 := Nat.le_zero.mp (hzero ▸ Nest.le_total nest.has_top)
  rw [if_pos hclosed] at hbasepri
  refine ⟨?_, ?_, hzero.trans htop.symm, ?_, fun c hc => h.opening c (hhas c hc), ?_⟩
  · rw [htotal _ fun _ => rfl]
    exact h.count
  · rw [htotal _ fun _ => rfl]
    exact h.suspended
  · rw [if_pos htop]
    exact hbasepri
  · exact (h.lock.trans (AllContext.lock_of_closed hclosed)).trans (AllContext.lock_of_closed htop).symm

theorem AllInv.step (h : AllInv P s) (hstep : s.step P a = some s') : AllInv P s' := by
  cases a with
  | mask =>
    simp only [AllState.step] at hstep
    split at hstep
    · rename_i hphase
      obtain rfl := Option.some.inj hstep
      exact h.mask hphase
    · cases hstep
  | drop =>
    simp only [AllState.step] at hstep
    split at hstep
    · rename_i htop
      split at hstep
      · cases hstep
      · obtain rfl := Option.some.inj hstep
        exact h.drop htop.1 htop.2
    · cases hstep
  | next => exact h.next hstep
  | tryLock =>
    simp only [AllState.step] at hstep
    split at hstep
    · rename_i htop
      split at hstep
      · obtain rfl := Option.some.inj hstep
        exact h
      · rename_i hfree
        obtain rfl := Option.some.inj hstep
        refine h.moveGuard htop.1 ?_
        have hlock : s.nest.top.lock = false := h.lock ▸ (by simpa using hfree)
        simp only [AllContext.held, hlock, if_true, Bool.false_eq_true, if_false]
        omega
    · cases hstep
  | unlock =>
    simp only [AllState.step] at hstep
    split at hstep
    · rename_i htop
      obtain rfl := Option.some.inj hstep
      refine h.moveGuard htop.1 ?_
      simp [AllContext.held, htop.2]
    · cases hstep
  | preempt prio =>
    simp only [AllState.step] at hstep
    split at hstep
    · rename_i hok
      obtain rfl := Option.some.inj hstep
      exact h.push (h.closed_eq_zero hok.1 hok.2.2.2)
    · cases hstep
  | iret =>
    simp only [AllState.step] at hstep
    split at hstep
    · rename_i rest hcons
      obtain rfl := Option.some.inj hstep
      refine h.congr (by simp [Nest.top, hcons, AllContext.closed, AllContext.held]) (fun f hf => ?_) fun c hc => ?_
      · have htotal := Nest.total_pop (f := f) hcons
        rwa [hf, Nat.add_zero] at htotal
      · exact (Nest.has_of_handlers hcons).mpr (.inr hc)
    · cases hstep
  | switch t =>
    simp only [AllState.step] at hstep
    split at hstep
    · rename_i hok
      obtain rfl := Option.some.inj hstep
      -- The scheduler is not suspended, so that no task is in a call or has a guard.
      have hbusy : s.nest.top.busy ≤ 0 := hok.2.1 ▸ h.suspended ▸ Nest.le_total s.nest.has_top
      have hclosed := Nat.le_zero.mp (s.nest.top.closed_le_busy.trans hbusy)
      exact h.congr hclosed (fun f _ => Nest.total_switch) fun c hc => hc
    · cases hstep

-- ---------------------------------------------------------------------------
-- Runs
-- ---------------------------------------------------------------------------

variable {actions : List (AllAction τ)} {t : τ}

/-- All guards are those of the context that runs. -/
theorem AllInv.held_eq (h : AllInv P s) : s.nest.total AllContext.held = s.nest.top.held := by
  -- Without the context that runs, nothing keeps the IRQs masked.
  let none : AllContext := ⟨.idle, 0, false, threadPrio⟩
  have hclosed := Nest.total_setTop (n := s.nest) (c := none) (f := AllContext.closed)
  have hheld := Nest.total_setTop (n := s.nest) (c := none) (f := AllContext.held)
  have hle : (s.nest.setTop none).total AllContext.held ≤ (s.nest.setTop none).total AllContext.closed :=
    Nest.total_le AllContext.held_le_closed
  have hnone : AllContext.closed none = 0 ∧ AllContext.held none = 0 := ⟨rfl, rfl⟩
  have := h.alone
  omega

theorem exec_allInv (hrun : Run.exec (AllState.step P) (AllState.init P t) actions = some s) : AllInv P s :=
  Run.exec_inv (AllInv P) (fun h hstep => h.step hstep) (AllInv.init t) hrun

/-- While a guard is held, all guards are those of the context that runs, no handler can preempt it,
and no other task can run. The spin lock is taken only while its owner runs. When nobody has a guard
or is in a call, nothing is masked or suspended, and the lock is free. -/
theorem exec_alone (hrun : Run.exec (AllState.step P) (AllState.init P t) actions = some s) :
    (0 < s.nest.total AllContext.held → s.nest.total AllContext.held = s.nest.top.held ∧
      (∀ prio, s.step P (.preempt prio) = none) ∧ ∀ t', s.step P (.switch t') = none) ∧
    (s.locked = true → s.nest.top.lock = true) ∧
    ((∀ c, s.nest.Has c → c.phase = .idle ∧ c.held = 0) →
      s.basepri = 0 ∧ s.maskCnt = 0 ∧ s.suspendCnt = 0 ∧ s.locked = false) := by
  have h := exec_allInv hrun
  refine ⟨fun hpos => ⟨h.held_eq, fun prio => ?_, fun t' => ?_⟩, fun hlocked => h.lock ▸ hlocked, fun hidle => ?_⟩
  · have hclosed := s.nest.top.held_le_closed
    rw [h.held_eq] at hpos
    exact if_neg fun hok => h.not_passes (by omega) hok.1 hok.2.2.2
  · refine if_neg fun hok => ?_
    have hbusy : s.nest.total AllContext.held ≤ s.nest.total AllContext.busy :=
      Nest.total_le fun c => c.held_le_closed.trans c.closed_le_busy
    have := h.suspended
    omega
  · have hzero : ∀ f : AllContext → Nat, (∀ c, s.nest.Has c → f c = 0) → s.nest.total f = 0 := by
      intro f hf
      by_contra hne
      obtain ⟨c, hc, hpos⟩ := Nest.exists_of_total_pos (Nat.pos_of_ne_zero hne)
      exact Nat.ne_of_gt hpos (hf c hc)
    have hclosed : s.nest.top.closed = 0 := by
      obtain ⟨hphase, hheld⟩ := hidle _ s.nest.has_top
      simp [AllContext.closed, hphase, hheld]
    refine ⟨by rw [h.basepri, if_pos hclosed], ?_, ?_, h.lock.trans (AllContext.lock_of_closed hclosed)⟩
    · exact h.count.trans (hzero _ fun c hc => (hidle c hc).2)
    · refine h.suspended.trans (hzero _ fun c hc => ?_)
      obtain ⟨hphase, hheld⟩ := hidle c hc
      simp [AllContext.busy, hphase, hheld]

-- ---------------------------------------------------------------------------
-- Supervisor calls
-- ---------------------------------------------------------------------------

/-- The context relies on the raised priority, or will. -/
def AllContext.NeedsSvc (c : AllContext) : Prop := c.phase = .raised ∨ 0 < c.closed

/-- The context will lower the priority. -/
def AllContext.LowersSvc (c : AllContext) : Prop := c.NeedsSvc ∨ c.phase = .unmasked

/-- No handler lowers the priority of the supervisor call while a context is between raising it and
writing `BASEPRI`. -/
def SvcOrderly (s : AllState τ) : AllAction τ → Prop
  | .next => s.nest.top.phase = .unmasked → ∀ c, s.nest.Has c → c.phase ≠ .raised
  | _ => True

instance (s : AllState τ) : (a : AllAction τ) → Decidable (SvcOrderly s a)
  | .next => decidable_of_iff (s.nest.top.phase = .unmasked →
      (∀ t, (s.nest.task t).phase ≠ .raised) ∧ ∀ c ∈ s.nest.handlers, c.phase ≠ .raised) (by
    simp [SvcOrderly, Nest.Has, or_imp, forall_and])
  | .mask | .drop | .tryLock | .unlock | .preempt _ | .iret | .switch _ => isTrue trivial

/-- The priority of the supervisor call is raised for those who rely on it, and normal when nobody
is left to lower it. -/
structure SvcInv (P : Priorities) (s : AllState τ) : Prop where
  raised : (∃ c, s.nest.Has c ∧ c.NeedsSvc) → s.svcall = P.svcRaised
  lowered : s.svcall ≠ P.svcNormal → ∃ c, s.nest.Has c ∧ c.LowersSvc

omit [DecidableEq τ] [Fintype τ] in
theorem not_lowersSvc {prio : Nat} : ¬ AllContext.LowersSvc ⟨.idle, 0, false, prio⟩ := by
  simp [AllContext.LowersSvc, AllContext.NeedsSvc, AllContext.closed, AllContext.held]

omit [DecidableEq τ] [Fintype τ] in
theorem SvcInv.init (t : τ) : SvcInv P (AllState.init P t) := by
  refine ⟨?_, fun hne => absurd rfl hne⟩
  rintro ⟨c, ⟨t, rfl⟩ | hc, hneeds⟩
  · exact absurd (Or.inl hneeds) not_lowersSvc
  · simp [AllState.init] at hc

omit [Fintype τ] in
/-- A step of the context that runs that does not write the priority. -/
theorem SvcInv.setTop (h : SvcInv P s) {basepri maskCnt suspendCnt : Nat} {locked : Bool}
    (hneeds : c.NeedsSvc → s.nest.top.NeedsSvc) (hlowers : s.nest.top.LowersSvc → c.LowersSvc) :
    SvcInv P ⟨basepri, s.svcall, maskCnt, suspendCnt, locked, s.nest.setTop c⟩ := by
  refine ⟨?_, fun hne => ?_⟩
  · rintro ⟨d, hd, hneed⟩
    rcases hd.of_setTop with rfl | hd
    · exact h.raised ⟨_, s.nest.has_top, hneeds hneed⟩
    · exact h.raised ⟨d, hd, hneed⟩
  · obtain ⟨d, hd, hlower⟩ := h.lowered hne
    rcases hd.setTop (c := c) with rfl | hd
    · exact ⟨c, Nest.has_setTop, hlowers hlower⟩
    · exact ⟨d, hd, hlower⟩

omit [DecidableEq τ] [Fintype τ] in
/-- Contexts that have nothing come and go. -/
theorem SvcInv.congr (h : SvcInv P s) {nest : Nest τ AllContext}
    (hhas : ∀ c : AllContext, c.LowersSvc → (nest.Has c ↔ s.nest.Has c)) : SvcInv P { s with nest := nest } := by
  refine ⟨?_, fun hne => ?_⟩
  · rintro ⟨c, hc, hneeds⟩
    exact h.raised ⟨c, (hhas c (Or.inl hneeds)).mp hc, hneeds⟩
  · obtain ⟨c, hc, hlower⟩ := h.lowered hne
    exact ⟨c, (hhas c hlower).mpr hc, hlower⟩

theorem SvcInv.next (h : SvcInv P s) (hall : AllInv P s) (hok : SvcOrderly s (.next : AllAction τ))
    (hstep : s.next P = some s') : SvcInv P s' := by
  unfold AllState.next at hstep
  cases hphase : s.nest.top.phase with
  | idle => simp [hphase] at hstep
  | held =>
    simp only [hphase, Option.some.injEq] at hstep
    obtain rfl := hstep
    exact ⟨fun _ => rfl, fun _ => ⟨_, Nest.has_setTop, Or.inl (Or.inl rfl)⟩⟩
  | raised =>
    simp only [hphase, Option.some.injEq] at hstep
    obtain rfl := hstep
    exact h.setTop (fun _ => Or.inl hphase) fun _ => Or.inl (Or.inr (by simp [AllContext.closed]))
  | masked =>
    simp only [hphase] at hstep
    split at hstep
    · obtain rfl := Option.some.inj hstep
      refine h.setTop (fun _ => Or.inr (by simp [AllContext.closed, hphase])) fun _ => Or.inl (Or.inr ?_)
      simp only [AllContext.closed, AllContext.held]
      omega
    · cases hstep
  | discounted =>
    simp only [hphase, Option.some.injEq] at hstep
    obtain rfl := hstep
    exact h.setTop (fun _ => Or.inr (by simp [AllContext.closed, hphase])) fun _ => Or.inr rfl
  | unmasked =>
    simp only [hphase, Option.some.injEq] at hstep
    obtain rfl := hstep
    refine ⟨?_, fun hne => absurd rfl hne⟩
    rintro ⟨d, hd, hneeds⟩
    -- The last guard is gone, and only a context that has just raised the priority could mind.
    have hheld := hall.opening _ s.nest.has_top (Or.inr hphase)
    have htotal : s.nest.total AllContext.closed = 0 := by simp [hall.alone, AllContext.closed, hphase, hheld]
    rcases hd.of_setTop with rfl | hd
    · simp only [AllContext.held] at hheld
      simp [AllContext.NeedsSvc, AllContext.closed, AllContext.held] at hneeds
      omega
    · have hclosed : d.closed ≤ 0 := htotal ▸ Nest.le_total hd
      rcases hneeds with hraised | hpos
      · exact absurd hraised (hok hphase d hd)
      · omega
  | resuming =>
    simp only [hphase, Option.some.injEq] at hstep
    obtain rfl := hstep
    refine h.setTop ?_ ?_
    · simp [AllContext.NeedsSvc, AllContext.closed, AllContext.held, hphase]
    · simp [AllContext.LowersSvc, AllContext.NeedsSvc, AllContext.closed, AllContext.held, hphase]

theorem SvcInv.step (h : SvcInv P s) (hall : AllInv P s) (hok : SvcOrderly s a) (hstep : s.step P a = some s') :
    SvcInv P s' := by
  have hne : ∀ {c : AllContext} {prio : Nat}, c.LowersSvc → c ≠ ⟨.idle, 0, false, prio⟩ := by
    rintro c prio hlower rfl
    exact not_lowersSvc hlower
  cases a with
  | mask =>
    simp only [AllState.step] at hstep
    split at hstep
    · rename_i hphase
      obtain rfl := Option.some.inj hstep
      refine h.setTop ?_ ?_
      · simp [AllContext.NeedsSvc, AllContext.closed, AllContext.held, hphase]
      · simp [AllContext.LowersSvc, AllContext.NeedsSvc, AllContext.closed, AllContext.held, hphase]
    · cases hstep
  | drop =>
    simp only [AllState.step] at hstep
    split at hstep
    · rename_i htop
      split at hstep
      · cases hstep
      · obtain rfl := Option.some.inj hstep
        have hcount := hall.count.trans hall.held_eq
        refine h.setTop (fun _ => Or.inr ?_) fun _ => Or.inl (Or.inr ?_)
        · simp only [AllContext.closed, AllContext.held]
          omega
        · -- Either this is the last guard, or another one is left.
          by_cases hone : s.maskCnt = 1
          · simp [AllContext.closed, hone]
          · simp only [AllContext.closed, AllContext.held, if_neg hone] at hcount ⊢
            omega
    · cases hstep
  | next => exact h.next hall hok hstep
  | tryLock =>
    simp only [AllState.step] at hstep
    split at hstep
    · rename_i htop
      split at hstep
      · obtain rfl := Option.some.inj hstep
        exact h
      · obtain rfl := Option.some.inj hstep
        refine h.setTop (fun _ => Or.inr ?_) fun _ => Or.inl (Or.inr ?_)
        · simp only [AllContext.closed, AllContext.held]
          omega
        · simp [AllContext.closed, AllContext.held]
    · cases hstep
  | unlock =>
    simp only [AllState.step] at hstep
    split at hstep
    · rename_i htop
      obtain rfl := Option.some.inj hstep
      refine h.setTop (fun _ => Or.inr ?_) fun _ => Or.inl (Or.inr ?_)
      · simp [AllContext.closed, AllContext.held, htop.2]
      · simp [AllContext.closed, AllContext.held]
    · cases hstep
  | preempt prio =>
    simp only [AllState.step] at hstep
    split at hstep
    · obtain rfl := Option.some.inj hstep
      exact h.congr fun c hc => by simp [Nest.has_push, hne hc]
    · cases hstep
  | iret =>
    simp only [AllState.step] at hstep
    split at hstep
    · rename_i rest hcons
      obtain rfl := Option.some.inj hstep
      exact h.congr fun c hc => by simp [Nest.has_of_handlers hcons, hne hc]
    · cases hstep
  | switch t =>
    simp only [AllState.step] at hstep
    split at hstep
    · obtain rfl := Option.some.inj hstep
      exact h.congr fun c _ => Iff.rfl
    · cases hstep

/-- In every orderly run `BASEPRI` lets supervisor calls through. They have the raised priority while
anybody has a guard, and the normal one again when nobody has a guard or is in a call. -/
theorem exec_svc_passes (hok : Run.Allowed (AllState.step P) SvcOrderly (AllState.init P t) actions)
    (hrun : Run.exec (AllState.step P) (AllState.init P t) actions = some s) :
    s.Passes s.svcall ∧ (0 < s.nest.total AllContext.held → s.svcall = P.svcRaised) ∧
      ((∀ c, s.nest.Has c → c.phase = .idle ∧ c.held = 0) → s.svcall = P.svcNormal) := by
  have hinv : AllInv P s ∧ SvcInv P s :=
    Run.exec_inv_of_allowed (fun s => AllInv P s ∧ SvcInv P s)
      (fun h hok hstep => ⟨h.1.step hstep, h.2.step h.1 hok hstep⟩) ⟨AllInv.init t, SvcInv.init t⟩ hok hrun
  obtain ⟨hall, hsvc⟩ := hinv
  have hraised : 0 < s.nest.top.closed → s.svcall = P.svcRaised :=
    fun hpos => hsvc.raised ⟨_, s.nest.has_top, Or.inr hpos⟩
  have hbasepri := hall.basepri
  refine ⟨?_, fun hpos => hraised ?_, fun hidle => ?_⟩
  · split at hbasepri
    · exact Or.inl hbasepri
    · rename_i hclosed
      refine Or.inr ?_
      rw [hraised (Nat.pos_of_ne_zero hclosed), hbasepri]
      exact P.svc_allowed
  · rw [hall.held_eq] at hpos
    exact Nat.lt_of_lt_of_le hpos s.nest.top.held_le_closed
  · by_contra hne
    obtain ⟨c, hc, hlower⟩ := hsvc.lowered hne
    obtain ⟨hphase, hheld⟩ := hidle c hc
    simp [AllContext.LowersSvc, AllContext.NeedsSvc, AllContext.closed, hphase, hheld] at hlower

/-- The priorities of a board whose interrupts have the priorities 32 to 96. -/
def boardPriorities : Priorities where
  irqMax := 32
  irqMin := 96
  irqDisableBasepri := 32
  svcNormal := 112
  svcRaised := 16
  pendsv := 112
  irq_lt := by decide
  disable_le := by decide
  irq_lt_svc := by decide
  raised_lt := by decide
  svc_allowed := by decide
  svc_le_pendsv := by decide

/-- A task takes the spin lock, while a handler comes before it has masked anything. -/
def lockAll : List (AllAction Unit) :=
  [.mask, .preempt 64, .mask, .next, .next, .next, .drop, .next, .next, .next, .iret, .next, .next, .next, .tryLock]

theorem exec_alone_lock : ∃ s, Run.exec (AllState.step boardPriorities) (AllState.init boardPriorities ()) lockAll = some s ∧
    s.locked = true ∧ s.step boardPriorities (.preempt 64) = none := by
  obtain ⟨s, hrun, hlocked, hheld⟩ : ∃ s,
      Run.exec (AllState.step boardPriorities) (AllState.init boardPriorities ()) lockAll = some s ∧
        s.locked = true ∧ 0 < s.nest.total AllContext.held := ⟨_, rfl, rfl, by decide⟩
  exact ⟨s, hrun, hlocked, ((exec_alone hrun).1 hheld).2.1 64⟩

/-- The run passes through windows without a counted guard: the handler comes in one of them. -/
theorem exec_svc_passes_lock : ∃ s,
    Run.exec (AllState.step boardPriorities) (AllState.init boardPriorities ()) lockAll = some s ∧
      s.Passes s.svcall ∧ s.svcall = 16 := by
  obtain ⟨s, hrun, hheld⟩ : ∃ s,
      Run.exec (AllState.step boardPriorities) (AllState.init boardPriorities ()) lockAll = some s ∧
        0 < s.nest.total AllContext.held := ⟨_, rfl, by decide⟩
  have hok : Run.Allowed (AllState.step boardPriorities) SvcOrderly (AllState.init boardPriorities ()) lockAll := by
    decide
  obtain ⟨hpasses, hraised, -⟩ := exec_svc_passes hok hrun
  exact ⟨s, hrun, hpasses, hraised hheld⟩

/-- A handler masks all IRQs while a task is between raising the priority of the supervisor call and
writing `BASEPRI`: the task gets its guard, and its supervisor calls are masked. -/
theorem exec_svc_masked : ∃ s : AllState Unit,
    Run.exec (AllState.step boardPriorities) (AllState.init boardPriorities ())
        [.mask, .next, .preempt 64, .mask, .next, .next, .next, .drop, .next, .next, .next, .iret, .next, .next] =
        some s ∧
      (s.nest.task ()).guards = 1 ∧ s.nest.handlers = [] ∧ ¬ s.Passes s.svcall :=
  ⟨_, rfl, rfl, rfl, by decide⟩

end Hopter.Interrupt
