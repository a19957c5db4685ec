-- SUMMARY: The mask of all IRQs, with each of its writes and as two steps of the scheduler's model: the models agree.
import Hopter.Interrupt.MaskAll
import Hopter.Schedule.Suspension

/-!
# Masks of all IRQs

`Hopter.Interrupt.MaskAll` takes the calls of `AllIrqExceptSvc` apart into their writes, and
`Hopter.Schedule.Suspension` puts the writes to `BASEPRI` and `ALL_IRQ_MASK_CNT` into one step. When
nothing comes in between, a call does the same in both.
-/

namespace Hopter.Schedule

open Interrupt

variable {τ υ : Type} [DecidableEq τ] [DecidableEq υ] {P : Priorities} {a : AllState υ} {s : State τ} {k : List Instr}
  {levels : Nat}

/-- The counters are the same, and `BASEPRI` masks all interrupts when it is not zero. -/
structure Masks (a : AllState υ) (s : State τ) : Prop where
  suspendCnt : a.suspendCnt = s.suspendCnt
  maskCnt : a.maskCnt = s.maskCnt
  basepri : s.basepri = decide (a.basepri ≠ 0)

-- ---------------------------------------------------------------------------
-- A mask is taken
-- ---------------------------------------------------------------------------

theorem exec_mask (hidle : a.nest.top.phase = .idle) (hcnt : a.maskCnt < 2 ^ 32 - 1) :
    Run.exec (AllState.step P) a [.mask, .next, .next, .next] = some
      { a with
        basepri := P.irqDisableBasepri
        svcall := P.svcRaised
        maskCnt := a.maskCnt + 1
        suspendCnt := a.suspendCnt + 1
        nest := a.nest.setTop { a.nest.top with phase := .idle, guards := a.nest.top.guards + 1 } } := by
  simp only [Run.exec, AllState.step, AllState.next, hidle, hcnt, Nest.top_setTop, Nest.setTop_setTop, if_true,
    Option.bind_some]

theorem exec_hold (hdied : s.died = false) (hpendsv : s.pendsv = false) (hstack : s.stack = .hold .irq :: k)
    (x y : Choice τ) :
    Run.exec (step levels) s [.run x, .run y] = some
      { s with
        suspendCnt := s.suspendCnt + 1
        maskCnt := s.maskCnt + 1
        basepri := true
        held := Function.update s.held s.running (.irq :: s.held s.running)
        stack := k } := by
  simp [Run.exec, step, State.switches, hdied, hpendsv, hstack, runInstr]

/-- `mask` by the code of a task. -/
theorem Masks.hold (h : Masks a s) (hidle : a.nest.top.phase = .idle) (hcnt : a.maskCnt < 2 ^ 32 - 1)
    (hdied : s.died = false) (hpendsv : s.pendsv = false) (hstack : s.stack = .hold .irq :: k) (x y : Choice τ) :
    ∃ a' s', Run.exec (AllState.step P) a [.mask, .next, .next, .next] = some a' ∧
      Run.exec (step levels) s [.run x, .run y] = some s' ∧ Masks a' s' ∧
      a'.nest.top = { a.nest.top with guards := a.nest.top.guards + 1 } ∧
      s'.held s.running = .irq :: s.held s.running := by
  have hdisable : P.irqDisableBasepri ≠ 0 := by
    have := P.svc_allowed
    omega
  refine ⟨_, _, exec_mask hidle hcnt, exec_hold hdied hpendsv hstack x y, ⟨?_, ?_, ?_⟩, ?_, ?_⟩
  · exact congrArg (· + 1) h.suspendCnt
  · exact congrArg (· + 1) h.maskCnt
  · simp [hdisable]
  · simp [hidle]
  · simp

-- ---------------------------------------------------------------------------
-- A mask is dropped
-- ---------------------------------------------------------------------------

/-- The steps of the drop of a guard. -/
def dropSteps (a : AllState υ) : List (AllAction υ) :=
  if a.maskCnt = 1 then [.drop, .next, .next, .next] else [.drop, .next]

theorem exec_dropSteps (hidle : a.nest.top.phase = .idle) (hguards : 0 < a.nest.top.guards) (hcnt : a.maskCnt ≠ 0) :
    ∃ svcall, Run.exec (AllState.step P) a (dropSteps a) = some
      { a with
        basepri := if a.maskCnt = 1 then 0 else a.basepri
        svcall := svcall
        maskCnt := a.maskCnt - 1
        suspendCnt := a.suspendCnt - 1
        nest := a.nest.setTop { a.nest.top with phase := .idle, guards := a.nest.top.guards - 1 } } := by
  by_cases hone : a.maskCnt = 1
  · refine ⟨P.svcNormal, ?_⟩
    simp [dropSteps, Run.exec, AllState.step, AllState.next, hidle, hguards, hone, Nest.setTop_setTop]
  · refine ⟨a.svcall, ?_⟩
    simp [dropSteps, Run.exec, AllState.step, AllState.next, hidle, hguards, hone, hcnt, Nest.setTop_setTop]

theorem exec_drop {n : Nat} (hdied : s.died = false) (hpendsv : s.pendsv = false) (hstack : s.stack = .drop n :: k)
    (hheld : (s.held s.running)[n]? = some .irq) (x y z : Choice τ) :
    Run.exec (step levels) s [.run x, .run y, .run z] = some
      { s with
        suspendCnt := s.suspendCnt - 1
        maskCnt := s.maskCnt - 1
        basepri := if s.maskCnt = 1 then false else s.basepri
        held := Function.update s.held s.running ((s.held s.running).eraseIdx n)
        stack := .reschedule :: k } := by
  simp [Run.exec, step, State.switches, hdied, hpendsv, hstack, hheld, runInstr, Guard.release]

/-- The drop of a mask by the code of a task. -/
theorem Masks.drop {n : Nat} (h : Masks a s) (hidle : a.nest.top.phase = .idle) (hguards : 0 < a.nest.top.guards)
    (hcnt : a.maskCnt ≠ 0) (hdied : s.died = false) (hpendsv : s.pendsv = false) (hstack : s.stack = .drop n :: k)
    (hheld : (s.held s.running)[n]? = some .irq) (x y z : Choice τ) :
    ∃ a' s', Run.exec (AllState.step P) a (dropSteps a) = some a' ∧
      Run.exec (step levels) s [.run x, .run y, .run z] = some s' ∧ Masks a' s' ∧
      a'.nest.top = { a.nest.top with guards := a.nest.top.guards - 1 } ∧
      s'.held s.running = (s.held s.running).eraseIdx n := by
  obtain ⟨svcall, hdrop⟩ := exec_dropSteps (P := P) hidle hguards hcnt
  refine ⟨_, _, hdrop, exec_drop hdied hpendsv hstack hheld x y z, ⟨?_, ?_, ?_⟩, ?_, ?_⟩
  · exact congrArg (· - 1) h.suspendCnt
  · exact congrArg (· - 1) h.maskCnt
  · simp only [← h.maskCnt, h.basepri]
    split <;> simp
  · simp [hidle]
  · simp

end Hopter.Schedule
