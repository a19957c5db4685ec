-- SUMMARY: Recursive masking of an IRQ by tasks and nested interrupt handlers.
import Hopter.Base.Run
import Hopter.Base.Nest

/-!
# Masking an IRQ

`src/interrupt/declare.rs` and `src/interrupt/mask.rs`, for a type that `irq!` declares.
`mask` masks the IRQ in the NVIC and then counts its guard; dropping the guard takes it off
the count and then unmasks the IRQ, if it was the last one. A context can be preempted
between the two steps of either, by a handler that runs to its end or, at task level, by
another task.
-/

namespace Hopter.Interrupt

-- ---------------------------------------------------------------------------
-- Model
-- ---------------------------------------------------------------------------

/-- Where a context is in `__disable_recursive` and `__enable_recursive`. -/
inductive Phase where
  | idle
  /-- `NVIC::mask` has returned, and `fetch_add` is next. -/
  | counting
  /-- `fetch_sub` has returned 1, and `NVIC::unmask` is next. -/
  | unmasking
  deriving DecidableEq

structure Context where
  phase : Phase
  /-- How many guards the context has and has not started to drop. -/
  guards : Nat

structure MaskState (τ : Type) where
  /-- The IRQ is masked in the NVIC. -/
  masked : Bool
  /-- The count of the IRQ, a `usize`. -/
  maskCnt : Nat
  nest : Nest τ Context

def MaskState.init {τ : Type} (current : τ) : MaskState τ := ⟨false, 0, fun _ => ⟨.idle, 0⟩, current, []⟩

inductive MaskAction (τ : Type) where
  /-- The context that runs calls `mask`, up to `NVIC::mask`. -/
  | mask
  /-- It drops a guard, up to `fetch_sub`. -/
  | drop
  /-- It goes on with the call that it is in. -/
  | next
  /-- A handler starts. -/
  | preempt
  /-- The handler returns. -/
  | iret
  /-- Another task runs. -/
  | switch (t : τ)

variable {τ : Type} [DecidableEq τ]

/-- One step. A failed assertion stops the machine. -/
def MaskState.step (s : MaskState τ) : MaskAction τ → Option (MaskState τ)
  | .mask =>
    if s.nest.top.phase = .idle then
      some { s with masked := true, nest := s.nest.setTop ⟨.counting, s.nest.top.guards⟩ }
    else none
  | .drop =>
    if s.nest.top.phase = .idle ∧ 0 < s.nest.top.guards then
      -- `assert!(prev_cnt > 0)`
      if s.maskCnt = 0 then none
      else some
        { s with
          maskCnt := s.maskCnt - 1
          nest := s.nest.setTop ⟨if s.maskCnt = 1 then .unmasking else .idle, s.nest.top.guards - 1⟩ }
    else none
  | .next =>
    match s.nest.top.phase with
    | .idle => none
    | .counting =>
      -- `assert!(prev_cnt < usize::MAX)`
      if s.maskCnt < 2 ^ 32 - 1 then
        some { s with maskCnt := s.maskCnt + 1, nest := s.nest.setTop ⟨.idle, s.nest.top.guards + 1⟩ }
      else none
    | .unmasking => some { s with masked := false, nest := s.nest.setTop ⟨.idle, s.nest.top.guards⟩ }
  | .preempt => some { s with nest := s.nest.push ⟨.idle, 0⟩ }
  | .iret =>
    match s.nest.handlers with
    | ⟨.idle, 0⟩ :: _ => some { s with nest := s.nest.pop }
    | _ => none
  | .switch t => if s.nest.handlers = [] then some { s with nest := s.nest.switch t } else none

-- ---------------------------------------------------------------------------
-- Orderly runs
-- ---------------------------------------------------------------------------

variable [Fintype τ] {s s' : MaskState τ}

/-- The IRQ is unmasked only while the count is zero and no context is between `NVIC::mask`
and `fetch_add`. -/
def Orderly (s : MaskState τ) : MaskAction τ → Prop
  | .next => s.nest.top.phase = .unmasking → s.maskCnt = 0 ∧ ∀ c, s.nest.Has c → c.phase ≠ .counting
  | _ => True

instance (s : MaskState τ) : (a : MaskAction τ) → Decidable (Orderly s a)
  | .next => decidable_of_iff (s.nest.top.phase = .unmasking → s.maskCnt = 0 ∧
      (∀ t, (s.nest.task t).phase ≠ .counting) ∧ ∀ c ∈ s.nest.handlers, c.phase ≠ .counting) (by
    simp [Orderly, Nest.Has, or_imp, forall_and])
  | .mask | .drop | .preempt | .iret | .switch _ => isTrue trivial

/-- The number of guards that are held. -/
def MaskState.guards (s : MaskState τ) : Nat := s.nest.total Context.guards

/-- The count is that of the guards. The IRQ is masked for every guard that is held or being
taken, and when it is masked, some context will unmask it. -/
structure MaskInv (s : MaskState τ) : Prop where
  count : s.maskCnt = s.guards
  masked : 0 < s.guards ∨ (∃ c, s.nest.Has c ∧ c.phase = .counting) → s.masked = true
  busy : s.masked = true → 0 < s.guards ∨ ∃ c, s.nest.Has c ∧ c.phase ≠ .idle

omit [DecidableEq τ] in
theorem MaskInv.init (t : τ) : MaskInv (MaskState.init t) := by
  have hzero : (MaskState.init t).guards = 0 := by
    simp [MaskState.init, MaskState.guards, Nest.total]
  refine ⟨hzero.symm, ?_, by simp [MaskState.init]⟩
  rintro (h | ⟨c, ⟨t, rfl⟩ | hc, hphase⟩)
  · omega
  · cases hphase
  · simp [MaskState.init] at hc

omit [DecidableEq τ] in
/-- The invariant depends on the contexts that are not idle only. -/
theorem MaskInv.congr {nest : Nest τ Context} (h : MaskInv s)
    (hguards : nest.total Context.guards = s.guards)
    (hhas : ∀ d, d.phase ≠ .idle → (nest.Has d ↔ s.nest.Has d)) : MaskInv { s with nest := nest } := by
  refine ⟨h.count.trans hguards.symm, ?_, fun hm => ?_⟩
  · rintro (hpos | ⟨d, hd, hphase⟩)
    · exact h.masked (Or.inl (Nat.lt_of_lt_of_eq hpos hguards))
    · exact h.masked (Or.inr ⟨d, (hhas d (by simp [hphase])).mp hd, hphase⟩)
  · rcases h.busy hm with hpos | ⟨d, hd, hphase⟩
    · exact Or.inl (Nat.lt_of_lt_of_eq hpos hguards.symm)
    · exact Or.inr ⟨d, (hhas d hphase).mpr hd, hphase⟩

/-- The guards after a step of the context that runs. -/
theorem MaskState.guards_setTop (s : MaskState τ) (phase : Phase) (guards : Nat) :
    (s.nest.setTop ⟨phase, guards⟩).total Context.guards + s.nest.top.guards = s.guards + guards :=
  Nest.total_setTop

theorem MaskInv.mask (h : MaskInv s) :
    MaskInv { s with masked := true, nest := s.nest.setTop ⟨.counting, s.nest.top.guards⟩ } := by
  have hguards := s.guards_setTop .counting s.nest.top.guards
  refine ⟨?_, fun _ => rfl, fun _ => Or.inr ⟨_, Nest.has_setTop, by simp⟩⟩
  have hcount := h.count
  simp only [MaskState.guards] at hcount hguards ⊢
  omega

theorem MaskInv.drop (h : MaskInv s) (hpos : 0 < s.nest.top.guards) :
    MaskInv
      { s with
        maskCnt := s.maskCnt - 1
        nest := s.nest.setTop ⟨if s.maskCnt = 1 then .unmasking else .idle, s.nest.top.guards - 1⟩ } := by
  have hguards := s.guards_setTop (if s.maskCnt = 1 then .unmasking else .idle) (s.nest.top.guards - 1)
  have hcount := h.count
  have hle : s.nest.top.guards ≤ s.guards := Nest.le_total s.nest.has_top
  refine ⟨?_, fun _ => h.masked (Or.inl (by omega)), fun _ => ?_⟩
  · simp only [MaskState.guards] at hcount hguards hle ⊢
    omega
  · -- The last guard: the context goes on to unmask the IRQ.
    by_cases hone : s.maskCnt = 1
    · exact Or.inr ⟨_, Nest.has_setTop, by simp [hone]⟩
    · refine Or.inl ?_
      simp only [MaskState.guards] at hcount hguards hle ⊢
      omega

/-- The guard is counted: the IRQ has stayed masked since `NVIC::mask`. -/
theorem MaskInv.counted (h : MaskInv s) (hphase : s.nest.top.phase = .counting) :
    MaskInv { s with maskCnt := s.maskCnt + 1, nest := s.nest.setTop ⟨.idle, s.nest.top.guards + 1⟩ } := by
  have hguards := s.guards_setTop .idle (s.nest.top.guards + 1)
  have hcount := h.count
  refine ⟨?_, fun _ => h.masked (Or.inr ⟨_, s.nest.has_top, hphase⟩), fun _ => Or.inl ?_⟩
  · simp only [MaskState.guards] at hcount hguards ⊢
    omega
  · simp only [MaskState.guards] at hguards ⊢
    omega

/-- The IRQ is unmasked, and nobody relies on the mask. -/
theorem MaskInv.unmasked (h : MaskInv s) (hzero : s.maskCnt = 0)
    (hnone : ∀ c, s.nest.Has c → c.phase ≠ .counting) :
    MaskInv { s with masked := false, nest := s.nest.setTop ⟨.idle, s.nest.top.guards⟩ } := by
  have hguards := s.guards_setTop .idle s.nest.top.guards
  have hcount := h.count
  simp only [MaskState.guards] at hguards hcount
  refine ⟨?_, ?_, by simp⟩
  · simp only [MaskState.guards]
    omega
  · rintro (hpos | ⟨d, hd, hphase⟩)
    · simp only [MaskState.guards] at hpos
      omega
    · rcases hd.of_setTop with rfl | hd
      · cases hphase
      · exact absurd hphase (hnone d hd)

theorem MaskInv.step {a : MaskAction τ} (h : MaskInv s) (hok : Orderly s a) (hstep : s.step a = some s') :
    MaskInv s' := by
  have hne : ∀ {d : Context}, d.phase ≠ .idle → d ≠ ⟨.idle, 0⟩ := by
    rintro d hd rfl
    exact hd rfl
  cases a with
  | mask =>
    simp only [MaskState.step] at hstep
    split at hstep
    · obtain rfl := Option.some.inj hstep
      exact h.mask
    · cases hstep
  | drop =>
    simp only [MaskState.step] at hstep
    split at hstep
    · rename_i htop
      split at hstep
      · cases hstep
      · obtain rfl := Option.some.inj hstep
        exact h.drop htop.2
    · cases hstep
  | next =>
    simp only [MaskState.step] at hstep
    split at hstep
    · cases hstep
    · rename_i hphase
      split at hstep
      · obtain rfl := Option.some.inj hstep
        exact h.counted hphase
      · cases hstep
    · rename_i hphase
      obtain rfl := Option.some.inj hstep
      obtain ⟨hzero, hnone⟩ := hok hphase
      exact h.unmasked hzero hnone
  | preempt =>
    obtain rfl := Option.some.inj hstep
    exact h.congr (by simp [MaskState.guards]) fun d hd => by simp [Nest.has_push, hne hd]
  | iret =>
    simp only [MaskState.step] at hstep
    split at hstep
    · rename_i rest hcons
      obtain rfl := Option.some.inj hstep
      have htotal := Nest.total_pop (f := Context.guards) hcons
      exact h.congr (by simpa [MaskState.guards] using htotal) fun d hd => by
        simp [Nest.has_of_handlers hcons, hne hd]
    · cases hstep
  | switch t =>
    simp only [MaskState.step] at hstep
    split at hstep
    · obtain rfl := Option.some.inj hstep
      exact h.congr rfl fun d _ => Iff.rfl
    · cases hstep

/-- In every orderly run, the IRQ is masked while a context has a guard that it has not
started to drop, and unmasked while no guard is held, being taken or being dropped. -/
theorem exec_masked {t : τ} {actions : List (MaskAction τ)}
    (hok : Run.Allowed MaskState.step Orderly (MaskState.init t) actions)
    (hrun : Run.exec MaskState.step (MaskState.init t) actions = some s) :
    ((∃ c, s.nest.Has c ∧ 0 < c.guards) → s.masked = true) ∧
      ((∀ c, s.nest.Has c → c.phase = .idle ∧ c.guards = 0) → s.masked = false) := by
  have hinv : MaskInv s :=
    Run.exec_inv_of_allowed MaskInv (fun h hok hstep => h.step hok hstep) (MaskInv.init t) hok hrun
  refine ⟨?_, fun hidle => ?_⟩
  · rintro ⟨c, hc, hpos⟩
    exact hinv.masked (Or.inl (Nat.lt_of_lt_of_le hpos (Nest.le_total hc)))
  · by_contra hmasked
    rcases hinv.busy (by simpa using hmasked) with hpos | ⟨c, hc, hphase⟩
    · obtain ⟨c, hc, hguards⟩ := Nest.exists_of_total_pos hpos
      have := (hidle c hc).2
      omega
    · exact hphase (hidle c hc).1

/-- A task masks the IRQ twice, and drops one guard while a handler masks it as well. -/
def nestedMasks : List (MaskAction Unit) :=
  [.mask, .next, .mask, .preempt, .mask, .next, .drop, .iret, .next, .drop]

theorem exec_masked_nested : ∃ s,
    Run.exec MaskState.step (MaskState.init ()) nestedMasks = some s ∧ s.maskCnt = 1 ∧ s.masked = true := by
  obtain ⟨s, hrun, hguards, hcnt⟩ : ∃ s,
      Run.exec MaskState.step (MaskState.init ()) nestedMasks = some s ∧ (s.nest.task ()).guards = 1 ∧
        s.maskCnt = 1 := ⟨_, rfl, rfl, rfl⟩
  have hok : Run.Allowed MaskState.step Orderly (MaskState.init ()) nestedMasks := by
    decide
  exact ⟨s, hrun, hcnt, (exec_masked hok hrun).1 ⟨_, Or.inl ⟨(), rfl⟩, by omega⟩⟩

/-- A handler masks and unmasks the IRQ while a task is between `NVIC::mask` and `fetch_add`:
the task gets its guard, and the IRQ is not masked. -/
theorem exec_guard_not_masked : ∃ s : MaskState Unit,
    Run.exec MaskState.step (MaskState.init ()) [.mask, .preempt, .mask, .next, .drop, .next, .iret, .next] =
        some s ∧
      s.nest.task () = ⟨.idle, 1⟩ ∧ s.nest.handlers = [] ∧ s.masked = false :=
  ⟨_, rfl, rfl, rfl, rfl⟩

end Hopter.Interrupt
