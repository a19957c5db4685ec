-- SUMMARY: A context switch that is requested can be made: nothing below the handlers keeps the scheduler suspended.
import Hopter.Exec.Contexts

/-!
# Context switches

PendSV is taken when all handlers have returned. It must not find the scheduler suspended:
`pick_next` would not return. A switch is requested by code of a task that does not hold a
suspension guard (`calm`), or when the last suspension guard is dropped; and from then on
the task does not run.
-/

namespace Hopter.Exec

variable {Λ ω β σ τ ι χ : Type}

/-- The part of the stack that belongs to the task has no suspension guard. -/
def Unheld (k : List (Instr Λ ω β)) : Prop :=
  ∀ k', k' <:+ k → taskLevel k' = true → ∀ i ∈ k', i.isResume = false

/-- Below every instruction that is calm there is neither a suspension guard nor a handler. -/
def Quiet (calm : Instr Λ ω β → Prop) : List (Instr Λ ω β) → Prop
  | [] => True
  | i :: k => (calm i → ∀ j ∈ k, j.isResume = false ∧ j.isFrame = false) ∧ Quiet calm k

/-- What a kernel object promises about calm code. -/
structure Calm (M : Spec Λ ω β σ τ ι χ) (calm : Instr Λ ω β → Prop) : Prop where
  control : ∀ i, i.isControl = true → calm i → i = .code .mayBlock ∨ i = .code .yield
  guard : ∀ l must op, ¬ calm (.guard l must op)
  full : ∀ l op, ∀ c ∈ M.full l op, ¬ calm (.code c)
  pend : ∀ l op, ∀ c ∈ M.pend l op, ¬ calm (.code c)
  pended : ∀ l, ∀ c ∈ M.pended l, ¬ calm (.code c)
  handler : ∀ i, ∀ c ∈ M.handler i, ¬ calm (.code c)
  pickNext : ∀ c ∈ M.pickNext, ¬ calm (.code c)
  exec : ∀ {c b x c' cs}, M.exec c b x = some (c', cs) → ∀ d ∈ cs, calm (.code d) →
    calm (.code (.body b))

variable {M : Spec Λ ω β σ τ ι χ} {calm : Instr Λ ω β → Prop} {k k' : List (Instr Λ ω β)}
  {cs : List (Code Λ ω β)} {i : Instr Λ ω β}

-- ---------------------------------------------------------------------------
-- Calm code
-- ---------------------------------------------------------------------------

theorem Quiet.push (h : Quiet calm k)
    (hcs : ∀ c ∈ cs, calm (.code c) → ∀ j ∈ k, j.isResume = false ∧ j.isFrame = false) :
    Quiet calm (push cs k) := by
  induction cs with
  | nil => exact h
  | cons c cs ih =>
    rw [List.forall_mem_cons] at hcs
    refine ⟨fun hcalm => ?_, ih hcs.2⟩
    have hcode : ∀ d ∈ cs, (Instr.code d : Instr Λ ω β).isResume = false ∧
        (Instr.code d : Instr Λ ω β).isFrame = false := fun d _ => ⟨rfl, rfl⟩
    exact forall_mem_push hcode (hcs.1 hcalm)

/-- Where nothing is suspended and no handler is active, all code is calm. -/
theorem quiet_of_forall (h : ∀ j ∈ k, j.isResume = false ∧ j.isFrame = false) : Quiet calm k := by
  induction k with
  | nil => trivial
  | cons j k ih =>
    rw [List.forall_mem_cons] at h
    exact ⟨fun _ => h.2, ih h.2⟩

theorem Unheld.of_forall (h : ∀ j ∈ k, j.isResume = false) : Unheld k :=
  fun _ hk' _ i hi => h i (hk'.subset hi)

theorem Unheld.suffix (h : Unheld k) (hk : k' <:+ k) : Unheld k' :=
  fun _ hk'' htask => h _ (hk''.trans hk) htask

/-- Above a handler everything may be put on the stack. -/
theorem Unheld.append (h : Unheld k) (hframe : taskLevel k = false) (N : List (Instr Λ ω β)) :
    Unheld (N ++ k) := by
  intro k' hk' htask
  rcases List.suffix_or_suffix_of_suffix hk' (List.suffix_append N k) with hsub | hsub
  · exact h k' hsub htask
  · -- The suffix contains the handler.
    obtain ⟨pre, rfl⟩ := hsub
    simp only [taskLevel, List.all_append, Bool.and_eq_true] at htask hframe
    rw [hframe] at htask
    exact absurd htask.2 (by simp)

variable [DecidableEq Λ] [DecidableEq τ] {s s' : State Λ ω β σ τ} {own : β → Option (Λ × Access)}

theorem Quiet.control (hM : Calm M calm) (hsound : Sound own s)
    (hsuspended : ∀ b k, s.stack = .code (.suspended b) :: k → ¬ calm (.code (.body b)))
    (h : Quiet calm s.stack) (hstep : Control M s s') : Quiet calm s'.stack := by
  have hc : ∀ (i : Instr Λ ω β) {P : Prop}, i.isControl = true → i ≠ .code .mayBlock →
      i ≠ .code .yield → calm i → P := by
    intro i P hi hmay hyield hcalm
    rcases hM.control i hi hcalm with h | h
    · exact absurd h hmay
    · exact absurd h hyield
  cases hstep with
  | access hk =>
    rw [hk] at h
    exact ⟨fun hcalm => absurd hcalm (hM.guard _ _ _), hc .resume rfl (by simp) (by simp), h.2⟩
  | suspended hk =>
    have hnot := hsuspended _ _ hk
    rw [hk] at h
    exact ⟨fun hcalm => absurd hcalm hnot, hc .resume rfl (by simp) (by simp), h.2⟩
  | win hk _ =>
    rw [hk] at h
    exact Quiet.push ⟨hc _ rfl (by simp) (by simp), h.2⟩ fun d hd hcalm =>
      absurd hcalm (hM.full _ _ d hd)
  | lose hk _ =>
    rw [hk] at h
    exact Quiet.push ⟨hc _ rfl (by simp) (by simp), h.2⟩ fun d hd hcalm =>
      absurd hcalm (hM.pend _ _ d hd)
  | settle hk _ =>
    rw [hk] at h
    exact Quiet.push ⟨hc _ rfl (by simp) (by simp), h.2⟩ fun d hd hcalm =>
      absurd hcalm (hM.pended _ d hd)
  | mayBlock hk _ _ =>
    rw [hk] at h
    exact h.2
  | yield hk | setPending hk | leave hk _ | iret hk =>
    rw [hk] at h
    exact h.2
  | reschedule hk _ =>
    rw [hk] at h
    exact h.2
  | pass hk _ | unlock hk | retry hk _ | relock hk _ | resume hk =>
    rw [hk] at h
    exact ⟨hc _ rfl (by simp) (by simp), h.2⟩
  | restore hk => exact quiet_of_forall fun j hj => (hsound.saved _ j hj).2
  | preempt n =>
    exact Quiet.push ⟨hc _ rfl (by simp) (by simp), h⟩ fun d hd hcalm =>
      absurd hcalm (hM.handler n d hd)
  | pendsv _ _ =>
    exact Quiet.push ⟨hc _ rfl (by simp) (by simp), trivial⟩ fun d hd hcalm =>
      absurd hcalm (hM.pickNext d hd)

omit [DecidableEq Λ] [DecidableEq τ] in
theorem Quiet.body {b : β} {c : σ} {x : χ} (hM : Calm M calm) (h : Quiet calm s.stack)
    (hk : s.stack = .code (.body b) :: k) (hexec : M.exec s.content b x = some (c, cs)) :
    Quiet calm (Exec.push cs k) := by
  rw [hk] at h
  exact h.2.push fun d hd hcalm => h.1 (hM.exec hexec d hd hcalm)

-- ---------------------------------------------------------------------------
-- Requests of a context switch
-- ---------------------------------------------------------------------------

/-- What an instruction does to the request of a context switch. -/
theorem runInstr_pendsv {x : χ} (h : runInstr M s x k i = some s') : s'.pendsv =
    match i with
    | .code .yield => true
    | .reschedule => if s.suspendCnt = 0 ∧ M.wantsSwitch s.content = true then true else s.pendsv
    | _ => s.pendsv := by
  cases i with
  | code c =>
    cases c with
    | body b =>
      simp only [runInstr, Option.map_eq_some_iff] at h
      obtain ⟨⟨c, cs⟩, -, rfl⟩ := h
      rfl
    | access l must op | suspended b | yield =>
      obtain rfl := Option.some.inj h
      rfl
    | mayBlock =>
      simp only [runInstr] at h
      split at h
      · obtain rfl := Option.some.inj h
        rfl
      · exact absurd h (by simp)
  | setPending l | unlock l | resume | reschedule | iret =>
    obtain rfl := Option.some.inj h
    rfl
  | guard l must op =>
    simp only [runInstr] at h
    split at h
    · obtain rfl := Option.some.inj h
      rfl
    · split at h
      · exact absurd h (by simp)
      · obtain rfl := Option.some.inj h
        rfl
  | swapPending l | checkPending l =>
    simp only [runInstr] at h
    split at h <;>
    · obtain rfl := Option.some.inj h
      rfl
  | relock l | restore =>
    simp only [runInstr] at h
    split at h
    · obtain rfl := Option.some.inj h
      rfl
    · exact absurd h (by simp)

theorem step_run {x : χ} (h : step M s (.run x) = some s') :
    ∃ i k, s.stack = i :: k ∧ (s.pendsv = true → taskLevel s.stack = false) ∧
      runInstr M s x k i = some s' := by
  simp only [step] at h
  split at h
  · exact absurd h (by simp)
  · rename_i i k hk
    split at h
    · exact absurd h (by simp)
    · rename_i hcond
      exact ⟨i, k, hk, fun hp => by simpa [hp] using hcond, h⟩

theorem step_of_takes {a : Action ι χ} {b : β} (h : step M s a = some s') (hb : takes s a = some b) :
    ∃ x k c cs, s.stack = .code (.body b) :: k ∧ M.exec s.content b x = some (c, cs) ∧
      s' = { s with content := c, stack := push cs k } := by
  cases a with
  | run x =>
    obtain ⟨i, k, hk, -, hrun⟩ := step_run h
    obtain rfl : i = .code (.body b) := by
      simp only [takes, hk] at hb
      split at hb
      · simp_all
      · cases hb
    simp only [runInstr, Option.map_eq_some_iff] at hrun
    obtain ⟨⟨c, cs⟩, hexec, rfl⟩ := hrun
    exact ⟨x, k, c, cs, hk, hexec, rfl⟩
  | preempt i => cases hb
  | pendsv => cases hb

/-- While a PendSV is pending, kernel objects take steps in handlers only. -/
theorem step_takes_pendsv {a : Action ι χ} {b : β} (h : step M s a = some s') (hb : takes s a = some b)
    (hpendsv : s.pendsv = true) : taskLevel s.stack = false := by
  cases a with
  | run x =>
    obtain ⟨_, _, -, hlevel, -⟩ := step_run h
    exact hlevel hpendsv
  | preempt i => cases hb
  | pendsv => cases hb

/-- An instruction stays on the stack until it runs, or until PendSV switches the task out. -/
theorem step_mem {a : Action ι χ} (h : step M s a = some s') (hi : i ∈ s.stack) :
    i ∈ s'.stack ∨ (∃ x k, s.stack = i :: k ∧ runInstr M s x k i = some s') ∨
      s'.stack = push M.pickNext [.restore] := by
  cases a with
  | run x =>
    obtain ⟨j, k, hk, -, hrun⟩ := step_run h
    rcases runInstr_cases hk hrun with ⟨b, c, cs, -, -, rfl⟩ | hcontrol
    · rw [hk] at hi
      rcases List.mem_cons.mp hi with rfl | hi
      · exact Or.inr (Or.inl ⟨x, k, hk, hrun⟩)
      · exact Or.inl (List.mem_append_right _ hi)
    · rcases hcontrol.mem_or hi with hi | ⟨k', hk'⟩ | hpick
      · exact Or.inl hi
      · obtain ⟨rfl, rfl⟩ : j = i ∧ k = k' := by simpa [hk] using hk'
        exact Or.inr (Or.inl ⟨x, k, hk, hrun⟩)
      · exact Or.inr (Or.inr hpick)
  | preempt n =>
    obtain rfl := Option.some.inj h
    exact Or.inl (List.mem_append_right _ (List.mem_cons_of_mem _ hi))
  | pendsv =>
    simp only [step] at h
    split at h
    · obtain rfl := Option.some.inj h
      exact Or.inr (Or.inr rfl)
    · exact absurd h (by simp)

/-- A request of a context switch stays until the switch is made. -/
theorem step_pendsv_of {a : Action ι χ} (h : step M s a = some s') (hpendsv : s.pendsv = true) :
    s'.pendsv = true ∨ s'.stack = push M.pickNext [.restore] := by
  cases a with
  | run x =>
    obtain ⟨i, k, hk, -, hrun⟩ := step_run h
    have heq := runInstr_pendsv hrun
    left
    rw [heq]
    split <;> simp [hpendsv]
  | preempt i =>
    obtain rfl := Option.some.inj h
    exact Or.inl hpendsv
  | pendsv =>
    simp only [step] at h
    split at h
    · obtain rfl := Option.some.inj h
      exact Or.inr rfl
    · exact absurd h (by simp)

/-- What requests a context switch, and what a request needs that stays. -/
theorem step_pendsv_cases {a : Action ι χ} (h : step M s a = some s') (hpendsv : s'.pendsv = true) :
    (∃ k, s.stack = .code .yield :: k ∧ s'.stack = k) ∨
      (∃ k, s.stack = .reschedule :: k ∧ s'.stack = k ∧ s.suspendCnt = 0) ∨
      s.pendsv = true ∧ (taskLevel s.stack = false ∨ ∃ i, a = .preempt i) := by
  cases a with
  | run x =>
    obtain ⟨i, k, hk, hlevel, hrun⟩ := step_run h
    have heq := runInstr_pendsv hrun
    rw [hpendsv] at heq
    split at heq
    · rename_i hyield
      obtain rfl := Option.some.inj hyield
      exact Or.inl ⟨k, hk, rfl⟩
    · rename_i hreschedule
      obtain rfl := Option.some.inj hreschedule
      split at heq
      · rename_i hcond
        exact Or.inr (Or.inl ⟨k, hk, rfl, hcond.1⟩)
      · exact Or.inr (Or.inr ⟨heq.symm, Or.inl (hlevel heq.symm)⟩)
    · exact Or.inr (Or.inr ⟨heq.symm, Or.inl (hlevel heq.symm)⟩)
  | preempt i =>
    obtain rfl := Option.some.inj h
    exact Or.inr (Or.inr ⟨hpendsv, Or.inr ⟨i, rfl⟩⟩)
  | pendsv =>
    simp only [step] at h
    split at h
    · obtain rfl := Option.some.inj h
      exact absurd hpendsv (by simp)
    · exact absurd h (by simp)

omit [DecidableEq Λ] [DecidableEq τ] in
/-- A step on top of the stack, above a handler. -/
theorem Unheld.replace {N : List (Instr Λ ω β)} (h : Unheld s.stack) (hk : s.stack = i :: k)
    (hi : i.isFrame = false) (hframe : taskLevel s.stack = false) : Unheld (N ++ k) := by
  rw [hk] at h hframe
  have hrest : taskLevel k = false := by simpa [taskLevel, hi] using hframe
  exact (h.suffix (List.suffix_cons i k)).append hrest N

theorem Unheld.step {a : Action ι χ} (hyield : calm (.code .yield)) (hsound : Sound own s)
    (hquiet : Quiet calm s.stack) (h : s.pendsv = true → Unheld s.stack) (hstep : step M s a = some s') (hpendsv : s'.pendsv = true) : Unheld s'.stack := by
  rcases step_pendsv_cases hstep hpendsv with ⟨k, hk, hk'⟩ | ⟨k, hk, hk', hcnt⟩ | ⟨hp, hlevel⟩
  · rw [hk] at hquiet
    rw [hk']
    exact Unheld.of_forall fun j hj => (hquiet.1 hyield j hj).1
  · have hcount := hsound.suspend
    rw [hcnt, eq_comm, List.countP_eq_zero] at hcount
    rw [hk']
    exact Unheld.of_forall fun j hj => by simpa using hcount j (by simp [hk, hj])
  · have hun := h hp
    -- An interrupt may come in at any time.
    have hpreempt : ∀ n, Unheld (Exec.push (M.handler n) (.iret :: s.stack)) := by
      intro n
      refine Unheld.append (fun k' hk' htask => ?_) rfl _
      rcases List.suffix_cons_iff.mp hk' with rfl | hk'
      · exact absurd htask (by simp [taskLevel, Instr.isFrame])
      · exact hun k' hk' htask
    rcases hlevel with hframe | ⟨n, rfl⟩
    · rcases step_cases hstep with ⟨x, b, k, c, cs, hk, -, rfl⟩ | hcontrol
      · exact hun.replace hk rfl hframe
      · cases hcontrol with
        | access hk => exact hun.replace (N := [_, _]) hk rfl hframe
        | suspended hk => exact hun.replace (N := [_, _]) hk rfl hframe
        | @win l must op k hk _ =>
          have := hun.replace (N := (M.full l op).map Instr.code ++ [.swapPending l]) hk rfl hframe
          simpa [Exec.push] using this
        | @lose l op k hk _ =>
          have := hun.replace (N := (M.pend l op).map Instr.code ++ [.setPending l]) hk rfl hframe
          simpa [Exec.push] using this
        | @settle l k hk _ =>
          have := hun.replace (N := (M.pended l).map Instr.code ++ [.unlock l]) hk rfl hframe
          simpa [Exec.push] using this
        | mayBlock hk _ _ => exact hun.replace (N := []) hk rfl hframe
        | yield hk | setPending hk | leave hk _ => exact hun.replace (N := []) hk rfl hframe
        | reschedule hk _ => exact hun.replace (N := []) hk rfl hframe
        | pass hk _ | unlock hk | retry hk _ | relock hk _ | resume hk =>
          exact hun.replace (N := [_]) hk rfl hframe
        | iret hk =>
          rw [hk] at hun
          exact hun.suffix (List.suffix_cons _ _)
        | restore hk => exact Unheld.of_forall fun j hj => (hsound.saved _ j hj).2.1
        | preempt n => exact hpreempt n
        | pendsv _ _ => exact absurd hpendsv (by simp)
    · obtain rfl := Option.some.inj hstep
      exact hpreempt n

omit [DecidableEq τ] in
/-- PendSV finds the scheduler not suspended. -/
theorem Unheld.suspendCnt_eq_zero (hsound : Sound own s) (h : Unheld s.stack)
    (htask : taskLevel s.stack = true) : s.suspendCnt = 0 := by
  rw [hsound.suspend, List.countP_eq_zero]
  intro i hi
  simp [h s.stack List.suffix_rfl htask i hi]

-- ---------------------------------------------------------------------------
-- Requests are not forgotten
-- ---------------------------------------------------------------------------

/-- When a context switch is due, PendSV is pending or about to choose a task, or a suspension
guard is still to be dropped. -/
def Requested (M : Spec Λ ω β σ τ ι χ) (s : State Λ ω β σ τ) : Prop :=
  M.wantsSwitch s.content = true → s.pendsv = true ∨ .resume ∈ s.stack ∨ .reschedule ∈ s.stack ∨
    ∃ c ∈ M.pickNext, .code c ∈ s.stack

/-- The instruction drops no suspension guard, and does not begin an access. -/
def Instr.keepsRequest : Instr Λ ω β → Bool
  | .resume | .reschedule | .code (.access _ _ _) => false
  | _ => true

omit [DecidableEq Λ] [DecidableEq τ] in
theorem Requested.keep (hpick : ∀ c ∈ M.pickNext, ∃ l must op, c = .access l must op) (h : Requested M s)
    (hk : s.stack = i :: k) (hsub : ∀ j ∈ k, j ∈ s'.stack)
    (hwants : M.wantsSwitch s'.content = true → M.wantsSwitch s.content = true)
    (hpendsv : s.pendsv = true → s'.pendsv = true) (hi : i.keepsRequest = true) : Requested M s' := by
  intro hw
  rcases h (hwants hw) with hp | hp | hp | ⟨c, hc, hp⟩
  · exact Or.inl (hpendsv hp)
  · rw [hk] at hp
    rcases List.mem_cons.mp hp with rfl | hp
    · exact absurd hi (by simp [Instr.keepsRequest])
    · exact Or.inr (Or.inl (hsub _ hp))
  · rw [hk] at hp
    rcases List.mem_cons.mp hp with rfl | hp
    · exact absurd hi (by simp [Instr.keepsRequest])
    · exact Or.inr (Or.inr (Or.inl (hsub _ hp)))
  · obtain ⟨l, must, op, rfl⟩ := hpick c hc
    rw [hk] at hp
    rcases List.mem_cons.mp hp with rfl | hp
    · exact absurd hi (by simp [Instr.keepsRequest])
    · exact Or.inr (Or.inr (Or.inr ⟨_, hc, hsub _ hp⟩))

omit [DecidableEq τ] in
/-- Only steps of accesses ask for a context switch. They have a suspension guard below. -/
theorem Requested.body {b : β} {c : σ} (hpick : ∀ c ∈ M.pickNext, ∃ l must op, c = .access l must op)
    (hsound : Sound own s) (h : Requested M s) (hk : s.stack = .code (.body b) :: k)
    (hwants : M.wantsSwitch c = true → M.wantsSwitch s.content = true ∨ (own b).isSome = true) :
    Requested M { s with content := c, stack := push cs k } := by
  intro hw
  rcases hwants hw with hold | hown
  · exact h.keep hpick hk (fun j hj => List.mem_append_right _ hj) (fun _ => hold) id rfl hw
  · have hcovered := hsound.covered
    rw [hk] at hcovered
    exact Or.inr (Or.inl (List.mem_append_right _ (hcovered.1 hown)))

/-- The last suspension guard that is dropped passes the request on to PendSV. -/
theorem Requested.reschedule {x : χ} (hsound : Sound own s) (hk : s.stack = .reschedule :: k)
    (hstep : runInstr M s x k .reschedule = some s') : Requested M s' := by
  simp only [runInstr] at hstep
  obtain rfl := Option.some.inj hstep
  intro hw
  by_cases hcnt : s.suspendCnt = 0
  · exact Or.inl (if_pos ⟨hcnt, hw⟩)
  · -- Another suspension guard is alive.
    have hpos : 0 < s.stack.countP Instr.isResume := by
      rw [← hsound.suspend]
      exact Nat.pos_of_ne_zero hcnt
    obtain ⟨j, hj, hresume⟩ := List.countP_pos_iff.mp hpos
    obtain rfl : j = .resume := by cases j <;> simp_all [Instr.isResume]
    rw [hk] at hj
    exact Or.inr (Or.inl ((List.mem_cons.mp hj).resolve_left (by simp)))

theorem Requested.step {a : Action ι χ} (hpick : ∀ c ∈ M.pickNext, ∃ l must op, c = .access l must op)
    (hne : M.pickNext ≠ []) (hsound : Sound own s) (h : Requested M s)
    (hwants : ∀ {b x c cs}, M.exec s.content b x = some (c, cs) → M.wantsSwitch c = true →
      M.wantsSwitch s.content = true ∨ (own b).isSome = true)
    (hstep : step M s a = some s') : Requested M s' := by
  rcases step_cases hstep with ⟨x, b, k, c, cs, hk, hexec, rfl⟩ | hcontrol
  · exact h.body hpick hsound hk (hwants hexec)
  · by_cases hres : ∃ k x, s.stack = .reschedule :: k ∧ a = .run x
    · obtain ⟨k, x, hk, rfl⟩ := hres
      simp only [Exec.step, hk] at hstep
      split at hstep
      · exact absurd hstep (by simp)
      · exact Requested.reschedule hsound hk hstep
    · have hnot : ∀ k b, s.stack = .reschedule :: k → s' ≠ { s with pendsv := b, stack := k } := by
        intro k b hk heq
        cases a with
        | run x => exact hres ⟨k, x, hk, rfl⟩
        | preempt i =>
          have := congrArg (fun t => t.stack.length) (Option.some.inj hstep)
          simp [heq, hk, push] at this
          omega
        | pendsv =>
          simp only [Exec.step] at hstep
          split at hstep
          · rename_i hcond
            have hstack := congrArg State.stack (Option.some.inj hstep)
            simp only [heq] at hstack
            have htask := hcond.2.2
            simp [hk, ← hstack, taskLevel, push, Instr.isFrame] at htask
          · exact absurd hstep (by simp)
      cases hcontrol with
      | access hk => exact fun _ => Or.inr (Or.inl (by simp))
      | suspended hk | retry hk _ | unlock hk | relock hk _ | pass hk _ =>
        exact h.keep hpick hk (fun j hj => by simp [hj]) id id rfl
      | mayBlock hk _ _ => exact h.keep hpick hk (fun j hj => hj) id id rfl
      | yield hk => exact fun _ => Or.inl rfl
      | setPending hk | leave hk _ | iret hk => exact h.keep hpick hk (fun j hj => hj) id id rfl
      | win hk _ | lose hk _ | settle hk _ =>
        exact h.keep hpick hk (fun j hj => by simp [push, hj]) id id rfl
      | resume hk => exact fun _ => Or.inr (Or.inr (Or.inl (List.mem_cons_self ..)))
      | reschedule hk b => exact absurd rfl (hnot _ b hk)
      | restore hk =>
        intro hw
        rcases h hw with hp | hp | hp | ⟨c, -, hp⟩
        · exact Or.inl hp
        · simp [hk] at hp
        · simp [hk] at hp
        · simp [hk] at hp
      | preempt i =>
        intro hw
        have hmem : ∀ j ∈ s.stack, j ∈ Exec.push (M.handler i) (.iret :: s.stack) :=
          fun j hj => List.mem_append_right _ (List.mem_cons_of_mem _ hj)
        rcases h hw with hp | hp | hp | ⟨c, hc, hp⟩
        · exact Or.inl hp
        · exact Or.inr (Or.inl (hmem _ hp))
        · exact Or.inr (Or.inr (Or.inl (hmem _ hp)))
        · exact Or.inr (Or.inr (Or.inr ⟨c, hc, hmem _ hp⟩))
      | pendsv hsus htask =>
        intro _
        obtain ⟨c, hc⟩ := List.exists_mem_of_ne_nil _ hne
        exact Or.inr (Or.inr (Or.inr ⟨c, hc, List.mem_append_left _ (List.mem_map_of_mem hc)⟩))

-- ---------------------------------------------------------------------------
-- Code that is followed by other code
-- ---------------------------------------------------------------------------

/-- Every instruction with the property `P` has one with the property `Q` below it. -/
def Follows (P Q : Instr Λ ω β → Prop) : List (Instr Λ ω β) → Prop
  | [] => True
  | i :: k => (P i → ∃ j ∈ k, Q j) ∧ Follows P Q k

/-- What a kernel object promises about such code: it is code of tasks only. -/
structure Leads (M : Spec Λ ω β σ τ ι χ) (P Q : Instr Λ ω β → Prop) : Prop where
  control : ∀ i, i.isControl = true → ¬ P i
  guard : ∀ l must op, ¬ P (.guard l must op)
  suspended : ∀ b, P (.code (.body b)) → P (.code (.suspended b))
  full : ∀ l op, ∀ c ∈ M.full l op, ¬ P (.code c)
  pend : ∀ l op, ∀ c ∈ M.pend l op, ¬ P (.code c)
  pended : ∀ l, ∀ c ∈ M.pended l, ¬ P (.code c)
  handler : ∀ i, ∀ c ∈ M.handler i, ¬ P (.code c)
  pickNext : ∀ c ∈ M.pickNext, ¬ P (.code c)
  exec : ∀ {c b x c' cs}, M.exec c b x = some (c', cs) → Follows P Q (push cs [])

variable {P Q : Instr Λ ω β → Prop}

omit [DecidableEq Λ] [DecidableEq τ] in
theorem Follows.append {k' : List (Instr Λ ω β)} (h : Follows P Q k) (h' : Follows P Q k') :
    Follows P Q (k ++ k') := by
  induction k with
  | nil => exact h'
  | cons i k ih =>
    refine ⟨fun hi => ?_, ih h.2⟩
    obtain ⟨j, hj, hQ⟩ := h.1 hi
    exact ⟨j, List.mem_append_left _ hj, hQ⟩

omit [DecidableEq Λ] [DecidableEq τ] in
theorem Follows.push (h : Follows P Q k) (hcs : ∀ c ∈ cs, ¬ P (.code c)) : Follows P Q (push cs k) := by
  induction cs with
  | nil => exact h
  | cons c cs ih =>
    rw [List.forall_mem_cons] at hcs
    exact ⟨fun hc => absurd hc hcs.1, ih hcs.2⟩

/-- On the stack and in the saved contexts. -/
def FollowsEverywhere (P Q : Instr Λ ω β → Prop) (s : State Λ ω β σ τ) : Prop :=
  Follows P Q s.stack ∧ ∀ t, Follows P Q (s.saved t)

omit [DecidableEq Λ] [DecidableEq τ] in
theorem FollowsEverywhere.body {b : β} {c : σ} {x : χ} (hM : Leads M P Q) (h : FollowsEverywhere P Q s)
    (hk : s.stack = .code (.body b) :: k) (hexec : M.exec s.content b x = some (c, cs)) :
    FollowsEverywhere P Q { s with content := c, stack := Exec.push cs k } := by
  obtain ⟨hstack, hsaved⟩ := h
  rw [hk] at hstack
  have hcs := (hM.exec hexec).append hstack.2
  simp only [Exec.push, List.append_nil] at hcs
  exact ⟨hcs, hsaved⟩

theorem FollowsEverywhere.control (hM : Leads M P Q) (h : FollowsEverywhere P Q s)
    (hstep : Control M s s') : FollowsEverywhere P Q s' := by
  obtain ⟨hstack, hsaved⟩ := h
  have hc : ∀ (i : Instr Λ ω β) {R : Prop}, i.isControl = true → P i → R :=
    fun i _ hi hP => absurd hP (hM.control i hi)
  cases hstep with
  | access hk =>
    rw [hk] at hstack
    exact ⟨⟨fun hP => absurd hP (hM.guard _ _ _), hc _ rfl, hstack.2⟩, hsaved⟩
  | suspended hk =>
    rw [hk] at hstack
    refine ⟨⟨fun hP => ?_, hc _ rfl, hstack.2⟩, hsaved⟩
    obtain ⟨j, hj, hQ⟩ := hstack.1 (hM.suspended _ hP)
    exact ⟨j, List.mem_cons_of_mem _ hj, hQ⟩
  | win hk _ =>
    rw [hk] at hstack
    exact ⟨Follows.push ⟨hc _ rfl, hstack.2⟩ (hM.full _ _), hsaved⟩
  | lose hk _ =>
    rw [hk] at hstack
    exact ⟨Follows.push ⟨hc _ rfl, hstack.2⟩ (hM.pend _ _), hsaved⟩
  | settle hk _ =>
    rw [hk] at hstack
    exact ⟨Follows.push ⟨hc _ rfl, hstack.2⟩ (hM.pended _), hsaved⟩
  | mayBlock hk _ _ =>
    rw [hk] at hstack
    exact ⟨hstack.2, hsaved⟩
  | yield hk | setPending hk | leave hk _ | iret hk =>
    rw [hk] at hstack
    exact ⟨hstack.2, hsaved⟩
  | reschedule hk _ =>
    rw [hk] at hstack
    exact ⟨hstack.2, hsaved⟩
  | pass hk _ | unlock hk | retry hk _ | relock hk _ | resume hk =>
    rw [hk] at hstack
    exact ⟨⟨hc _ rfl, hstack.2⟩, hsaved⟩
  | restore hk =>
    refine ⟨hsaved _, fun t => ?_⟩
    by_cases ht : t = M.cur s.content
    · subst ht
      simp [Follows]
    · simpa [Function.update_of_ne ht] using hsaved t
  | preempt n => exact ⟨Follows.push ⟨hc _ rfl, hstack⟩ (hM.handler n), hsaved⟩
  | pendsv _ _ =>
    refine ⟨Follows.push ⟨hc _ rfl, trivial⟩ hM.pickNext, fun t => ?_⟩
    by_cases ht : t = s.running
    · subst ht
      simpa using hstack
    · simpa [Function.update_of_ne ht] using hsaved t

end Hopter.Exec
