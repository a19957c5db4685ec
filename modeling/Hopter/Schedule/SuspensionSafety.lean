-- SUMMARY: Why PendSV is not taken while the scheduler is suspended, and the one call that breaks it.
import Hopter.Schedule.Suspension
import Mathlib.Data.List.Perm.Basic

/-!
# PendSV is taken with the scheduler running

`SUSPEND_CNT` is the number of guards that are alive: those that scopes on the stack will drop,
and those that the running task keeps. `Scheduler::resume` pends PendSV when the counter is
zero; then the code of the task below the handlers has no guard either, and PendSV is taken
before it goes on. The calls that block check the counter first, and keep no guard until they
yield (`Safe`). `change_current_priority` is the only call that yields without a check.
-/

namespace Hopter.Schedule

variable {τ : Type}

-- ---------------------------------------------------------------------------
-- The invariant
-- ---------------------------------------------------------------------------

/-- The instruction will take one from the counter. -/
def Instr.weight : Instr → Nat
  | .enable | .resume => 1
  | _ => 0

def weight (k : List Instr) : Nat := (k.map Instr.weight).sum

/-- The weight of what is below all interrupt handlers. -/
def taskWeight : List Instr → Nat
  | [] => 0
  | i :: k => if taskLevel (i :: k) = true then weight (i :: k) else taskWeight k

def Instr.isEnable : Instr → Bool
  | .enable => true
  | _ => false

def disables (k : List Instr) : Nat := k.countP Instr.isDisable

def enables (k : List Instr) : Nat := k.countP Instr.isEnable

/-- No statement that yields runs while the scheduler is suspended; `free` says that the task
keeps no guard. After `mayBlock` it does not, and there is none on the stack. Where the guards of
the task change, the rest does not depend on them. -/
def Safe (free : Prop) : List Instr → Prop
  | [] => True
  | .stmt .mayBlock :: k => disables k = 0 ∧ (free → weight k = 0 → Safe free k)
  | .stmt .yield :: k => free ∧ weight k = 0 ∧ taskLevel k = true ∧ Safe free k
  | .stmt .yieldUnlessSuspended :: k => taskLevel k = true ∧ Safe free k
  | .stmt (.suspended body) :: k | .stmt (.masked body) :: k => plainAll body = true ∧ Safe free k
  | .hold _ :: k | .drop _ :: k | .unwinder :: k =>
    disables k = 0 ∧ taskLevel k = true ∧ ∀ f, Safe f k
  | .unwind _ :: k | .restore :: k => k = []
  | .stmt .work :: k | .disable :: k | .enable :: k | .resume :: k | .reschedule :: k | .iret :: k
  | .pickNext :: k | .choose :: k => Safe free k

/-- What is left of the code when the application makes a call. -/
def Resumable (k : List Instr) : Prop := disables k = 0 ∧ taskLevel k = true ∧ ∀ f, Safe f k

/-- Every mask that is about to be set will be taken back; `n` masks are kept by the task. -/
def Nested (n : Nat) : List Instr → Prop
  | [] => True
  | i :: k => disables (i :: k) ≤ enables (i :: k) + n ∧ Nested n k

/-- A context that is switched out. -/
structure Parked (k : List Instr) : Prop where
  weight : Schedule.weight k = 0
  disables : Schedule.disables k = 0
  safe : Safe True k
  level : taskLevel k = true

structure Inv (s : State τ) : Prop where
  alive : s.died = false
  count : s.suspendCnt = weight s.stack + (s.held s.running).length
  masks : s.maskCnt + disables s.stack = enables s.stack + (s.held s.running).count .irq
  nested : Nested ((s.held s.running).count .irq) s.stack
  basepri : s.basepri = true → 0 < s.maskCnt
  safe : Safe (s.held s.running = []) s.stack
  pend : s.pendsv = true → taskWeight s.stack = 0 ∧ s.held s.running = []
  saved : ∀ t, Parked (s.saved t)
  others : ∀ t, t ≠ s.running → s.held t = []
  switching : .restore ∈ s.stack → s.held s.running = []

section Lemmas

variable {i : Instr} {k l : List Instr} {free : Prop}

@[simp] theorem weight_nil : weight [] = 0 := rfl

@[simp] theorem weight_cons : weight (i :: k) = i.weight + weight k := by
  simp [weight]

@[simp] theorem weight_append : weight (l ++ k) = weight l + weight k := by
  simp [weight]

@[simp] theorem weight_stmts (body : List Stmt) : weight (body.map .stmt) = 0 := by
  induction body with
  | nil => rfl
  | cons stmt body ih => simpa [Instr.weight] using ih

@[simp] theorem taskLevel_nil : taskLevel [] = true := rfl

@[simp] theorem taskLevel_cons : taskLevel (i :: k) = (!i.isFrame && taskLevel k) := rfl

@[simp] theorem taskLevel_append : taskLevel (l ++ k) = (taskLevel l && taskLevel k) := by
  simp [taskLevel]

@[simp] theorem taskLevel_stmts (body : List Stmt) : taskLevel (body.map .stmt) = true := by
  simp [taskLevel, Instr.isFrame]

@[simp] theorem disables_nil : disables [] = 0 := rfl

@[simp] theorem enables_nil : enables [] = 0 := rfl

@[simp] theorem disables_cons : disables (i :: k) = disables k + i.isDisable.toNat := by
  cases h : i.isDisable <;> simp [disables, h]

@[simp] theorem disables_append : disables (l ++ k) = disables l + disables k := by
  simp [disables]

@[simp] theorem disables_stmts (body : List Stmt) : disables (body.map .stmt) = 0 := by
  simp [disables, List.countP_eq_zero, Instr.isDisable]

theorem disables_eq_zero (h : k.any Instr.isDisable = false) : disables k = 0 := by
  rw [disables, List.countP_eq_zero]
  intro i hi
  simpa using List.any_eq_false.mp h i hi

@[simp] theorem enables_cons : enables (i :: k) = enables k + i.isEnable.toNat := by
  cases h : i.isEnable <;> simp [enables, h]

@[simp] theorem enables_append : enables (l ++ k) = enables l + enables k := by
  simp [enables]

@[simp] theorem enables_stmts (body : List Stmt) : enables (body.map .stmt) = 0 := by
  simp [enables, List.countP_eq_zero, Instr.isEnable]

theorem enables_le_weight : enables k ≤ weight k := by
  induction k with
  | nil => exact Nat.le_refl _
  | cons i k ih =>
    rw [enables_cons, weight_cons]
    cases i <;> simp [Instr.isEnable, Instr.weight] <;> omega

theorem Nested.le {n : Nat} (h : Nested n k) : disables k ≤ enables k + n := by
  cases k with
  | nil => simp
  | cons i k => exact h.1

theorem Nested.cons {n : Nat} (h : Nested n k) (hi : i.isDisable = false) : Nested n (i :: k) := by
  refine ⟨?_, h⟩
  have := h.le
  simp only [disables_cons, enables_cons, hi, Bool.toNat_false]
  omega

theorem Nested.stmts {n : Nat} (h : Nested n k) (body : List Stmt) : Nested n (body.map .stmt ++ k) := by
  induction body with
  | nil => exact h
  | cons stmt body ih => exact ih.cons rfl

theorem nested_of_disables (n : Nat) (h : disables k = 0) : Nested n k := by
  induction k with
  | nil => trivial
  | cons i k ih =>
    rw [disables_cons] at h
    exact ⟨by rw [disables_cons, h]; exact Nat.zero_le _, ih (by omega)⟩

theorem taskWeight_eq (h : taskLevel k = true) : taskWeight k = weight k := by
  cases k with
  | nil => rfl
  | cons i k => rw [taskWeight, if_pos h]

theorem taskWeight_append (h : taskLevel k = false) : taskWeight (l ++ k) = taskWeight k := by
  induction l with
  | nil => rfl
  | cons i l ih =>
    rw [List.cons_append, taskWeight, if_neg (by simp [h]), ih]

theorem taskWeight_le : taskWeight k ≤ weight k := by
  induction k with
  | nil => exact Nat.le_refl _
  | cons i k ih =>
    rw [taskWeight]
    split
    · exact Nat.le_refl _
    · rw [weight_cons]
      omega

theorem Safe.congr {free' : Prop} (h : Safe free k) (hiff : free ↔ free') : Safe free' k :=
  propext hiff ▸ h

/-- Plain code is safe wherever it runs. -/
theorem Safe.plain {body : List Stmt} (hbody : plainAll body = true) (h : Safe free k) :
    Safe free (body.map .stmt ++ k) := by
  induction body with
  | nil => exact h
  | cons stmt body ih =>
    simp only [plainAll, Bool.and_eq_true] at hbody
    cases stmt with
    | work => exact ih hbody.2
    | suspended b | masked b => exact ⟨hbody.1, ih hbody.2⟩
    | mayBlock | yield | yieldUnlessSuspended => simp [Stmt.plain] at hbody

theorem weight_landingPads : weight (landingPads k) = weight k := by
  induction k with
  | nil => rfl
  | cons i k ih =>
    rw [weight_cons, ← ih]
    cases i <;> simp [landingPads, List.filter_cons, Instr.landing, Instr.weight]

theorem enables_landingPads : enables (landingPads k) = enables k := by
  induction k with
  | nil => rfl
  | cons i k ih =>
    rw [enables_cons, ← ih]
    cases i <;> simp [landingPads, List.filter_cons, Instr.landing, Instr.isEnable]

/-- An instruction of a landing pad creates no mask, and is in no handler. -/
theorem landing_eq_true (h : i.landing = true) : i.isDisable = false ∧ i.isFrame = false := by
  cases i <;> simp_all [Instr.landing, Instr.isDisable, Instr.isFrame]

theorem resumable_unwind (panicked : Bool) : Resumable [.unwind panicked] := ⟨rfl, rfl, fun _ => rfl⟩

/-- The unwinder goes on with landing pads. -/
theorem Resumable.unwinder (h : Resumable k) : Resumable (.unwinder :: k) :=
  ⟨by simpa [Instr.isDisable] using h.1, by simpa [Instr.isFrame] using h.2.1, fun _ => h⟩

theorem Resumable.landing (h : Resumable k) (hi : i.landing = true) : Resumable (i :: k) := by
  obtain ⟨hdisable, hframe⟩ := landing_eq_true hi
  refine ⟨by simpa [hdisable] using h.1, by simpa [hframe] using h.2.1, fun f => ?_⟩
  have hsafe := h.2.2 f
  cases i <;> first | exact hsafe | simp [Instr.landing] at hi

theorem resumable_landingPads (k : List Instr) : Resumable (landingPads k ++ [.unwind true]) := by
  induction k with
  | nil => exact resumable_unwind true
  | cons i k ih =>
    by_cases hi : i.landing = true
    · have hpads : landingPads (i :: k) = i :: .unwinder :: landingPads k := by simp [landingPads, hi]
      rw [hpads]
      exact ih.unwinder.landing hi
    · have hpads : landingPads (i :: k) = landingPads k := by simp [landingPads, hi]
      rwa [hpads]

theorem weight_unwindStack : weight (unwindStack k) = weight k := by
  simp [unwindStack, weight_landingPads, Instr.weight]

theorem enables_unwindStack : enables (unwindStack k) = enables k := by
  simp [unwindStack, enables_landingPads, Instr.isEnable]

theorem disables_unwindStack : disables (unwindStack k) = 0 := by
  have h := (resumable_landingPads k).unwinder.1
  simpa [unwindStack, Instr.isDisable] using h

theorem taskLevel_unwindStack : taskLevel (unwindStack k) = true := by
  have h := (resumable_landingPads k).unwinder.2.1
  simpa [unwindStack, Instr.isFrame] using h

theorem safe_unwindStack : Safe free (unwindStack k) := ⟨rfl, resumable_landingPads k⟩

theorem restore_not_mem (h : taskLevel k = true) : .restore ∉ k := by
  intro hmem
  rw [taskLevel, List.all_eq_true] at h
  have := h _ hmem
  simp [Instr.isFrame] at this

end Lemmas

section Steps

variable {s s' : State τ} {i : Instr} {k l : List Instr}

/-- While PendSV is pending and not taken, a handler is active. -/
theorem Inv.in_handler (h : Inv s) (hswitches : s.switches = false) (hpend : s.pendsv = true) :
    taskLevel s.stack = false := by
  by_contra hlevel
  have hlevel : taskLevel s.stack = true := by simpa using hlevel
  obtain ⟨hweight, hheld⟩ := h.pend hpend
  rw [taskWeight_eq hlevel] at hweight
  -- the interrupts are not masked, since nothing would unmask them
  have hbasepri : s.basepri = true := by simpa [State.switches, hpend, hlevel] using hswitches
  have hpos := h.basepri hbasepri
  have hmasks := h.masks
  have hle := enables_le_weight (k := s.stack)
  simp only [hheld, List.count_nil] at hmasks
  omega

/-- A step on top of the stack that leaves the guards of the tasks alone. -/
theorem Inv.top {n m : Nat} {p d b : Bool} {t : τ} {stack : List Instr} (l : List Instr) (h : Inv s)
    (hswitches : s.switches = false) (hk : s.stack = i :: k) (hframe : i.isFrame = false)
    (hl : taskLevel l = true) (hstack : stack = l ++ k) (hcount : n + i.weight = s.suspendCnt + weight l)
    (hmasks : m + disables l + i.isEnable.toNat = s.maskCnt + enables l + i.isDisable.toNat)
    (hnested : Nested ((s.held s.running).count .irq) k → Nested ((s.held s.running).count .irq) (l ++ k))
    (hbasepri : b = true → 0 < m) (hsafe : Safe (s.held s.running = []) (l ++ k))
    (hpend : p = true → s.pendsv = true ∨ weight (l ++ k) = 0 ∧ s.held s.running = []) :
    Inv { s with
      suspendCnt := n, pendsv := p, switchDue := d, maskCnt := m, basepri := b, stack := stack, cur := t } := by
  subst hstack
  have hc := h.count
  have hm := h.masks
  have hn := h.nested
  rw [hk, weight_cons] at hc
  rw [hk, disables_cons, enables_cons] at hm
  rw [hk] at hn
  refine ⟨h.alive, ?_, ?_, hnested hn.2, hbasepri, hsafe, fun hp => ?_, h.saved, h.others,
    fun hmem => h.switching ?_⟩
  · simp only [weight_append]
    omega
  · simp only [disables_append, enables_append]
    omega
  · rcases hpend hp with hold | ⟨hweight, hheld⟩
    · have hlevel := h.in_handler hswitches hold
      obtain ⟨htask, hfree⟩ := h.pend hold
      rw [hk, taskLevel_cons, hframe] at hlevel
      have hlevel : taskLevel k = false := by simpa using hlevel
      rw [hk, show i :: k = [i] ++ k from rfl, taskWeight_append hlevel] at htask
      exact ⟨(taskWeight_append hlevel).trans htask, hfree⟩
    · exact ⟨Nat.le_zero.mp (hweight ▸ taskWeight_le), hheld⟩
  · rw [hk]
    rcases List.mem_append.mp hmem with hmem | hmem
    · exact absurd hmem (restore_not_mem hl)
    · exact List.mem_cons_of_mem _ hmem

variable [DecidableEq τ]

/-- The code of the running task is replaced, and its guards change. -/
theorem Inv.replace {n : Nat} {gs : List Guard} (h : Inv s) (hswitches : s.switches = false)
    (hlevel : taskLevel s.stack = true) (hl : taskLevel l = true) (hcount : n = weight l + gs.length)
    (hmasks : s.maskCnt + disables l = enables l + gs.count .irq) (hnested : Nested (gs.count .irq) l)
    (hsafe : Safe (gs = []) l) :
    Inv { s with suspendCnt := n, held := Function.update s.held s.running gs, stack := l } := by
  refine ⟨h.alive, ?_, ?_, ?_, h.basepri, ?_, fun hp => ?_, h.saved, fun t ht => ?_,
    fun hmem => absurd hmem (restore_not_mem hl)⟩
  · simpa using hcount
  · simpa using hmasks
  · simpa using hnested
  · simpa using hsafe
  · have := h.in_handler hswitches hp
    simp [hlevel] at this
  · simpa only [Function.update_of_ne ht] using h.others t ht

/-- The running task panics. -/
theorem Inv.unwind (h : Inv s) (hswitches : s.switches = false) (hlevel : taskLevel s.stack = true)
    (hweight : weight k = weight s.stack) (hdisables : disables s.stack = 0)
    (henables : enables k = enables s.stack) : Inv { s with stack := unwindStack k } := by
  have hmasks := h.masks
  have hnew := h.replace (l := unwindStack k) (n := s.suspendCnt) hswitches hlevel
    taskLevel_unwindStack (by rw [weight_unwindStack, hweight]; exact h.count)
    (by rw [disables_unwindStack, enables_unwindStack, henables]; omega)
    (nested_of_disables _ disables_unwindStack) safe_unwindStack
  simpa using hnew

/-- The guard goes from the list of the task to the stack. -/
theorem Inv.release {g : Guard} {gs : List Guard} {next : List Instr} (h : Inv s)
    (hswitches : s.switches = false) (hlevel : taskLevel s.stack = true)
    (hweight : weight next = weight s.stack) (hdisables : disables s.stack = 0)
    (henables : enables next = enables s.stack) (hperm : (s.held s.running).Perm (g :: gs))
    (hnext : Resumable next) :
    Inv { s with held := Function.update s.held s.running gs, stack := g.release :: next } := by
  have hc := h.count
  have hm := h.masks
  rw [hperm.length_eq, List.length_cons] at hc
  rw [hperm.count_eq] at hm
  have hrelease : g.release.landing = true := by cases g <;> rfl
  obtain ⟨hdis, hlevel', hsafe⟩ := hnext.landing hrelease
  refine h.replace hswitches hlevel hlevel' ?_ ?_ (nested_of_disables _ hdis) (hsafe _)
  · rw [weight_cons, hweight]
    cases g <;> simp [Guard.release, Instr.weight] <;> omega
  · rw [hdis, enables_cons, henables]
    cases g <;> simp [Guard.release, Instr.isEnable] at hm ⊢ <;> omega

/-- A statement runs. -/
theorem Inv.runStmt {x : Choice τ} {stmt : Stmt} (h : Inv s) (hswitches : s.switches = false)
    (hk : s.stack = .stmt stmt :: k) (hrun : runInstr s x k (.stmt stmt) = some s') : Inv s' := by
  have hc := h.count
  have hsafe := h.safe
  rw [hk] at hsafe hc
  cases stmt with
  | work =>
    obtain rfl := Option.some.inj hrun
    exact Inv.top [] h hswitches hk rfl rfl rfl rfl rfl id h.basepri hsafe Or.inl
  | suspended body =>
    obtain rfl := Option.some.inj hrun
    refine Inv.top (body.map .stmt ++ [.resume]) h hswitches hk rfl ?_ ?_ ?_ ?_ ?_ h.basepri ?_ Or.inl
    · simp [Instr.isFrame]
    · simp
    · simp [Instr.weight]
    · simp [Instr.isEnable, Instr.isDisable]
    · intro hnest
      simpa using (hnest.cons (i := .resume) rfl).stmts body
    · simpa using Safe.plain (k := .resume :: k) hsafe.1 hsafe.2
  | masked body =>
    obtain rfl := Option.some.inj hrun
    refine Inv.top (.disable :: body.map .stmt ++ [.enable]) h hswitches hk rfl ?_ ?_ ?_ ?_ ?_ h.basepri ?_
      Or.inl
    · simp [Instr.isFrame]
    · simp
    · simp [Instr.weight]
    · simp [Instr.isEnable, Instr.isDisable]
    · intro hnest
      have hle := hnest.le
      refine ⟨?_, by simpa using (hnest.cons (i := .enable) rfl).stmts body⟩
      simp [Instr.isEnable, Instr.isDisable]
      omega
    · simpa [Safe] using Safe.plain (k := .enable :: k) hsafe.1 hsafe.2
  | mayBlock =>
    simp only [runInstr] at hrun
    split at hrun
    · rename_i hlevel
      split at hrun
      · rename_i hzero
        obtain rfl := Option.some.inj hrun
        have hfree : s.held s.running = [] := List.length_eq_zero_iff.mp (by omega)
        have hweight : weight k = 0 := by
          rw [hzero, weight_cons] at hc
          omega
        exact Inv.top [] h hswitches hk rfl rfl rfl rfl rfl id h.basepri (hsafe.2 hfree hweight) Or.inl
      · split at hrun
        · exact absurd hrun (by simp)
        · obtain rfl := Option.some.inj hrun
          refine h.unwind hswitches hlevel ?_ ?_ ?_
          · simp [hk, Instr.weight]
          · simpa [hk, Instr.isDisable] using hsafe.1
          · simp [hk, Instr.isEnable]
    · exact absurd hrun (by simp)
  | yield =>
    obtain rfl := Option.some.inj hrun
    exact Inv.top [] h hswitches hk rfl rfl rfl rfl rfl id h.basepri hsafe.2.2.2
      fun _ => Or.inr ⟨hsafe.2.1, hsafe.1⟩
  | yieldUnlessSuspended =>
    simp only [runInstr] at hrun
    split at hrun
    · rename_i hzero
      obtain rfl := Option.some.inj hrun
      rw [hzero, weight_cons] at hc
      have hfree : s.held s.running = [] := List.length_eq_zero_iff.mp (by omega)
      have hweight : weight k = 0 := by omega
      exact Inv.top [.stmt .yield] h hswitches hk rfl rfl rfl rfl rfl (fun hnest => hnest.cons rfl)
        h.basepri ⟨hfree, hweight, hsafe.1, hsafe.2⟩ Or.inl
    · obtain rfl := Option.some.inj hrun
      exact Inv.top [] h hswitches hk rfl rfl rfl rfl rfl id h.basepri hsafe.2 Or.inl

/-- A guard is taken. -/
theorem Inv.runHold {x : Choice τ} {g : Guard} (h : Inv s) (hswitches : s.switches = false)
    (hk : s.stack = .hold g :: k) (hrun : runInstr s x k (.hold g) = some s') : Inv s' := by
  have hc := h.count
  have hm := h.masks
  have hsafe := h.safe
  rw [hk] at hsafe hc hm
  obtain ⟨hdis, hlevel, hrest⟩ := hsafe
  have hstack : taskLevel s.stack = true := by simpa [hk, Instr.isFrame] using hlevel
  simp only [weight_cons, Instr.weight] at hc
  simp only [disables_cons, enables_cons, hdis, Instr.isDisable, Instr.isEnable, Bool.toNat_false] at hm
  cases g <;> obtain rfl := Option.some.inj hrun
  · refine h.replace hswitches hstack hlevel ?_ ?_ (nested_of_disables _ hdis) (hrest _)
    · simp only [List.length_cons]
      omega
    · simpa [hdis] using hm
  · refine h.replace (l := .disable :: k) hswitches hstack ?_ ?_ ?_ ⟨?_, nested_of_disables _ hdis⟩ (hrest _)
    · simpa [Instr.isFrame] using hlevel
    · simp only [weight_cons, Instr.weight, List.length_cons]
      omega
    · simp [hdis, Instr.isDisable, Instr.isEnable] at hm ⊢
      omega
    · simp [hdis, Instr.isDisable, Instr.isEnable]
      omega

/-- The unwinding is at an end: the guards that are left are dropped, and the task restarts or is over. -/
theorem Inv.runUnwind {x : Choice τ} {panicked : Bool} (h : Inv s) (hswitches : s.switches = false)
    (hk : s.stack = .unwind panicked :: k) (hrun : runInstr s x k (.unwind panicked) = some s') : Inv s' := by
  have hsafe := h.safe
  rw [hk] at hsafe
  obtain rfl : k = [] := hsafe
  simp only [runInstr] at hrun
  split at hrun
  · rename_i hfree
    split at hrun
    · obtain rfl := Option.some.inj hrun
      exact Inv.top [] h hswitches hk rfl rfl rfl rfl rfl id h.basepri trivial Or.inl
    · obtain rfl := Option.some.inj hrun
      exact Inv.top [.stmt (.suspended [.work]), .stmt .yield] h hswitches hk rfl rfl rfl rfl rfl
        (fun hnest => (hnest.cons rfl).cons rfl) h.basepri ⟨rfl, hfree, rfl, rfl, trivial⟩ Or.inl
  · rename_i g gs hheld
    obtain rfl := Option.some.inj hrun
    have hperm : (s.held s.running).Perm (g :: gs) := hheld ▸ List.Perm.refl _
    cases panicked with
    | false =>
      exact h.release hswitches (by simp [hk, Instr.isFrame]) (by rw [hk]; rfl) (by rw [hk]; rfl)
        (by rw [hk]; rfl) hperm (resumable_unwind false)
    | true =>
      exact h.release hswitches (by simp [hk, Instr.isFrame]) (by rw [hk]; rfl) (by rw [hk]; rfl)
        (by rw [hk]; rfl) hperm (resumable_unwind true).unwinder

/-- The context of the next task is restored. -/
theorem Inv.runRestore {x : Choice τ} (h : Inv s) (hk : s.stack = .restore :: k)
    (hrun : runInstr s x k .restore = some s') : Inv s' := by
  have hc := h.count
  have hm := h.masks
  have hsafe := h.safe
  rw [hk] at hsafe hc hm
  obtain rfl : k = [] := hsafe
  obtain rfl := Option.some.inj hrun
  have hfree : ∀ t, s.held t = [] := by
    intro t
    by_cases ht : t = s.running
    · subst ht
      exact h.switching (by simp [hk])
    · exact h.others t ht
  obtain ⟨hweight, hdis, hsafe', hlevel⟩ := h.saved s.cur
  have hen := enables_le_weight (k := s.saved s.cur)
  simp only [hfree, weight_cons, weight_nil, Instr.weight, List.length_nil] at hc
  simp only [hfree, disables_cons, enables_cons, Instr.isDisable, Instr.isEnable, Bool.toNat_false,
    disables_nil, enables_nil, List.count_nil] at hm
  refine ⟨h.alive, ?_, ?_, nested_of_disables _ hdis, h.basepri, hsafe'.congr (iff_of_true trivial (hfree _)),
    fun _ => ⟨?_, hfree _⟩, fun t => ?_, fun t _ => hfree t, fun _ => hfree _⟩
  · simp only [hfree, List.length_nil]
    omega
  · simp only [hfree, List.count_nil]
    omega
  · rw [taskWeight_eq hlevel]
    exact hweight
  · by_cases ht : t = s.cur
    · subst ht
      simp only [Function.update_self]
      exact ⟨rfl, rfl, trivial, rfl⟩
    · simp only [Function.update_of_ne ht]
      exact h.saved t

/-- The instruction on top of the stack runs. -/
theorem Inv.run {x : Choice τ} (h : Inv s) (hswitches : s.switches = false) (hk : s.stack = i :: k)
    (hrun : runInstr s x k i = some s') : Inv s' := by
  have hc := h.count
  have hm := h.masks
  have hn := h.nested
  have hsafe := h.safe
  rw [hk] at hsafe hc hm hn
  cases i with
  | stmt stmt => exact h.runStmt hswitches hk hrun
  | hold g => exact h.runHold hswitches hk hrun
  | drop n =>
    simp only [runInstr, Option.map_eq_some_iff] at hrun
    obtain ⟨g, hg, rfl⟩ := hrun
    obtain ⟨hn, rfl⟩ := List.getElem?_eq_some_iff.mp hg
    refine h.release hswitches ?_ ?_ ?_ ?_ (List.getElem_cons_eraseIdx_perm hn).symm hsafe
    · simpa [hk, Instr.isFrame] using hsafe.2.1
    · simp [hk, Instr.weight]
    · simpa [hk, Instr.isDisable] using hsafe.1
    · simp [hk, Instr.isEnable]
  | disable =>
    obtain rfl := Option.some.inj hrun
    exact Inv.top [] h hswitches hk rfl rfl rfl rfl rfl id (fun _ => Nat.succ_pos _) hsafe Or.inl
  | enable =>
    obtain rfl := Option.some.inj hrun
    have hle := hn.2.le
    simp only [disables_cons, enables_cons, Instr.isDisable, Instr.isEnable, Bool.toNat_true,
      Bool.toNat_false] at hm
    refine Inv.top [.resume] h hswitches hk rfl rfl rfl rfl ?_ (fun hnest => hnest.cons rfl) (fun hb => ?_)
      hsafe Or.inl
    · simp only [disables_cons, enables_cons, Instr.isDisable, Instr.isEnable, disables_nil, enables_nil,
        Bool.toNat_true, Bool.toNat_false]
      omega
    · split at hb
      · exact absurd hb (by simp)
      · omega
  | resume =>
    obtain rfl := Option.some.inj hrun
    refine Inv.top [.reschedule] h hswitches hk rfl rfl rfl ?_ rfl (fun hnest => hnest.cons rfl) h.basepri
      hsafe Or.inl
    simp only [weight_cons, weight_nil, Instr.weight] at hc ⊢
    omega
  | reschedule =>
    obtain rfl := Option.some.inj hrun
    refine Inv.top [] h hswitches hk rfl rfl rfl rfl rfl id h.basepri hsafe fun hp => ?_
    split at hp
    · rename_i hzero
      rw [hzero.1] at hc
      simp only [weight_cons, Instr.weight] at hc
      exact Or.inr ⟨by simp only [List.nil_append]; omega, List.length_eq_zero_iff.mp (by omega)⟩
    · exact Or.inl hp
  | unwinder =>
    obtain ⟨-, hlevel, hrest⟩ := hsafe
    simp only [runInstr] at hrun
    split at hrun
    · rename_i hyields
      obtain rfl := Option.some.inj hrun
      rw [hyields.2, weight_cons] at hc
      have hfree : s.held s.running = [] := List.length_eq_zero_iff.mp (by omega)
      have hweight : weight k = 0 := by omega
      exact Inv.top [.stmt .yield] h hswitches hk rfl rfl rfl rfl rfl (fun hnest => hnest.cons rfl)
        h.basepri ⟨hfree, hweight, hlevel, hrest _⟩ Or.inl
    · obtain rfl := Option.some.inj hrun
      exact Inv.top [] h hswitches hk rfl rfl rfl rfl rfl id h.basepri (hrest _) Or.inl
  | unwind panicked => exact h.runUnwind hswitches hk hrun
  | iret =>
    obtain rfl := Option.some.inj hrun
    simp only [weight_cons, Instr.weight] at hc
    simp only [disables_cons, enables_cons, Instr.isDisable, Instr.isEnable, Bool.toNat_false] at hm
    refine ⟨h.alive, by simpa using hc, by simpa using hm, hn.2, h.basepri, hsafe, fun hp => ?_, h.saved,
      h.others, fun hmem => h.switching (by rw [hk]; exact List.mem_cons_of_mem _ hmem)⟩
    have hpend := h.pend hp
    rw [hk, taskWeight, if_neg (by simp [Instr.isFrame])] at hpend
    exact hpend
  | pickNext =>
    obtain rfl := Option.some.inj hrun
    exact Inv.top [.choose, .stmt .work, .resume] h hswitches hk rfl rfl rfl rfl rfl
      (fun hnest => ((hnest.cons rfl).cons rfl).cons rfl) h.basepri hsafe Or.inl
  | choose =>
    obtain rfl := Option.some.inj hrun
    exact Inv.top [] h hswitches hk rfl rfl rfl rfl rfl id h.basepri hsafe Or.inl
  | restore => exact h.runRestore hk hrun

end Steps

-- ---------------------------------------------------------------------------
-- Calls
-- ---------------------------------------------------------------------------

section Calls

variable {free : Prop} {levels : Nat} {c : Call} {k : List Instr}

theorem plainAll_append (body body' : List Stmt) :
    plainAll (body ++ body') = (plainAll body && plainAll body') := by
  induction body with
  | nil => rfl
  | cons stmt body ih => simp [plainAll, ih, Bool.and_assoc]

theorem plainAll_acceptTasks (tasks : Nat) : plainAll (List.replicate tasks acceptTask) = true := by
  induction tasks with
  | zero => rfl
  | succ n ih => simpa [List.replicate_succ, plainAll, acceptTask, Stmt.plain] using ih

/-- The body of an access is plain when the closure is. -/
theorem plainAll_access {body : List Stmt} (h : plainAll body = true) (tasks : Nat) :
    plainAll (body ++ List.replicate tasks acceptTask) = true := by
  simp [plainAll_append, h, plainAll_acceptTasks]

theorem plain_access {body : List Stmt} (h : plainAll body = true) (tasks : Nat) :
    (access body tasks).plain = true :=
  plainAll_access h tasks

theorem Resumable.plain {l : List Stmt} (hk : Resumable k) (h : plainAll l = true) :
    Resumable (l.map .stmt ++ k) :=
  ⟨by simpa using hk.1, by simpa using hk.2.1, fun f => Safe.plain h (hk.2.2 f)⟩

theorem Resumable.yieldUnlessSuspended (hk : Resumable k) : Resumable (.stmt .yieldUnlessSuspended :: k) :=
  ⟨by simpa [Instr.isDisable] using hk.1, by simpa [Instr.isFrame] using hk.2.1,
    fun f => ⟨hk.2.1, hk.2.2 f⟩⟩

theorem Resumable.mayBlock (hk : Resumable k) : Resumable (.stmt .mayBlock :: k) :=
  ⟨by simpa [Instr.isDisable] using hk.1, by simpa [Instr.isFrame] using hk.2.1,
    fun f => ⟨hk.1, fun _ _ => hk.2.2 f⟩⟩

/-- Code that checks the counter, and keeps no guard until it yields. -/
theorem Resumable.block {l : List Stmt} (hk : Resumable k) (h : plainAll l = true) :
    Resumable (.stmt .mayBlock :: (l.map .stmt ++ .stmt .yield :: k)) := by
  have hdis : disables (l.map .stmt ++ .stmt .yield :: k) = 0 := by simpa [Instr.isDisable] using hk.1
  refine ⟨by simpa [Instr.isDisable] using hdis, by simpa [Instr.isFrame] using hk.2.1, fun f => ⟨hdis, ?_⟩⟩
  intro hfree hweight
  have hweight : weight k = 0 := by simpa [Instr.weight] using hweight
  exact Safe.plain h ⟨hfree, hweight, hk.2.1, hk.2.2 f⟩

theorem resumable_waitUntil {condition : List Stmt} (h : plainAll condition = true) (rounds : List Nat)
    (tasks : Nat) (hk : Resumable k) : Resumable ((waitUntil condition rounds tasks).map .stmt ++ k) := by
  induction rounds with
  | nil =>
    exact Resumable.mayBlock (Resumable.plain (l := [access condition tasks]) hk
      (by simpa [plainAll] using plain_access h tasks))
  | cons n rounds ih =>
    have hround : plainAll (condition ++ [.work]) = true := by
      simp [plainAll_append, h, plainAll, Stmt.plain]
    exact Resumable.block (l := [access (condition ++ [.work]) n]) ih
      (by simpa [plainAll] using plain_access hround n)

/-- The code of a call, in front of what is left when it is made. -/
theorem resumable_code (hargs : c.plainArgs = true) (henabled : c.enabled k = true) (hk : Resumable k)
    (hprio : ∀ prio, c = .changeCurrentPriority prio → levels - 1 ≤ prio) : Resumable (c.code levels ++ k) := by
  have hwork : plainAll [.work] = true := rfl
  cases c with
  | yieldCurrent => exact hk.yieldUnlessSuspended
  | changeCurrentPriority prio =>
    simp only [Call.code, changeCurrentPriority, if_pos (hprio prio rfl)]
    exact hk
  | sleepMs sleeps tasks =>
    cases sleeps with
    | true =>
      exact hk.block (l := [.suspended [.work, access [.work] tasks]])
        (by simp [plainAll, Stmt.plain, plain_access hwork])
    | false => exact hk
  | wait tasks => exact hk.block (l := [access [.work] tasks]) (by simp [plainAll, plain_access hwork])
  | waitUntil condition rounds tasks => exact resumable_waitUntil hargs rounds tasks hk
  | notifyOne tasks => exact hk.plain (l := [access [.work] tasks]) (by simp [plainAll, plain_access hwork])
  | mailboxWait blocks tasks =>
    cases blocks with
    | true => exact hk.block (l := [access [.work] tasks]) (by simp [plainAll, plain_access hwork])
    | false =>
      exact (hk.plain (l := [access [.work] tasks]) (by simp [plainAll, plain_access hwork])).mayBlock
  | mailboxWaitUntilTimeout blocks tasks sleepTasks lastTasks =>
    have hnested : plainAll [.work, access [.work] sleepTasks] = true := by
      simp [plainAll, Stmt.plain, plain_access hwork]
    cases blocks with
    | true =>
      have hlast := hk.plain (l := [access [.work] lastTasks]) (by simp [plainAll, plain_access hwork])
      exact hlast.block (l := [access [.work, access [.work] sleepTasks] tasks])
        (by simp [plainAll, plain_access hnested])
    | false =>
      exact (hk.plain (l := [access [.work] tasks]) (by simp [plainAll, plain_access hwork])).mayBlock
  | mailboxNotify tasks sleepTasks =>
    have hnested : plainAll [.work, access [.work] sleepTasks] = true := by
      simp [plainAll, Stmt.plain, plain_access hwork]
    exact hk.plain (l := [access [.work, access [.work] sleepTasks] tasks])
      (by simp [plainAll, plain_access hnested])
  | spawn => exact hk.plain (l := [acceptTask]) rfl
  | plain body => exact hk.plain hargs
  | hold g | drop n =>
    exact ⟨by simpa [Call.code, Instr.isDisable] using hk.1, by simpa [Call.code, Instr.isFrame] using hk.2.1,
      fun _ => hk⟩
  | exit =>
    cases k with
    | nil => exact resumable_unwind false
    | cons i k => simp [Call.enabled] at henabled

/-- Every call is safe, except that `change_current_priority` yields without a check. -/
theorem safe_code (hargs : c.plainArgs = true) (henabled : c.enabled k = true) (hk : Resumable k)
    (hprio : ∀ prio, c = .changeCurrentPriority prio → levels - 1 ≤ prio ∨ free ∧ weight k = 0) :
    Safe free (c.code levels ++ k) := by
  by_cases hall : ∀ prio, c = .changeCurrentPriority prio → levels - 1 ≤ prio
  · exact (resumable_code hargs henabled hk hall).2.2 _
  · push Not at hall
    obtain ⟨prio, rfl, hlt⟩ := hall
    obtain ⟨hfree, hweight⟩ := (hprio prio rfl).resolve_left (Nat.not_le_of_lt hlt)
    simp only [Call.code, changeCurrentPriority, if_neg (Nat.not_le_of_lt hlt)]
    exact ⟨rfl, hfree, hweight, hk.2.1, hk.2.2 _⟩

/-- A call starts with statements only, or with a step on the guards of the task. -/
theorem code_bare (levels : Nat) (c : Call) : weight (c.code levels) = 0 ∧ disables (c.code levels) = 0 ∧
    enables (c.code levels) = 0 ∧ taskLevel (c.code levels) = true := by
  cases c with
  | hold g | drop n | exit => exact ⟨rfl, rfl, rfl, rfl⟩
  | spawn => exact ⟨rfl, rfl, rfl, rfl⟩
  | _ => exact ⟨weight_stmts _, disables_stmts _, enables_stmts _, taskLevel_stmts _⟩

end Calls

-- ---------------------------------------------------------------------------
-- Runs
-- ---------------------------------------------------------------------------

section Runs

variable {levels : Nat} {s s' : State τ} {idle : τ}

/-- `change_current_priority` is called with a priority that is not allowed, or with the
scheduler running. -/
def Unsuspended (levels : Nat) (s : State τ) : Action τ → Prop
  | .call (.changeCurrentPriority prio) => levels - 1 ≤ prio ∨ s.suspendCnt = 0
  | _ => True

/-- The application makes calls before and between landing pads, and when the stack is empty. -/
theorem Inv.resumable {c : Call} (h : Inv s) (henabled : c.enabled s.stack = true) : Resumable s.stack := by
  have hsafe := h.safe
  generalize s.stack = k at henabled hsafe
  unfold Call.enabled at henabled
  split at henabled
  · exact ⟨rfl, rfl, fun _ => trivial⟩
  · exact absurd henabled (by simp)
  · exact Resumable.unwinder hsafe
  · exact absurd henabled (by simp)

theorem Inv.call [DecidableEq τ] {c : Call} (h : Inv s) (henabled : c.enabled s.stack = true)
    (hswitches : s.switches = false) (hargs : c.plainArgs = true) (hok : Unsuspended levels s (.call c)) :
    Inv { s with stack := c.code levels ++ s.stack } := by
  obtain ⟨hweight, hdis, hen, hlevel⟩ := code_bare levels c
  have hc := h.count
  have hm := h.masks
  have hk := h.resumable henabled
  have hsafe : Safe (s.held s.running = []) (c.code levels ++ s.stack) := by
    refine safe_code hargs henabled hk ?_
    rintro prio rfl
    refine hok.imp_right fun hzero => ?_
    rw [hzero] at hc
    exact ⟨List.length_eq_zero_iff.mp (by omega), by omega⟩
  have hnew := h.replace (l := c.code levels ++ s.stack) (n := s.suspendCnt) hswitches hk.2.1
    (by rw [taskLevel_append, hlevel, hk.2.1]; rfl) (by rw [weight_append, hweight, Nat.zero_add]; exact hc)
    (by rw [disables_append, enables_append, hdis, hen, Nat.zero_add, Nat.zero_add]; exact hm)
    (nested_of_disables _ (by rw [disables_append, hdis, hk.1])) hsafe
  simpa using hnew

theorem Inv.preempt {body : List Stmt} (h : Inv s) (hbody : plainAll body = true) :
    Inv { s with stack := body.map .stmt ++ .iret :: s.stack } := by
  have hc := h.count
  have hm := h.masks
  refine ⟨h.alive, ?_, ?_, (h.nested.cons rfl).stmts body, h.basepri, Safe.plain hbody h.safe, fun hp => ?_,
    h.saved, h.others, fun hmem => h.switching ?_⟩
  · simpa [Instr.weight] using hc
  · simpa [Instr.isDisable, Instr.isEnable] using hm
  · rw [taskWeight_append (by simp [Instr.isFrame]), taskWeight, if_neg (by simp [Instr.isFrame])]
    exact h.pend hp
  · simpa using hmem

/-- PendSV is taken with the scheduler running. -/
theorem Inv.suspendCnt_eq_zero (h : Inv s) (hpend : s.pendsv = true) (hlevel : taskLevel s.stack = true) :
    s.suspendCnt = 0 := by
  obtain ⟨hweight, hfree⟩ := h.pend hpend
  rw [h.count, ← taskWeight_eq hlevel, hweight, hfree]
  rfl

theorem Inv.pendsv [DecidableEq τ] (h : Inv s) (hpend : s.pendsv = true) (hlevel : taskLevel s.stack = true) :
    Inv { s with
      pendsv := false
      saved := Function.update s.saved s.running s.stack
      stack := [.pickNext, .restore] } := by
  obtain ⟨hweight, hfree⟩ := h.pend hpend
  rw [taskWeight_eq hlevel] at hweight
  have hc := h.count
  have hm := h.masks
  have hle := enables_le_weight (k := s.stack)
  rw [hfree, List.count_nil] at hm
  have hzero := h.suspendCnt_eq_zero hpend hlevel
  refine ⟨h.alive, ?_, ?_, nested_of_disables _ rfl, h.basepri, rfl, fun hp => absurd hp (by simp),
    fun t => ?_, h.others, fun _ => hfree⟩
  · simp [hzero, hfree, Instr.weight]
  · simp [hfree, Instr.isDisable, Instr.isEnable]
    omega
  · by_cases ht : t = s.running
    · subst ht
      simp only [Function.update_self]
      refine ⟨hweight, by omega, ?_, hlevel⟩
      exact h.safe.congr (iff_of_true hfree trivial)
    · simp only [Function.update_of_ne ht]
      exact h.saved t

theorem Inv.step [DecidableEq τ] {a : Action τ} (h : Inv s) (hok : Unsuspended levels s a)
    (hstep : step levels s a = some s') : Inv s' := by
  unfold Schedule.step at hstep
  rw [if_neg (by simp [h.alive])] at hstep
  cases a with
  | call c =>
    dsimp only at hstep
    split at hstep
    · rename_i hcond
      obtain rfl := Option.some.inj hstep
      exact h.call hcond.1 hcond.2.1 hcond.2.2 hok
    · exact absurd hstep (by simp)
  | run x =>
    dsimp only at hstep
    split at hstep
    · exact absurd hstep (by simp)
    · rename_i i k hk
      split at hstep
      · exact absurd hstep (by simp)
      · rename_i hswitches
        exact h.run (by simpa using hswitches) hk hstep
  | preempt body =>
    dsimp only at hstep
    split at hstep
    · rename_i hcond
      obtain rfl := Option.some.inj hstep
      exact h.preempt hcond.2
    · exact absurd hstep (by simp)
  | pendsv =>
    dsimp only at hstep
    split at hstep
    · rename_i hswitches
      simp only [State.switches, Bool.and_eq_true] at hswitches
      have hzero := h.suspendCnt_eq_zero hswitches.1.1 hswitches.2
      rw [if_neg (by omega)] at hstep
      obtain rfl := Option.some.inj hstep
      exact h.pendsv hswitches.1.1 hswitches.2
    · exact absurd hstep (by simp)
  | panic =>
    dsimp only at hstep
    split at hstep
    · rename_i hcond
      obtain rfl := Option.some.inj hstep
      exact h.unwind hcond.1 hcond.2.1 rfl (disables_eq_zero hcond.2.2.2) rfl
    · exact absurd hstep (by simp)

theorem start_inv : Inv (start idle) :=
  ⟨rfl, rfl, rfl, trivial, fun h => absurd h (by simp [start]), trivial, fun h => absurd h (by simp [start]),
    fun _ => ⟨rfl, rfl, trivial, rfl⟩, fun _ _ => rfl, fun _ => rfl⟩

instance (levels : Nat) (s : State τ) : DecidablePred (Unsuspended levels s)
  | .call (.changeCurrentPriority prio) =>
    inferInstanceAs (Decidable (levels - 1 ≤ prio ∨ s.suspendCnt = 0))
  | .call .yieldCurrent | .call (.sleepMs _ _) | .call (.wait _) | .call (.waitUntil _ _ _)
  | .call (.notifyOne _) | .call (.mailboxWait _ _) | .call (.mailboxWaitUntilTimeout _ _ _ _)
  | .call (.mailboxNotify _ _) | .call .spawn | .call (.plain _) | .call (.hold _) | .call (.drop _)
  | .call .exit | .run _ | .preempt _ | .pendsv | .panic => isTrue trivial

end Runs

/-- The instruction on top of the stack runs; a task that it makes ready is more urgent than the
current one when `urgent` says so. -/
def go (urgent : Bool) : Action Bool := .run ⟨urgent, true, false, false⟩

end Hopter.Schedule
