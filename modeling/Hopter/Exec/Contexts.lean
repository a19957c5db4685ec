-- SUMMARY: Rules for the contexts of the machine: what a built-in step can do, what all instructions satisfy, weights, and pended work.
import Hopter.Exec.SoftLock
import Mathlib.Algebra.BigOperators.Group.Finset.Basic
import Mathlib.Algebra.Order.BigOperators.Group.Finset
import Mathlib.Algebra.Ring.Nat

/-!
# Contexts

A step of the machine is an atomic step of a kernel object, or it is built in. The
built-in steps are listed once (`Control`), and the rules of this module are derived
from the list: a property of all instructions, on the stack and in the saved contexts;
the total weight of the instructions; and pended work, which is never forgotten by a
soft lock.
-/

namespace Hopter.Exec

variable {Λ ω β σ τ ι χ : Type} [DecidableEq Λ] [DecidableEq τ]

-- ---------------------------------------------------------------------------
-- The built-in steps
-- ---------------------------------------------------------------------------

/-- The built-in steps of the machine. -/
inductive Control (M : Spec Λ ω β σ τ ι χ) (s : State Λ ω β σ τ) : State Λ ω β σ τ → Prop where
  | access {l must op k} (hk : s.stack = .code (.access l must op) :: k) :
    Control M s
      { s with suspendCnt := s.suspendCnt + 1, stack := .guard l must op :: .resume :: k }
  | suspended {b k} (hk : s.stack = .code (.suspended b) :: k) :
    Control M s
      { s with suspendCnt := s.suspendCnt + 1, stack := .code (.body b) :: .resume :: k }
  | mayBlock {k} (hk : s.stack = .code .mayBlock :: k) (hsus : s.suspendCnt = 0)
      (htask : taskLevel s.stack = true) : Control M s { s with stack := k }
  | yield {k} (hk : s.stack = .code .yield :: k) :
    Control M s { s with pendsv := true, stack := k }
  | win {l must op k} (hk : s.stack = .guard l must op :: k) (hfree : (s.flags l).locked = false) :
    Control M s
      { setLocked s l true with stack := push (M.full l op) (.swapPending l :: k) }
  | lose {l op k} (hk : s.stack = .guard l false op :: k) (hlocked : ¬ (s.flags l).locked = false) :
    Control M s { s with stack := push (M.pend l op) (.setPending l :: k) }
  | setPending {l k} (hk : s.stack = .setPending l :: k) :
    Control M s
      { setPendingFlag s l true with stack := k, owed := Function.update s.owed l true }
  | settle {l k} (hk : s.stack = .swapPending l :: k) (hpending : (s.flags l).pending = true) :
    Control M s
      { setPendingFlag s l false with
        stack := push (M.pended l) (.unlock l :: k)
        owed := Function.update s.owed l false }
  | pass {l k} (hk : s.stack = .swapPending l :: k) (hpending : ¬ (s.flags l).pending = true) :
    Control M s { setPendingFlag s l false with stack := .unlock l :: k }
  | unlock {l k} (hk : s.stack = .unlock l :: k) :
    Control M s { setLocked s l false with stack := .checkPending l :: k }
  | retry {l k} (hk : s.stack = .checkPending l :: k) (hpending : (s.flags l).pending = true) :
    Control M s { s with stack := .relock l :: k }
  | leave {l k} (hk : s.stack = .checkPending l :: k) (hpending : ¬ (s.flags l).pending = true) :
    Control M s { s with stack := k }
  | relock {l k} (hk : s.stack = .relock l :: k) (hfree : (s.flags l).locked = false) :
    Control M s { setLocked s l true with stack := .swapPending l :: k }
  | resume {k} (hk : s.stack = .resume :: k) :
    Control M s { s with suspendCnt := s.suspendCnt - 1, stack := .reschedule :: k }
  | reschedule {k} (hk : s.stack = .reschedule :: k) (b : Bool) :
    Control M s { s with pendsv := b, stack := k }
  | iret {k} (hk : s.stack = .iret :: k) : Control M s { s with stack := k }
  | restore (hk : s.stack = [.restore]) :
    Control M s
      { s with
        running := M.cur s.content
        stack := s.saved (M.cur s.content)
        saved := Function.update s.saved (M.cur s.content) [] }
  | preempt (i : ι) : Control M s { s with stack := push (M.handler i) (.iret :: s.stack) }
  | pendsv (hsus : s.suspendCnt = 0) (htask : taskLevel s.stack = true) :
    Control M s
      { s with
        pendsv := false
        saved := Function.update s.saved s.running s.stack
        stack := push M.pickNext [.restore] }

section Cases

variable {M : Spec Λ ω β σ τ ι χ} {s s' : State Λ ω β σ τ}

theorem runInstr_cases {x : χ} {i : Instr Λ ω β} {k : List (Instr Λ ω β)} (hk : s.stack = i :: k)
    (h : runInstr M s x k i = some s') :
    (∃ b c cs, s.stack = .code (.body b) :: k ∧ M.exec s.content b x = some (c, cs) ∧
      s' = { s with content := c, stack := push cs k }) ∨ Control M s s' := by
  cases i with
  | code c =>
    cases c with
    | body b =>
      simp only [runInstr, Option.map_eq_some_iff] at h
      obtain ⟨⟨c, cs⟩, hexec, rfl⟩ := h
      exact Or.inl ⟨b, c, cs, hk, hexec, rfl⟩
    | access l must op =>
      obtain rfl := Option.some.inj h
      exact Or.inr (.access hk)
    | suspended b =>
      obtain rfl := Option.some.inj h
      exact Or.inr (.suspended hk)
    | mayBlock =>
      simp only [runInstr] at h
      split at h
      · rename_i hcond
        obtain rfl := Option.some.inj h
        exact Or.inr (.mayBlock hk hcond.1 hcond.2)
      · exact absurd h (by simp)
    | yield =>
      obtain rfl := Option.some.inj h
      exact Or.inr (.yield hk)
  | guard l must op =>
    simp only [runInstr] at h
    split at h
    · obtain rfl := Option.some.inj h
      exact Or.inr (.win hk ‹_›)
    · split at h
      · exact absurd h (by simp)
      · rename_i hlocked hmust
        obtain rfl := Option.some.inj h
        obtain rfl : must = false := by simpa using hmust
        exact Or.inr (.lose hk hlocked)
  | setPending l =>
    obtain rfl := Option.some.inj h
    exact Or.inr (.setPending hk)
  | swapPending l =>
    simp only [runInstr] at h
    split at h
    · obtain rfl := Option.some.inj h
      exact Or.inr (.settle hk ‹_›)
    · obtain rfl := Option.some.inj h
      exact Or.inr (.pass hk ‹_›)
  | unlock l =>
    obtain rfl := Option.some.inj h
    exact Or.inr (.unlock hk)
  | checkPending l =>
    simp only [runInstr] at h
    split at h
    · obtain rfl := Option.some.inj h
      exact Or.inr (.retry hk ‹_›)
    · obtain rfl := Option.some.inj h
      exact Or.inr (.leave hk ‹_›)
  | relock l =>
    simp only [runInstr] at h
    split at h
    · obtain rfl := Option.some.inj h
      exact Or.inr (.relock hk ‹_›)
    · exact absurd h (by simp)
  | resume =>
    obtain rfl := Option.some.inj h
    exact Or.inr (.resume hk)
  | reschedule =>
    obtain rfl := Option.some.inj h
    exact Or.inr (.reschedule hk _)
  | iret =>
    obtain rfl := Option.some.inj h
    exact Or.inr (.iret hk)
  | restore =>
    simp only [runInstr] at h
    split at h
    · rename_i hempty
      obtain rfl := Option.some.inj h
      obtain rfl : k = [] := by simpa using hempty
      exact Or.inr (.restore hk)
    · exact absurd h (by simp)

/-- The atomic step of a kernel object that the action takes, when it takes one. -/
def takes (s : State Λ ω β σ τ) : Action ι χ → Option β
  | .run _ =>
    match s.stack with
    | .code (.body b) :: _ => some b
    | _ => none
  | _ => none

/-- A step is an atomic step of a kernel object, or it is built in. -/
theorem step_takes {a : Action ι χ} (h : step M s a = some s') :
    (∃ x b k c cs, takes s a = some b ∧ s.stack = .code (.body b) :: k ∧
      M.exec s.content b x = some (c, cs) ∧ s' = { s with content := c, stack := push cs k }) ∨
      Control M s s' := by
  cases a with
  | run x =>
    simp only [step] at h
    split at h
    · exact absurd h (by simp)
    · rename_i i k hk
      split at h
      · exact absurd h (by simp)
      · rcases runInstr_cases hk h with ⟨b, c, cs, hb, hexec, rfl⟩ | hcontrol
        · exact Or.inl ⟨x, b, k, c, cs, by simp [takes, hb], hb, hexec, rfl⟩
        · exact Or.inr hcontrol
  | preempt i =>
    obtain rfl := Option.some.inj h
    exact Or.inr (.preempt i)
  | pendsv =>
    simp only [step] at h
    split at h
    · rename_i hcond
      obtain rfl := Option.some.inj h
      exact Or.inr (.pendsv hcond.2.1 hcond.2.2)
    · exact absurd h (by simp)

theorem step_cases {a : Action ι χ} (h : step M s a = some s') :
    (∃ x b k c cs, s.stack = .code (.body b) :: k ∧ M.exec s.content b x = some (c, cs) ∧
      s' = { s with content := c, stack := push cs k }) ∨ Control M s s' := by
  rcases step_takes h with ⟨x, b, k, c, cs, -, hk, hexec, rfl⟩ | hcontrol
  · exact Or.inl ⟨x, b, k, c, cs, hk, hexec, rfl⟩
  · exact Or.inr hcontrol

/-- Built-in steps leave the kernel objects alone. -/
theorem Control.content_eq (h : Control M s s') : s'.content = s.content := by
  cases h <;> rfl

/-- An instruction stays on the stack until it runs, or until PendSV switches the task out. -/
theorem Control.mem_or {i : Instr Λ ω β} (h : Control M s s') (hi : i ∈ s.stack) :
    i ∈ s'.stack ∨ (∃ k, s.stack = i :: k) ∨ s'.stack = push M.pickNext [.restore] := by
  -- What is below the top of the stack stays.
  have hrest : ∀ {j k}, s.stack = j :: k → (∀ j' ∈ k, j' ∈ s'.stack) →
      i ∈ s'.stack ∨ (∃ k, s.stack = i :: k) ∨ s'.stack = push M.pickNext [.restore] := by
    intro j k hk hsub
    rw [hk] at hi
    rcases List.mem_cons.mp hi with rfl | hi
    · exact Or.inr (Or.inl ⟨k, hk⟩)
    · exact Or.inl (hsub i hi)
  cases h with
  | access hk | suspended hk => exact hrest hk fun j hj => by simp [hj]
  | mayBlock hk _ _ => exact hrest hk fun j hj => hj
  | yield hk | setPending hk | leave hk _ | iret hk => exact hrest hk fun j hj => hj
  | reschedule hk _ => exact hrest hk fun j hj => hj
  | win hk _ | lose hk _ | settle hk _ => exact hrest hk fun j hj => by simp [push, hj]
  | pass hk _ | unlock hk | retry hk _ | relock hk _ | resume hk =>
    exact hrest hk fun j hj => List.mem_cons_of_mem _ hj
  | restore hk => exact hrest hk (by simp)
  | preempt n => exact Or.inl (List.mem_append_right _ (List.mem_cons_of_mem _ hi))
  | pendsv _ _ => exact Or.inr (Or.inr rfl)

/-- PendSV alone puts `restore` on the stack. -/
theorem Control.restore_mem (h : Control M s s') (hmem : .restore ∈ s'.stack) :
    .restore ∈ s.stack ∨ s'.stack = push M.pickNext [.restore] := by
  cases h with
  | access hk | suspended hk | win hk _ | lose hk _ | settle hk _ =>
    exact Or.inl (by simpa [push, hk] using hmem)
  | mayBlock hk _ _ => exact Or.inl (by simpa [hk] using hmem)
  | yield hk | setPending hk | leave hk _ | iret hk => exact Or.inl (by simpa [hk] using hmem)
  | reschedule hk _ => exact Or.inl (by simpa [hk] using hmem)
  | pass hk _ | unlock hk | retry hk _ | relock hk _ | resume hk => exact Or.inl (by simpa [hk] using hmem)
  | restore hk => exact Or.inl (by simp [hk])
  | preempt n => exact Or.inl (by simpa [push] using hmem)
  | pendsv _ _ => exact Or.inr rfl

end Cases

-- ---------------------------------------------------------------------------
-- All instructions
-- ---------------------------------------------------------------------------

/-- The instruction is one of the machine's own, other than the guard of an access. -/
def Instr.isControl : Instr Λ ω β → Bool
  | .code .mayBlock | .code .yield | .setPending _ | .swapPending _ | .unlock _ | .checkPending _
  | .relock _ | .resume | .reschedule | .iret | .restore => true
  | _ => false

/-- Every instruction has the property, on the stack and in the saved contexts. -/
def Everywhere (G : Instr Λ ω β → Prop) (s : State Λ ω β σ τ) : Prop :=
  (∀ i ∈ s.stack, G i) ∧ ∀ t, ∀ i ∈ s.saved t, G i

/-- A property of instructions that the built-in steps keep. -/
structure Hereditary (M : Spec Λ ω β σ τ ι χ) (G : Instr Λ ω β → Prop) : Prop where
  control : ∀ i, i.isControl = true → G i
  guard : ∀ l must op, G (.code (.access l must op)) → G (.guard l must op)
  suspended : ∀ b, G (.code (.suspended b)) → G (.code (.body b))
  full : ∀ l must op, G (.guard l must op) → ∀ c ∈ M.full l op, G (.code c)
  pend : ∀ l must op, G (.guard l must op) → ∀ c ∈ M.pend l op, G (.code c)
  pended : ∀ l, ∀ c ∈ M.pended l, G (.code c)
  handler : ∀ i, ∀ c ∈ M.handler i, G (.code c)
  pickNext : ∀ c ∈ M.pickNext, G (.code c)

section Everywhere

variable {M : Spec Λ ω β σ τ ι χ} {s s' : State Λ ω β σ τ} {G : Instr Λ ω β → Prop}
  {cs : List (Code Λ ω β)} {k : List (Instr Λ ω β)}

omit [DecidableEq Λ] in
theorem forall_mem_push (hcs : ∀ c ∈ cs, G (.code c)) (hk : ∀ i ∈ k, G i) : ∀ i ∈ push cs k, G i := by
  intro i hi
  rcases List.mem_append.mp hi with hi | hi
  · obtain ⟨c, hc, rfl⟩ := List.mem_map.mp hi
    exact hcs c hc
  · exact hk i hi

/-- The rule for built-in steps, when not every access can happen. -/
theorem Everywhere.control_top (hG : Hereditary { M with full := fun _ _ => [], pend := fun _ _ => [] } G)
    (hfull : ∀ l must op k, s.stack = .guard l must op :: k → (s.flags l).locked = false →
      G (.guard l must op) → ∀ c ∈ M.full l op, G (.code c))
    (hpend : ∀ l op k, s.stack = .guard l false op :: k → ¬ (s.flags l).locked = false →
      G (.guard l false op) → ∀ c ∈ M.pend l op, G (.code c))
    (h : Everywhere G s) (hstep : Control M s s') : Everywhere G s' := by
  obtain ⟨hstack, hsaved⟩ := h
  have hc : ∀ i : Instr Λ ω β, i.isControl = true → G i := hG.control
  cases hstep with
  | access hk =>
    rw [hk, List.forall_mem_cons] at hstack
    exact ⟨List.forall_mem_cons.mpr ⟨hG.guard _ _ _ hstack.1,
      List.forall_mem_cons.mpr ⟨hc _ rfl, hstack.2⟩⟩, hsaved⟩
  | suspended hk =>
    rw [hk, List.forall_mem_cons] at hstack
    exact ⟨List.forall_mem_cons.mpr ⟨hG.suspended _ hstack.1,
      List.forall_mem_cons.mpr ⟨hc _ rfl, hstack.2⟩⟩, hsaved⟩
  | win hk hfree =>
    rw [hk, List.forall_mem_cons] at hstack
    exact ⟨forall_mem_push (hfull _ _ _ _ hk hfree hstack.1)
      (List.forall_mem_cons.mpr ⟨hc _ rfl, hstack.2⟩), hsaved⟩
  | lose hk hlocked =>
    rw [hk, List.forall_mem_cons] at hstack
    exact ⟨forall_mem_push (hpend _ _ _ hk hlocked hstack.1)
      (List.forall_mem_cons.mpr ⟨hc _ rfl, hstack.2⟩), hsaved⟩
  | settle hk hpending =>
    rw [hk, List.forall_mem_cons] at hstack
    exact ⟨forall_mem_push (hG.pended _) (List.forall_mem_cons.mpr ⟨hc _ rfl, hstack.2⟩), hsaved⟩
  | mayBlock hk hsus htask =>
    rw [hk, List.forall_mem_cons] at hstack
    exact ⟨hstack.2, hsaved⟩
  | yield hk | setPending hk | leave hk hpending | iret hk =>
    rw [hk, List.forall_mem_cons] at hstack
    exact ⟨hstack.2, hsaved⟩
  | reschedule hk b =>
    rw [hk, List.forall_mem_cons] at hstack
    exact ⟨hstack.2, hsaved⟩
  | pass hk hpending | unlock hk | retry hk hpending | relock hk hfree | resume hk =>
    rw [hk, List.forall_mem_cons] at hstack
    exact ⟨List.forall_mem_cons.mpr ⟨hc _ rfl, hstack.2⟩, hsaved⟩
  | restore hk =>
    refine ⟨hsaved _, fun t i hi => ?_⟩
    by_cases ht : t = M.cur s.content
    · subst ht
      simp at hi
    · simp only [Function.update_of_ne ht] at hi
      exact hsaved t i hi
  | preempt i =>
    exact ⟨forall_mem_push (hG.handler i) (List.forall_mem_cons.mpr ⟨hc _ rfl, hstack⟩), hsaved⟩
  | pendsv hsus htask =>
    refine ⟨forall_mem_push hG.pickNext (by simpa using hc .restore rfl), fun t i hi => ?_⟩
    by_cases ht : t = s.running
    · subst ht
      simp only [Function.update_self] at hi
      exact hstack i hi
    · simp only [Function.update_of_ne ht] at hi
      exact hsaved t i hi

/-- The rule for built-in steps, when not every pend-only access can happen. -/
theorem Everywhere.control_of (hG : Hereditary { M with pend := fun _ _ => [] } G)
    (hpend : ∀ l op k, s.stack = .guard l false op :: k → ¬ (s.flags l).locked = false →
      G (.guard l false op) → ∀ c ∈ M.pend l op, G (.code c))
    (h : Everywhere G s) (hstep : Control M s s') : Everywhere G s' := by
  obtain ⟨hcontrol, hguard, hsuspended, hfull, _, hpended, hhandler, hpickNext⟩ := hG
  exact h.control_top ⟨hcontrol, hguard, hsuspended, fun _ _ _ _ c hc => absurd hc (by simp),
    fun _ _ _ _ c hc => absurd hc (by simp), hpended, hhandler, hpickNext⟩
    (fun l must op k _ _ hg => hfull l must op hg) hpend hstep

theorem Everywhere.control (hG : Hereditary M G) (h : Everywhere G s) (hstep : Control M s s') :
    Everywhere G s' := by
  obtain ⟨hcontrol, hguard, hsuspended, hfull, hpend, hpended, hhandler, hpickNext⟩ := hG
  exact h.control_of ⟨hcontrol, hguard, hsuspended, hfull, fun _ _ _ _ c hc => absurd hc (by simp), hpended,
    hhandler, hpickNext⟩ (fun l op k _ _ hg => hpend l false op hg) hstep

omit [DecidableEq Λ] [DecidableEq τ] in
/-- A step of a kernel object. The property may depend on the content, which changes. -/
theorem Everywhere.body {G' : Instr Λ ω β → Prop} {b : β} {c : σ} (h : Everywhere G s)
    (hk : s.stack = .code (.body b) :: k) (hcs : G (.code (.body b)) → ∀ c ∈ cs, G' (.code c))
    (hrest : ∀ i, (i ∈ k ∨ ∃ t, i ∈ s.saved t) → G i → G' i) :
    Everywhere G' { s with content := c, stack := push cs k } := by
  obtain ⟨hstack, hsaved⟩ := h
  rw [hk, List.forall_mem_cons] at hstack
  exact ⟨forall_mem_push (hcs hstack.1) fun i hi => hrest i (Or.inl hi) (hstack.2 i hi),
    fun t i hi => hrest i (Or.inr ⟨t, hi⟩) (hsaved t i hi)⟩

omit [DecidableEq Λ] in
theorem Everywhere.init {content : σ} {running : τ} {tasks : τ → List (Code Λ ω β)}
    (h : ∀ t, ∀ c ∈ tasks t, G (.code c)) : Everywhere G (init content running tasks) := by
  refine ⟨forall_mem_push (h running) (by simp), fun t i hi => ?_⟩
  by_cases ht : t = running
  · subst ht
    simp [Exec.init] at hi
  · simp only [Exec.init, Function.update_of_ne ht] at hi
    exact forall_mem_push (h t) (by simp) i hi

end Everywhere

-- ---------------------------------------------------------------------------
-- Weights
-- ---------------------------------------------------------------------------

section Weight

variable (w : Instr Λ ω β → Nat)

def weigh (k : List (Instr Λ ω β)) : Nat := (k.map w).sum

/-- The weight of all instructions, on the stack and in the saved contexts. -/
def State.weight [Fintype τ] (s : State Λ ω β σ τ) : Nat :=
  weigh w s.stack + ∑ t, weigh w (s.saved t)

/-- The built-in steps keep the weight. -/
structure Balanced (M : Spec Λ ω β σ τ ι χ) : Prop where
  control : ∀ i, i.isControl = true → w i = 0
  guard : ∀ l must op, w (.guard l must op) = w (.code (.access l must op))
  suspended : ∀ b, w (.code (.body b)) = w (.code (.suspended b))
  full : ∀ l must op, weigh w (push (M.full l op) []) = w (.guard l must op)
  pend : ∀ l op, weigh w (push (M.pend l op) []) = w (.guard l false op)
  pended : ∀ l, weigh w (push (M.pended l) []) = 0
  handler : ∀ i, weigh w (push (M.handler i) []) = 0
  pickNext : weigh w (push M.pickNext []) = 0

variable {w} {M : Spec Λ ω β σ τ ι χ} {s s' : State Λ ω β σ τ} {own : β → Option (Λ × Access)}
  {i : Instr Λ ω β} {k : List (Instr Λ ω β)} {cs : List (Code Λ ω β)}

omit [DecidableEq Λ] in
@[simp] theorem weigh_nil : weigh w [] = 0 := rfl

omit [DecidableEq Λ] in
@[simp] theorem weigh_cons : weigh w (i :: k) = w i + weigh w k := by
  simp [weigh]

omit [DecidableEq Λ] in
theorem weigh_push : weigh w (push cs k) = weigh w (push cs []) + weigh w k := by
  simp [weigh, push]

omit [DecidableEq Λ] in
theorem weigh_eq_zero (h : ∀ i ∈ k, w i = 0) : weigh w k = 0 := by
  induction k with
  | nil => rfl
  | cons i k ih =>
    rw [List.forall_mem_cons] at h
    rw [weigh_cons, h.1, ih h.2]

omit [DecidableEq Λ] [DecidableEq τ] in
/-- Where nothing has weight. -/
theorem State.weight_eq_zero [Fintype τ] (hstack : ∀ i ∈ s.stack, w i = 0)
    (hsaved : ∀ t, ∀ i ∈ s.saved t, w i = 0) : s.weight w = 0 := by
  rw [State.weight, weigh_eq_zero hstack, Finset.sum_eq_zero fun t _ => weigh_eq_zero (hsaved t),
    Nat.add_zero]

omit [DecidableEq Λ] in
/-- Replacing one saved context. -/
theorem sum_weigh_update [Fintype τ] (saved : τ → List (Instr Λ ω β)) (t₀ : τ) :
    (∑ t, weigh w (Function.update saved t₀ k t)) + weigh w (saved t₀) =
      (∑ t, weigh w (saved t)) + weigh w k := by
  rw [← Finset.add_sum_erase _ (fun t => weigh w (Function.update saved t₀ k t)) (Finset.mem_univ t₀),
    ← Finset.add_sum_erase _ (fun t => weigh w (saved t)) (Finset.mem_univ t₀)]
  have hrest : ∑ t ∈ Finset.univ.erase t₀, weigh w (Function.update saved t₀ k t) =
      ∑ t ∈ Finset.univ.erase t₀, weigh w (saved t) :=
    Finset.sum_congr rfl fun t ht => by rw [Function.update_of_ne (Finset.ne_of_mem_erase ht)]
  rw [hrest, Function.update_self]
  omega

omit [DecidableEq Λ] [DecidableEq τ] in
/-- What a step on top of the stack adds to the weight. -/
theorem State.weight_replace [Fintype τ] (hk : s.stack = i :: k) (hsaved : s'.saved = s.saved) {n : Nat}
    (hstack : weigh w s'.stack = n + weigh w k) : s'.weight w + w i = s.weight w + n := by
  simp only [State.weight, hk, hsaved, hstack, weigh_cons]
  omega

omit [DecidableEq Λ] [DecidableEq τ] in
/-- A step of a kernel object. -/
theorem State.weight_body [Fintype τ] {b : β} (hk : s.stack = .code (.body b) :: k) (c : σ)
    (cs : List (Code Λ ω β)) :
    ({ s with content := c, stack := push cs k } : State Λ ω β σ τ).weight w + w (.code (.body b)) =
      s.weight w + weigh w (push cs []) := by
  apply State.weight_replace hk
  · rfl
  · exact weigh_push

omit [DecidableEq Λ] [DecidableEq τ] in
theorem le_weigh (hi : i ∈ k) : w i ≤ weigh w k := by
  induction k with
  | nil => simp at hi
  | cons j k ih =>
    rw [weigh_cons]
    rcases List.mem_cons.mp hi with rfl | hi
    · omega
    · have := ih hi
      omega

omit [DecidableEq Λ] [DecidableEq τ] in
theorem State.le_weight [Fintype τ] (hi : i ∈ s.stack ∨ ∃ t, i ∈ s.saved t) : w i ≤ s.weight w := by
  rw [State.weight]
  rcases hi with hi | ⟨t, hi⟩
  · have := le_weigh (w := w) hi
    omega
  · have hle := le_weigh (w := w) hi
    have hsum := Finset.single_le_sum (f := fun t => weigh w (s.saved t)) (fun _ _ => Nat.zero_le _)
      (Finset.mem_univ t)
    omega

omit [DecidableEq Λ] [DecidableEq τ] in
theorem State.weight_mono [Fintype τ] {w' : Instr Λ ω β → Nat} (h : ∀ i, w i ≤ w' i) :
    s.weight w ≤ s.weight w' := by
  have hweigh : ∀ k, weigh w k ≤ weigh w' k := fun k => List.sum_le_sum fun i _ => h i
  exact Nat.add_le_add (hweigh _) (Finset.sum_le_sum fun t _ => hweigh _)

omit [DecidableEq Λ] [DecidableEq τ] in
/-- Two instructions at two places. -/
theorem State.add_le_weight [Fintype τ] {j : Instr Λ ω β} (hk : s.stack = i :: k)
    (hj : j ∈ k ∨ ∃ t, j ∈ s.saved t) : w i + w j ≤ s.weight w := by
  rw [State.weight, hk, weigh_cons]
  rcases hj with hj | ⟨t, hj⟩
  · have := le_weigh (w := w) hj
    omega
  · have hle := le_weigh (w := w) hj
    have hsum := Finset.single_le_sum (f := fun t => weigh w (s.saved t)) (fun _ _ => Nat.zero_le _)
      (Finset.mem_univ t)
    omega

omit [DecidableEq Λ] in
theorem State.weight_init [Fintype τ] {content : σ} {running : τ} {tasks : τ → List (Code Λ ω β)}
    (h : ∀ t, weigh w (push (tasks t) []) = 0) : (init content running tasks).weight w = 0 := by
  have hsaved : ∀ t, weigh w ((init content running tasks).saved t) = 0 := by
    intro t
    by_cases ht : t = running
    · subst ht
      simp [init]
    · simpa only [init, Function.update_of_ne ht] using h t
  rw [State.weight, Finset.sum_eq_zero fun t _ => hsaved t]
  exact h running

theorem Control.weight_eq [Fintype τ] (hw : Balanced w M) (hsound : Sound own s)
    (h : Control M s s') : s'.weight w = s.weight w := by
  have hc : ∀ i : Instr Λ ω β, i.isControl = true → w i = 0 := hw.control
  -- A step that replaces the top of the stack by something of the same weight.
  have htop : ∀ {i k}, s.stack = i :: k → s'.saved = s.saved →
      weigh w s'.stack = w i + weigh w k → s'.weight w = s.weight w := by
    intro i k hk hsaved hstack
    have := State.weight_replace hk hsaved hstack
    omega
  cases h with
  | @access l must op k hk =>
    exact htop hk rfl (by simp [hw.guard, hc .resume rfl])
  | suspended hk => exact htop hk rfl (by simp [hw.suspended, hc .resume rfl])
  | mayBlock hk hsus htask => exact htop hk rfl (by simp [hc (.code .mayBlock) rfl])
  | yield hk => exact htop hk rfl (by simp [hc (.code .yield) rfl])
  | @win l must op k hk hfree =>
    exact htop hk rfl (by simp only [weigh_push (k := _ :: _), hw.full l must op, weigh_cons,
      hc (.swapPending l) rfl, Nat.zero_add])
  | @lose l op k hk hlocked =>
    exact htop hk rfl (by simp only [weigh_push (k := _ :: _), hw.pend l op, weigh_cons,
      hc (.setPending l) rfl, Nat.zero_add])
  | @setPending l k hk => exact htop hk rfl (by simp [hc (.setPending l) rfl])
  | @settle l k hk hpending =>
    exact htop hk rfl (by simp only [weigh_push (k := _ :: _), hw.pended l, weigh_cons,
      hc (.unlock l) rfl, hc (.swapPending l) rfl, Nat.zero_add])
  | @pass l k hk hpending =>
    exact htop hk rfl (by simp [hc (.unlock l) rfl, hc (.swapPending l) rfl])
  | @unlock l k hk =>
    exact htop hk rfl (by simp [hc (.unlock l) rfl, hc (.checkPending l) rfl])
  | @retry l k hk hpending =>
    exact htop hk rfl (by simp [hc (.relock l) rfl, hc (.checkPending l) rfl])
  | @leave l k hk hpending => exact htop hk rfl (by simp [hc (.checkPending l) rfl])
  | @relock l k hk hfree =>
    exact htop hk rfl (by simp [hc (.relock l) rfl, hc (.swapPending l) rfl])
  | resume hk => exact htop hk rfl (by simp [hc .resume rfl, hc .reschedule rfl])
  | reschedule hk b => exact htop hk rfl (by simp [hc .reschedule rfl])
  | iret hk => exact htop hk rfl (by simp [hc .iret rfl])
  | restore hk =>
    have hsum := sum_weigh_update (w := w) (k := []) s.saved (M.cur s.content)
    simp only [State.weight, hk, weigh_cons, weigh_nil, hc .restore rfl] at hsum ⊢
    omega
  | preempt n =>
    simp only [State.weight, weigh_push (k := _ :: _), hw.handler n, weigh_cons, hc .iret rfl,
      Nat.zero_add]
  | pendsv hsus htask =>
    -- The context that is switched out was not saved before.
    have hhome : s.saved s.running = [] := hsound.home fun i hi heq => by
      rw [taskLevel, List.all_eq_true] at htask
      have := htask i hi
      simp [heq, Instr.isFrame] at this
    have hsum := sum_weigh_update (w := w) (k := s.stack) s.saved s.running
    simp only [hhome, weigh_nil] at hsum
    simp only [State.weight, weigh_push (k := [_]), hw.pickNext, weigh_cons, weigh_nil,
      hc .restore rfl]
    omega

end Weight

-- ---------------------------------------------------------------------------
-- Pended work
-- ---------------------------------------------------------------------------

/-- Work that pend-only accesses leave behind: `due c l` says that there is some for the
lock `l`, and `settles b = some l` that the step `b` takes all of it over. -/
structure Deferral (own : β → Option (Λ × Access)) (M : Spec Λ ω β σ τ ι χ) (due : σ → Λ → Prop)
    (settles : β → Option Λ) : Prop where
  grow : ∀ {c b x c' cs l}, M.exec c b x = some (c', cs) → due c' l →
    due c l ∨ own b = some (l, .pend)
  settle : ∀ {c b x c' cs l}, M.exec c b x = some (c', cs) → settles b = some l → ¬ due c' l
  owned : ∀ {b l}, settles b = some l → own b = some (l, .full)
  pended : ∀ l, ∃ b, settles b = some l ∧ .body b ∈ M.pended l

/-- The steps of `run_pended_op` after which pended work is looked at again: with
`looks b = some l`, the step `b` of `run_pended_op` or one that it goes on with does. -/
structure Looking (own : β → Option (Λ × Access)) (M : Spec Λ ω β σ τ ι χ) (due : σ → Λ → Prop)
    (looks : β → Option Λ) : Prop where
  owned : ∀ {b l}, looks b = some l → own b = some (l, .full)
  pended : ∀ {c l}, due c l → ∃ b, looks b = some l ∧ .body b ∈ M.pended l

/-- `run_pended_op` does not stop before the work is done. -/
structure Draining (own : β → Option (Λ × Access)) (M : Spec Λ ω β σ τ ι χ) (due : σ → Λ → Prop)
    (looks : β → Option Λ) : Prop extends Looking own M due looks where
  grow : ∀ {c b x c' cs l}, M.exec c b x = some (c', cs) → due c' l →
    due c l ∨ own b = some (l, .pend)
  goOn : ∀ {c b x c' cs l}, M.exec c b x = some (c', cs) → looks b = some l → due c' l →
    ∃ b', looks b' = some l ∧ .body b' ∈ cs

/-- Pended work is announced: by the flag, by a guard that is about to set it, or by a
`run_pended_op` that is about to do the work. -/
def Announced (due : σ → Λ → Prop) (settles : β → Option Λ) (s : State Λ ω β σ τ) : Prop :=
  ∀ l, due s.content l → (s.flags l).pending = true ∨ .setPending l ∈ s.stack ∨
    ∃ b, settles b = some l ∧ .code (.body b) ∈ s.stack

section Deferral

omit [DecidableEq Λ] [DecidableEq τ] in
/-- One step that takes all work over. -/
theorem Deferral.draining {own : β → Option (Λ × Access)} {M : Spec Λ ω β σ τ ι χ} {due : σ → Λ → Prop}
    {settles : β → Option Λ} (hd : Deferral own M due settles) : Draining own M due settles where
  owned := hd.owned
  pended {_ l} _ := hd.pended l
  grow := hd.grow
  goOn hexec hb hdue := absurd hdue (hd.settle hexec hb)

variable {M : Spec Λ ω β σ τ ι χ} {s s' : State Λ ω β σ τ} {own : β → Option (Λ × Access)}
  {due : σ → Λ → Prop} {settles : β → Option Λ} {k : List (Instr Λ ω β)} {l : Λ}

omit [DecidableEq Λ] [DecidableEq τ] in
/-- A step that takes an instruction off the stack which announces nothing. -/
theorem Announced.keep {i : Instr Λ ω β} (h : Announced due settles s) (hk : s.stack = i :: k)
    (hsub : ∀ j ∈ k, j ∈ s'.stack) (hcontent : s'.content = s.content)
    (hflags : ∀ l, due s.content l → (s.flags l).pending = true → (s'.flags l).pending = true)
    (hset : ∀ l, i ≠ .setPending l) (hbody : ∀ b, i ≠ .code (.body b)) :
    Announced due settles s' := by
  intro l hdue
  rw [hcontent] at hdue
  rcases h l hdue with hp | hp | ⟨b, hb, hp⟩
  · exact Or.inl (hflags l hdue hp)
  · rw [hk] at hp
    rcases List.mem_cons.mp hp with heq | hp
    · exact absurd heq.symm (hset l)
    · exact Or.inr (Or.inl (hsub _ hp))
  · rw [hk] at hp
    rcases List.mem_cons.mp hp with heq | hp
    · exact absurd heq.symm (hbody b)
    · exact Or.inr (Or.inr ⟨b, hb, hsub _ hp⟩)

omit [DecidableEq τ] in
@[simp] theorem setLocked_pending (l l' : Λ) (b : Bool) :
    ((setLocked s l b).flags l').pending = (s.flags l').pending := by
  by_cases h : l' = l
  · subst h
    simp [setLocked]
  · simp [setLocked, h]

omit [DecidableEq τ] in
@[simp] theorem setPendingFlag_self (l : Λ) (b : Bool) :
    ((setPendingFlag s l b).flags l).pending = b := by
  simp [setPendingFlag]

omit [DecidableEq τ] in
theorem Instr.eq_setPending {i : Instr Λ ω β} (h : i.mark own l = some .pend) : i = .setPending l := by
  cases i with
  | code c =>
    cases c with
    | body b | suspended b =>
      simp only [Instr.mark, Code.mark, Option.bind_eq_some_iff] at h
      obtain ⟨⟨l', a⟩, -, h⟩ := h
      split at h
      · cases a <;> simp [Access.mark] at h
      · exact absurd h (by simp)
    | access l' must op => simp [Instr.mark, Code.mark] at h
    | mayBlock => simp [Instr.mark, Code.mark] at h
    | yield => simp [Instr.mark, Code.mark] at h
  | setPending l' =>
    simp only [Instr.mark] at h
    split at h
    · simp [*]
    · exact absurd h (by simp)
  | swapPending l' | unlock l' | checkPending l' | relock l' =>
    simp only [Instr.mark] at h
    split at h <;> simp at h
  | guard l' must op => simp [Instr.mark] at h
  | resume | reschedule | iret | restore => simp [Instr.mark] at h

omit [DecidableEq τ] in
/-- Below a step of a pend-only access is the guard that sets the flag. -/
theorem Sound.setPending_mem {b : β} (h : Sound own s) (hk : s.stack = .code (.body b) :: k)
    (hb : own b = some (l, .pend)) : .setPending l ∈ k := by
  have hl := h.locks l
  rw [hk, marks_cons] at hl
  simp only [Instr.mark, Code.mark, hb, Option.bind_some, if_true, Option.toList_some,
    List.singleton_append, Access.mark] at hl
  obtain ⟨-, hheld⟩ := hl.held (by rintro ⟨⟩)
  generalize hms : marks own l k = ms at hheld
  cases hheld with
  | note hheld =>
    have hmem : Mark.pend ∈ marks own l k := by simp [hms]
    obtain ⟨i, hi, hmark⟩ := List.mem_filterMap.mp hmem
    exact Instr.eq_setPending hmark ▸ hi

theorem Released.body_not_mem {ms : List Mark} (h : Released ms) : .body ∉ ms := by
  induction h with
  | nil => simp
  | wait _ ih => simpa using ih

omit [DecidableEq τ] in
/-- While a step of a full access is next, no other step of a full access to the same lock
is in progress anywhere. -/
theorem Sound.exclusive {b b' : β} (h : Sound own s) (hk : s.stack = .code (.body b) :: k)
    (hb : own b = some (l, .full))
    (hmem : .code (.body b') ∈ k ∨ ∃ t, .code (.body b') ∈ s.saved t) : own b' ≠ some (l, .full) := by
  intro hb'
  rcases hmem with hmem | ⟨t, hmem⟩
  · have hl := h.locks l
    rw [hk, marks_cons] at hl
    simp only [Instr.mark, Code.mark, hb, Option.bind_some, if_true, Option.toList_some,
      List.singleton_append, Access.mark] at hl
    obtain ⟨-, hheld⟩ := hl.held (by rintro ⟨⟩)
    have hmark : Mark.body ∈ marks own l k :=
      List.mem_filterMap.mpr ⟨_, hmem, by simp [Instr.mark, Code.mark, hb', Access.mark]⟩
    generalize marks own l k = ms at hheld hmark
    cases hheld with
    | body hms =>
      rcases List.mem_cons.mp hmark with heq | hmark
      · exact absurd heq (by simp)
      · exact hms.body_not_mem hmark
  · have := (h.saved t _ hmem).1
    simp [Instr.inner, hb'] at this

/-- Built-in steps leave the steps of accesses that are in progress on the stack. -/
theorem Control.mem_of_own {b : β} (hsound : Sound own s) (hb : (own b).isSome = true)
    (hmem : .code (.body b) ∈ s.stack) (hstep : Control M s s') : .code (.body b) ∈ s'.stack := by
  -- What is below the top of the stack stays.
  have hrest : ∀ {i k}, s.stack = i :: k → .code (.body b) ≠ i → .code (.body b) ∈ k := by
    intro i k hk hne
    rw [hk] at hmem
    exact (List.mem_cons.mp hmem).resolve_left hne
  cases hstep with
  | access hk | suspended hk | win hk _ | lose hk _ | settle hk _ =>
    have := hrest hk (by simp)
    simp [push, this]
  | mayBlock hk _ _ => exact hrest hk (by simp)
  | yield hk | setPending hk | leave hk _ | iret hk => exact hrest hk (by simp)
  | reschedule hk _ => exact hrest hk (by simp)
  | pass hk _ | unlock hk | retry hk _ | relock hk _ | resume hk =>
    exact List.mem_cons_of_mem _ (hrest hk (by simp))
  | restore hk => simp [hk] at hmem
  | preempt i => exact List.mem_append_right _ (List.mem_cons_of_mem _ hmem)
  | pendsv hsus htask =>
    have hclean := (hsound.clean hsus htask _ hmem).1
    simp only [Instr.inner, hb] at hclean
    exact absurd hclean (by simp)

omit [DecidableEq τ] in
/-- A step of a kernel object that adds work only with pend-only access, and does not stop
before the work is done. -/
theorem Announced.body_of {b : β} {c : σ} {cs : List (Code Λ ω β)} (hsound : Sound own s)
    (h : Announced due settles s) (hk : s.stack = .code (.body b) :: k)
    (hgrow : ∀ l, due c l → due s.content l ∨ own b = some (l, .pend))
    (hgoOn : ∀ l, settles b = some l → due c l → ∃ b', settles b' = some l ∧ .body b' ∈ cs) :
    Announced due settles { s with content := c, stack := push cs k } := by
  intro l hdue
  rcases hgrow l hdue with hdue' | hown
  · rcases h l hdue' with hp | hp | ⟨b', hb', hp⟩
    · exact Or.inl hp
    · rw [hk] at hp
      exact Or.inr (Or.inl (List.mem_append_right _ (by simpa using hp)))
    · rw [hk] at hp
      rcases List.mem_cons.mp hp with heq | hp
      · obtain rfl : b' = b := by simpa using heq
        obtain ⟨b', hb', hmem⟩ := hgoOn l hb' hdue
        exact Or.inr (Or.inr ⟨b', hb', List.mem_append_left _ (List.mem_map_of_mem hmem)⟩)
      · exact Or.inr (Or.inr ⟨b', hb', List.mem_append_right _ hp⟩)
  · exact Or.inr (Or.inl (List.mem_append_right _ (hsound.setPending_mem hk hown)))

omit [DecidableEq τ] in
theorem Announced.body {b : β} {c : σ} {cs : List (Code Λ ω β)} {x : χ}
    (hd : Draining own M due settles) (hsound : Sound own s) (h : Announced due settles s)
    (hk : s.stack = .code (.body b) :: k) (hexec : M.exec s.content b x = some (c, cs)) :
    Announced due settles { s with content := c, stack := push cs k } :=
  h.body_of hsound hk (fun _ hdue => hd.grow hexec hdue) fun _ hb hdue => hd.goOn hexec hb hdue

theorem Announced.control (hd : Looking own M due settles) (hsound : Sound own s)
    (h : Announced due settles s) (hstep : Control M s s') : Announced due settles s' := by
  cases hstep with
  | access hk | suspended hk | resume hk | retry hk hpending =>
    exact h.keep hk (fun j hj => by simp [hj]) rfl (fun _ _ hp => hp) (by simp) (by simp)
  | mayBlock hk hsus htask =>
    exact h.keep hk (fun j hj => hj) rfl (fun _ _ hp => hp) (by simp) (by simp)
  | yield hk | leave hk hpending | iret hk =>
    exact h.keep hk (fun j hj => hj) rfl (fun _ _ hp => hp) (by simp) (by simp)
  | reschedule hk b =>
    exact h.keep hk (fun j hj => hj) rfl (fun _ _ hp => hp) (by simp) (by simp)
  | win hk hfree =>
    exact h.keep hk (fun j hj => by simp [push, hj]) rfl (fun l _ hp => by simpa using hp) (by simp)
      (by simp)
  | lose hk hlocked =>
    exact h.keep hk (fun j hj => by simp [push, hj]) rfl (fun l _ hp => hp) (by simp) (by simp)
  | unlock hk | relock hk hfree =>
    exact h.keep hk (fun j hj => by simp [hj]) rfl (fun l _ hp => by simpa using hp) (by simp)
      (by simp)
  | @setPending l' k hk =>
    intro l hdue
    by_cases hl : l = l'
    · subst hl
      exact Or.inl (setPendingFlag_self l true)
    · rcases h l hdue with hp | hp | ⟨b, hb, hp⟩
      · exact Or.inl (by simpa [setPendingFlag, hl] using hp)
      · rw [hk] at hp
        exact Or.inr (Or.inl (by simpa [hl] using hp))
      · rw [hk] at hp
        exact Or.inr (Or.inr ⟨b, hb, by simpa using hp⟩)
  | @settle l' k hk hpending =>
    intro l hdue
    by_cases hl : l = l'
    · subst hl
      obtain ⟨b, hb, hmem⟩ := hd.pended hdue
      exact Or.inr (Or.inr ⟨b, hb, List.mem_append_left _ (List.mem_map_of_mem hmem)⟩)
    · rcases h l hdue with hp | hp | ⟨b, hb, hp⟩
      · exact Or.inl (by simpa [setPendingFlag, hl] using hp)
      · rw [hk] at hp
        exact Or.inr (Or.inl (List.mem_append_right _ (by simpa using hp)))
      · rw [hk] at hp
        exact Or.inr (Or.inr ⟨b, hb, List.mem_append_right _ (by simpa using hp)⟩)
  | @pass l' k hk hpending =>
    refine h.keep hk (fun j hj => by simp [hj]) rfl (fun l _ hp => ?_) (by simp) (by simp)
    have hl : l ≠ l' := by
      rintro rfl
      exact hpending hp
    simpa [setPendingFlag, hl] using hp
  | restore hk =>
    intro l hdue
    rcases h l hdue with hp | hp | ⟨b, hb, hp⟩
    · exact Or.inl hp
    · simp [hk] at hp
    · simp [hk] at hp
  | preempt i =>
    intro l hdue
    rcases h l hdue with hp | hp | ⟨b, hb, hp⟩
    · exact Or.inl hp
    · exact Or.inr (Or.inl (List.mem_append_right _ (List.mem_cons_of_mem _ hp)))
    · exact Or.inr (Or.inr ⟨b, hb, List.mem_append_right _ (List.mem_cons_of_mem _ hp)⟩)
  | pendsv hsus htask =>
    -- At task level with the scheduler running, no access is in progress.
    have hclean := hsound.clean hsus htask
    intro l hdue
    rcases h l hdue with hp | hp | ⟨b, hb, hp⟩
    · exact Or.inl hp
    · exact absurd (hclean _ hp).1 (by simp [Instr.inner])
    · exact absurd (hclean _ hp).1 (by simp [Instr.inner, hd.owned hb])

/-- The steps of an access stand above its guard. -/
theorem LockOk.eq_nil {f : Flags} {owed : Bool} {ms : List Mark} (h : LockOk f owed ms)
    (hms : ∀ m ∈ ms, m = .body ∨ m = .note) : ms = [] := by
  have hshape := h.shape
  rw [Shape] at hshape
  split at hshape
  · cases hshape with
    | hold _ => simpa using hms .hold
    | body _ => simpa using hms .hold
    | pend _ => simpa using hms .pend
    | note _ => simpa using hms .pend
  · cases hshape with
    | nil => rfl
    | wait _ => simpa using hms .wait

omit [DecidableEq τ] in
/-- Without a guard, an access has no steps either. -/
theorem Sound.marks_eq_nil (h : Sound own s) (hno : ∀ i ∈ s.stack, Instr.guardOf l i = false) :
    marks own l s.stack = [] := by
  have hl := h.locks l
  have hms : ∀ m ∈ marks own l s.stack, m = .body ∨ m = .note := by
    intro m hm
    obtain ⟨i, hi, hmark⟩ := List.mem_filterMap.mp hm
    have hg := hno i hi
    cases i with
    | code c =>
      cases c with
      | body b | suspended b =>
        simp only [Instr.mark, Code.mark, Option.bind_eq_some_iff] at hmark
        obtain ⟨⟨l', a⟩, -, hmark⟩ := hmark
        split at hmark
        · cases a <;> simp_all [Access.mark]
        · exact absurd hmark (by simp)
      | access l' must op => simp [Instr.mark, Code.mark] at hmark
      | mayBlock => simp [Instr.mark, Code.mark] at hmark
      | yield => simp [Instr.mark, Code.mark] at hmark
    | setPending l' | swapPending l' | unlock l' | checkPending l' | relock l' =>
      have hne : l' ≠ l := by simpa [Instr.guardOf] using hg
      simp [Instr.mark, hne] at hmark
    | guard l' must op => simp [Instr.mark] at hmark
    | resume | reschedule | iret | restore => simp [Instr.mark] at hmark
  exact hl.eq_nil hms

omit [DecidableEq τ] in
/-- When no guard of a lock is alive, there is no pended work for it. -/
theorem Announced.idle (hd : Looking own M due settles) (hsound : Sound own s)
    (h : Announced due settles s) (hno : ∀ i ∈ s.stack, Instr.guardOf l i = false) :
    ¬ due s.content l := by
  have hnil := hsound.marks_eq_nil hno
  intro hdue
  rcases h l hdue with hp | hp | ⟨b, hb, hp⟩
  · have hl := hsound.locks l
    rw [hnil] at hl
    simp [hl.unlocked.1] at hp
  · have := hno _ hp
    simp [Instr.guardOf] at this
  · rw [marks, List.filterMap_eq_nil_iff] at hnil
    have := hnil _ hp
    simp [Instr.mark, Code.mark, hd.owned hb] at this

end Deferral

end Hopter.Exec
