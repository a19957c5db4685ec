-- SUMMARY: Priority inheritance: when the owner of a mutex has the priority of its waiters, and runs in which it has not.
import Hopter.Sync.MutexInvariant
import Mathlib.Data.Fintype.Sigma

/-!
# Priority inheritance

A task that finds a mutex locked lends its priority to the owner, once, before it waits.
The boost is given to the task and not to the mutex: the drop of any guard takes all boosts
back, and a new owner starts without any. Nor is a boost handed on when the owner itself
waits for another mutex.

So the owner has the priority of the waiters (`Inherited`) in the runs in which each of
these steps happens only where it does no harm (`Body.Harmless`), and there are runs in which
it has not.
-/

namespace Hopter.Sync.Mutex

open Exec Hopter.Task

variable {M κ γ η ρ τ ι ξ : Type} [DecidableEq M] [DecidableEq τ]

def Content.effective (c : Content M ρ τ) (t : τ) : Nat := (c.priority t).effectivePriority

/-- The task waits in the queue, or has lent its priority to the present owner and is about
to wait. -/
def Content.Waits (c : Content M ρ τ) (m : M) (t : τ) : Prop := t ∈ c.queue m ∨ c.lent m t = true

instance (c : Content M ρ τ) (m : M) (t : τ) : Decidable (c.Waits m t) :=
  inferInstanceAs (Decidable (_ ∨ _))

/-- Owners have at least the priority of the tasks that wait for them. -/
def Inherited (c : Content M ρ τ) : Prop :=
  ∀ m o, c.owner m = some o → ∀ t, c.Waits m t → c.effective o ≤ c.effective t

/-- Inheritance only raises priorities. -/
def Raised (c : Content M ρ τ) : Prop := ∀ t, c.effective t ≤ (c.priority t).intrinsicPriority

-- ---------------------------------------------------------------------------
-- Harmless steps
-- ---------------------------------------------------------------------------

/-- A boost of the owner is harmless when the owner does not wait for a mutex itself, or when
the owner of that mutex has the priority already. -/
def Content.BoostHarmless (c : Content M ρ τ) (m : M) : Prop :=
  ∀ o, c.owner m = some o → ∀ m' o', c.owner m' = some o' → c.Waits m' o →
    c.effective o' ≤ c.effective c.cur

/-- The priority of a task may change to `prio` without harm to those that wait for it. -/
def Content.LowerHarmless (c : Content M ρ τ) (o : τ) (prio : Nat) (held : M → Prop) : Prop :=
  ∀ m, held m → c.owner m = some o → ∀ t, c.Waits m t → prio ≤ c.effective t

/-- The step does not undo an inheritance, and does not need one that is not given. -/
def Body.Harmless (c : Content M ρ τ) : Body M κ γ η τ → Prop
  | .afterFastPath m _ => c.result m c.cur = some false → c.BoostHarmless m
  -- the owner is still the one that the task has lent its priority to
  | .block m t => c.result m t = some false → ∀ o, c.owner m = some o → c.lent m t = true
  -- no task with a higher priority stays behind in the queue
  | .setOwner m t => ∀ u ∈ c.queue m, c.effective t ≤ c.effective u
  -- nobody with a higher priority waits for another mutex of the owner
  | .takeOwner m => ∀ o, c.owner m = some o →
    c.LowerHarmless o (c.priority o).intrinsicPriority fun m' => m' ≠ m
  | .changePriority prio =>
    c.LowerHarmless c.cur ((c.priority c.cur).changeIntrinsic prio).effectivePriority (fun _ => True) ∧
      ∀ m o, c.owner m = some o → c.Waits m c.cur →
        c.effective o ≤ ((c.priority c.cur).changeIntrinsic prio).effectivePriority
  | _ => True

/-- The next step is harmless. -/
def Harmless (s : State M QueueOp (Body M κ γ η τ) (Content M ρ τ) τ) (a : Action ι (Choice τ ξ)) : Prop :=
  ∀ b, b ∈ takes s a → b.Harmless s.content

-- ---------------------------------------------------------------------------
-- Steps
-- ---------------------------------------------------------------------------

variable {C : Client M κ γ η ρ ι ξ} {c c' : Content M ρ τ} {b : Body M κ γ η τ}
  {cs : List (Code M QueueOp (Body M κ γ η τ))}

omit [DecidableEq M] [DecidableEq τ] in
/-- A step that leaves priorities and owners alone and adds no waiter. -/
theorem Inherited.mono (h : Inherited c) (hprio : c'.priority = c.priority) (howner : c'.owner = c.owner)
    (hwaits : ∀ m t, c'.Waits m t → c.Waits m t) : Inherited c' := by
  intro m o ho t ht
  rw [howner] at ho
  have := h m o ho t (hwaits m t ht)
  simpa [Content.effective, hprio] using this

def Content.setPriority (c : Content M ρ τ) (o : τ) (prio : TaskPriority) : Content M ρ τ :=
  { c with priority := Function.update c.priority o prio }

omit [DecidableEq M] in
theorem Content.effective_setPriority (o t : τ) (prio : TaskPriority) :
    (c.setPriority o prio).effective t = if t = o then prio.effectivePriority else c.effective t := by
  by_cases ht : t = o <;> simp [Content.effective, Content.setPriority, ht]

omit [DecidableEq M] in
/-- The priority of one task changes: it has to stay above those that wait for the task, and
below those that the task waits for. -/
theorem Inherited.setPriority {o : τ} {prio : TaskPriority} (h : Inherited c)
    (howner : ∀ m, c.owner m = some o → ∀ t, c.Waits m t → prio.effectivePriority ≤ c.effective t)
    (hwaiter : ∀ m o', c.owner m = some o' → c.Waits m o → c.effective o' ≤ prio.effectivePriority) :
    Inherited (c.setPriority o prio) := by
  intro m o' ho' t ht
  rw [Content.effective_setPriority, Content.effective_setPriority]
  by_cases hoo : o' = o <;> by_cases hto : t = o
  · simp [hoo, hto]
  · subst hoo
    simpa [hto] using howner m ho' t ht
  · subst hto
    simpa [hoo] using hwaiter m o' ho' ht
  · simpa [hoo, hto] using h m o' ho' t ht

theorem Inherited.inherit {m : M} (h : Inherited c) (hboost : c.BoostHarmless m) :
    Inherited (c.inherit m) := by
  unfold Content.inherit
  split
  · rename_i o ho
    have hraised : Inherited (c.setPriority o ((c.priority o).ceilPriorityFrom (c.priority c.cur))) := by
      refine h.setPriority (fun m' ho' t ht => ?_) fun m' o' ho' ht => ?_
      · rw [TaskPriority.effectivePriority_ceilPriorityFrom]
        exact Nat.le_trans (Nat.min_le_left ..) (h m' o ho' t ht)
      · rw [TaskPriority.effectivePriority_ceilPriorityFrom]
        exact Nat.le_min.mpr ⟨h m' o' ho' o ht, hboost o ho m' o' ho' ht⟩
    intro m' o' ho' t ht
    have hnew : c.Waits m' t ∨ m' = m ∧ t = c.cur := by
      rcases ht with ht | ht
      · exact Or.inl (Or.inl ht)
      · by_cases hm : m' = m
        · subst hm
          by_cases htc : t = c.cur
          · exact Or.inr ⟨rfl, htc⟩
          · exact Or.inl (Or.inr (by simpa [htc] using ht))
        · exact Or.inl (Or.inr (by simpa [hm] using ht))
    rcases hnew with hold | ⟨rfl, rfl⟩
    · exact hraised m' o' ho' t hold
    · obtain rfl : o = o' := Option.some.inj (ho.symm.trans ho')
      change (c.setPriority o _).effective o ≤ (c.setPriority o _).effective c.cur
      rw [Content.effective_setPriority, Content.effective_setPriority, if_pos rfl]
      split
      · exact Nat.le_refl _
      · rw [TaskPriority.effectivePriority_ceilPriorityFrom]
        exact Nat.min_le_right ..
  · exact h

omit [DecidableEq τ] in
/-- A mutex gets another owner. The boosts of the last owner do not count. -/
theorem Inherited.setOwner {m : M} {o : Option τ} (h : Inherited c)
    (hqueue : ∀ t, o = some t → ∀ u ∈ c.queue m, c.effective t ≤ c.effective u) :
    Inherited (c.setOwner m o) := by
  intro m' o' ho' t ht
  change c.effective o' ≤ c.effective t
  by_cases hm : m' = m
  · subst hm
    have ho : o = some o' := by simpa [Content.setOwner] using ho'
    rcases ht with ht | ht
    · exact hqueue o' ho t ht
    · simp [Content.setOwner] at ht
  · have hold : c.Waits m' t := by simpa [Content.Waits, Content.setOwner, hm] using ht
    exact h m' o' (by simpa [Content.setOwner, hm] using ho') t hold

theorem Inherited.takeOwner {m : M} (h : Inherited c) (hraised : Raised c)
    (hlower : ∀ o, c.owner m = some o →
      c.LowerHarmless o (c.priority o).intrinsicPriority fun m' => m' ≠ m) :
    Inherited (c.takeOwner m) := by
  unfold Content.takeOwner
  split
  · rename_i o ho
    have hnone : Inherited (c.setOwner m none) := h.setOwner (by simp)
    refine Inherited.setPriority hnone (fun m' ho' t ht => ?_) fun m' o' ho' ht => ?_
    · have hm : m' ≠ m := by
        rintro rfl
        simp [Content.setOwner] at ho'
      exact hlower o ho m' hm (by simpa [Content.setOwner, hm] using ho') t
        (by simpa [Content.Waits, Content.setOwner, hm] using ht)
    · exact Nat.le_trans (hnone m' o' ho' o ht) (hraised o)
  · exact h

theorem Inherited.step (h : Inherited c) (hraised : Raised c) (hharmless : b.Harmless c)
    (hstep : Outcome C c b c' cs) : Inherited c' := by
  cases hstep with
  | own _ | interrupt _ | isLocked _ | lost _ | acquired _ | nobody _ => exact h
  | isFree | afterTryLock | fastPath | waitUntil | condition | goOn | gotGuard | blocked | addNotify
  | swapNotifyCnt | popDone | pickNext | unlock => exact h
  | @setOwner m t =>
    have hset : Inherited (c.setOwner m (some t)) := by
      refine h.setOwner fun u hu => ?_
      obtain rfl := Option.some.inj hu
      exact hharmless
    exact hset
  | @slowPath m k hresult => exact h.inherit (hharmless hresult)
  | @block m t hresult =>
    intro m' o' ho' u hu
    have hwaits : c.Waits m' u := by
      rcases hu with hu | hu
      · by_cases hm : m' = m
        · subst hm
          rcases (by simpa [Content.enqueue] using hu : u ∈ c.queue m' ∨ u = t) with hu | rfl
          · exact Or.inl hu
          · exact Or.inr (hharmless hresult o' ho')
        · exact Or.inl (by simpa [Content.enqueue, hm] using hu)
      · exact Or.inr hu
    exact h m' o' ho' u hwaits
  | @takeOwner m hheld => exact h.takeOwner hraised hharmless
  | @notified m drop t rest urgent hperm | @popNext m n t rest urgent hperm =>
    refine h.mono rfl rfl fun m' u hu => ?_
    rcases hu with hu | hu
    · by_cases hm : m' = m
      · subst hm
        have hu : u ∈ rest := by simpa [Content.wake] using hu
        exact Or.inl (hperm.mem_iff.mpr (List.mem_cons_of_mem _ hu))
      · exact Or.inl (by simpa [Content.wake, Content.apply, hm] using hu)
    · exact Or.inr hu
  | @changePriority prio =>
    exact h.setPriority (fun m ho t ht => hharmless.1 m trivial ho t ht) hharmless.2

omit [DecidableEq M] in
theorem Raised.setPriority {o : τ} {prio : TaskPriority} (h : Raised c)
    (hprio : prio.effectivePriority ≤ prio.intrinsicPriority) : Raised (c.setPriority o prio) := by
  intro t
  by_cases ht : t = o
  · subst ht
    simpa [Content.effective, Content.setPriority] using hprio
  · simpa [Content.effective, Content.setPriority, ht] using h t

theorem Raised.step (h : Raised c) (hstep : Outcome C c b c' cs) : Raised c' := by
  cases hstep with
  | own _ | interrupt _ | isLocked _ | lost _ | acquired _ | nobody _ | block _ => exact h
  | isFree | afterTryLock | fastPath | waitUntil | condition | goOn | gotGuard | blocked | addNotify
  | swapNotifyCnt | popDone | pickNext | unlock | setOwner => exact h
  | notified _ _ | popNext _ _ => exact h
  | @slowPath m k hresult =>
    unfold Content.inherit
    split
    · rename_i o ho
      refine h.setPriority ?_
      rw [TaskPriority.effectivePriority_ceilPriorityFrom, TaskPriority.intrinsicPriority_ceilPriorityFrom]
      exact Nat.le_trans (Nat.min_le_left ..) (h o)
    · exact h
  | @takeOwner m hheld =>
    unfold Content.takeOwner
    split
    · rename_i o ho
      exact Raised.setPriority h (Nat.le_refl _)
    · exact h
  | @changePriority prio =>
    refine h.setPriority ?_
    unfold TaskPriority.changeIntrinsic
    split
    · exact Nat.le_refl _
    · split
      · exact Nat.le_of_lt ‹_›
      · exact Nat.le_refl _

-- ---------------------------------------------------------------------------
-- Runs
-- ---------------------------------------------------------------------------

variable {cur : τ} {prio : τ → Nat} {client : ρ} {tasks : τ → List (Call M κ γ)}
  {s s' : State M QueueOp (Body M κ γ η τ) (Content M ρ τ) τ}

theorem inherited_step {a : Action ι (Choice τ ξ)} (h : Inherited s.content ∧ Raised s.content)
    (hharmless : Harmless s a) (hstep : Exec.step (spec C) s a = some s') :
    Inherited s'.content ∧ Raised s'.content := by
  rcases step_takes hstep with ⟨x, b, k, c, cs, hb, hk, hexec, rfl⟩ | hcontrol
  · have hout := exec_outcome hexec
    exact ⟨h.1.step h.2 (hharmless b hb) hout, h.2.step hout⟩
  · rw [hcontrol.content_eq]
    exact h

/-- In every run of harmless steps, the owner of a mutex has at least the priority of every
task in its queue. Smaller numbers are higher priorities. -/
theorem exec_inherited {actions : List (Action ι (Choice τ ξ))}
    (hok : Run.Allowed (Exec.step (spec C)) Harmless
      (init (start cur (fun t => .intrinsic (prio t)) client) cur fun t => codes (tasks t)) actions)
    (hrun : Run.exec (Exec.step (spec C))
      (init (start cur (fun t => .intrinsic (prio t)) client) cur fun t => codes (tasks t)) actions =
        some s) {m : M} {o w : τ} (ho : s.content.owner m = some o) (hw : w ∈ s.content.queue m) :
    s.content.effective o ≤ s.content.effective w := by
  have hstart : Inherited (start (M := M) cur (fun t => .intrinsic (prio t)) client) ∧
      Raised (start (M := M) cur (fun t => .intrinsic (prio t)) client) :=
    ⟨fun m o ho => absurd ho (by simp [start]), fun t => Nat.le_refl _⟩
  have hinv := Run.exec_inv_of_allowed (fun s => Inherited s.content ∧ Raised s.content)
    inherited_step hstart hok hrun
  exact hinv.1 m o ho w (Or.inl hw)

section Decidable

variable [Fintype M] [Fintype τ]

instance (c : Content M ρ τ) (m : M) : Decidable (c.BoostHarmless m) :=
  inferInstanceAs (Decidable (∀ _, _ → ∀ _ _, _ → _ → _))

instance (c : Content M ρ τ) (o : τ) (prio : Nat) (held : M → Prop) [DecidablePred held] :
    Decidable (c.LowerHarmless o prio held) :=
  inferInstanceAs (Decidable (∀ _, _ → _ → ∀ _, _ → _))

instance (c : Content M ρ τ) : DecidablePred (Body.Harmless (κ := κ) (γ := γ) (η := η) c)
  | .afterFastPath m _ => inferInstanceAs (Decidable (_ → c.BoostHarmless m))
  | .block _ _ => inferInstanceAs (Decidable (_ → ∀ _, _ → _))
  | .setOwner m _ => inferInstanceAs (Decidable (∀ _ ∈ c.queue m, _))
  | .takeOwner m => inferInstanceAs (Decidable (∀ _, _ → c.LowerHarmless _ _ fun m' => m' ≠ m))
  | .changePriority _ => inferInstanceAs (Decidable (c.LowerHarmless c.cur _ _ ∧ ∀ _ _, _ → _ → _))
  | .own _ | .interrupt _ | .tryLock _ | .rawTryLock _ | .afterTryLock _ _ | .waitUntil _ _ | .condition _
  | .afterWait _ _ | .unlock _ _ | .popNotify _ _ | .addNotify _ _ | .swapNotifyCnt _ | .popNotified _ _
  | .pickNext => isTrue trivial

instance (s : State M QueueOp (Body M κ γ η τ) (Content M ρ τ) τ) (a : Action ι (Choice τ ξ)) :
    Decidable (Harmless s a) :=
  inferInstanceAs (Decidable (∀ b, b ∈ takes s a → b.Harmless s.content))

end Decidable

/-- The task that holds the mutex has the lower priority. -/
def lowHolds (t : Bool) : Nat := if t = true then 5 else 1

/-- A task with the priority 1 waits for one with the priority 5, which inherits. -/
theorem exec_inherited_oneMutex :
    ∃ s, Run.exec (Exec.step (spec oneMutex))
        (init (start true (fun t => .intrinsic (lowHolds t)) ()) true fun _ => codes [.lock () ()])
        (List.replicate 8 (go true) ++ [.pendsv] ++ List.replicate 17 (go false)) = some s ∧
      s.content.owner () = some true ∧ s.content.queue () = [false] ∧
      s.content.effective true ≤ s.content.effective false := by
  obtain ⟨s, hrun, ho, hq⟩ : ∃ s, Run.exec (Exec.step (spec oneMutex))
      (init (start true (fun t => .intrinsic (lowHolds t)) ()) true fun _ => codes [.lock () ()])
      (List.replicate 8 (go true) ++ [.pendsv] ++ List.replicate 17 (go false)) = some s ∧
      s.content.owner () = some true ∧ s.content.queue () = [false] := ⟨_, rfl, rfl, rfl⟩
  have hok : Run.Allowed (Exec.step (spec oneMutex)) Harmless
      (init (start true (fun t => .intrinsic (lowHolds t)) ()) true fun _ => codes [.lock () ()])
      (List.replicate 8 (go true) ++ [.pendsv] ++ List.replicate 17 (go false)) := by decide
  exact ⟨s, hrun, ho, hq, exec_inherited hok hrun ho (by simp [hq])⟩

/-- Two mutexes: a task takes both, lets the other task run, and drops the second guard. -/
def twoMutexes : Client Bool Nat Empty Empty Unit Unit Unit where
  some
    | 0 => [.lock true 1]
    | 1 => [.yield, .drop true]
    | _ => []
  none _ := []
  exec _ g _ := g.elim
  handler _ := []
  interrupt _ h _ := h.elim

/-- The first mutex is waited for with the priority 1, and the drop of the guard of the second
one takes the owner of both back to the priority 5. -/
theorem drop_loses_inheritance :
    ∃ s, Run.exec (Exec.step (spec twoMutexes))
        (init (start true (fun t => .intrinsic (lowHolds t)) ()) true fun t =>
          codes [.lock false (if t = true then 0 else 2)])
        (List.replicate 15 (go true) ++ [.pendsv] ++ List.replicate 18 (go false) ++ [.pendsv] ++
          List.replicate 3 (go true)) = some s ∧
      s.content.owner false = some true ∧ false ∈ s.content.queue false ∧
      ¬ s.content.effective true ≤ s.content.effective false := by
  have hrun : (Run.exec (Exec.step (spec twoMutexes))
      (init (start true (fun t => .intrinsic (lowHolds t)) ()) true fun t =>
        codes [.lock false (if t = true then 0 else 2)])
      (List.replicate 15 (go true) ++ [.pendsv] ++ List.replicate 18 (go false) ++ [.pendsv] ++
        List.replicate 3 (go true))).map (fun s => (s.content.owner false, s.content.queue false,
          s.content.effective true, s.content.effective false)) = some (some true, [false], 5, 1) := by
    rfl
  obtain ⟨s, hs, hfacts⟩ := Option.map_eq_some_iff.mp hrun
  simp only [Prod.mk.injEq] at hfacts
  obtain ⟨ho, hq, ht, hf⟩ := hfacts
  exact ⟨s, hs, ho, by simp [hq], by omega⟩

end Hopter.Sync.Mutex
