-- SUMMARY: The wait queues of semaphores and mutexes implement the wait queue with deferred notifications.
import Hopter.Exec.Closures
import Hopter.Sync.DeferredOps
import Hopter.Sync.Mutex
import Hopter.Sync.Semaphore

/-!
# The wait queues of semaphores and mutexes

Semaphores and mutexes come with the wait queues of `src/sync/wait_queue.rs`. Each of these is the wait
queue of `Hopter.Sync.DeferredOps`, for as long as the priorities do not change. The scheduler is the
list of the tasks that are awake.
-/

-- ---------------------------------------------------------------------------
-- Semaphores
-- ---------------------------------------------------------------------------

namespace Hopter.Sync

open Exec Hopter.Task

section Semaphore

variable {S κ γ ρ τ ι ξ : Type} [DecidableEq S] [DecidableEq τ] {maxCount : S → Nat} {C : Client S κ γ ρ ι ξ}
  {priority : τ → Nat} {q : Queue S} {c c' : Content S ρ τ} {log : List (Queue S × QueueOp)}

/-- What the semaphore knows of its wait queue. The accesses to other locks do not matter, since there
are none. -/
def waitView (q : Queue S) (c : Content S ρ τ) (_ : List (Queue S × QueueOp)) : DeferredOps.WaitQueue τ (List τ) :=
  ⟨c.queue q, c.awake q⟩

def notifyOps : QueueOp → Option Unit
  | .waitUntil => none
  | .notifyOne => some ()

def waitPos (q : Queue S) : Body S κ γ τ → Option (Option (Option Nat))
  | .swapNotifyCnt q' => if q' = q then some (some none) else none
  | .popNotified q' cnt => if q' = q then some (some (some cnt)) else none
  | _ => none

/-- The task that was notified is awake. -/
def awaken (awake : List τ) (t : τ) : List τ := t :: awake

/-- `notify_one_allow_isr` with full access. -/
theorem runs_notifyOne (k : List (Queue S × QueueOp))
    (h : Runs (spec maxCount C) (fun _ _ x => x.priority = priority) (waitView q) c [.body (.popNotify q)] log c') :
    waitView q c' (k ++ log) = (waitView q c k).notifyOne priority awaken := by
  obtain ⟨c₁, x, c₂, ds, hview, hfits, hexec, hruns⟩ := h.of_body
  rw [← congrFun hview k]
  simp only [spec, exec, hfits] at hexec
  split at hexec
  · rename_i t rest hpop
    obtain ⟨rfl, rfl⟩ : _ = c₂ ∧ [] = ds := by simpa using hexec
    refine (congrFun hruns.of_nil.2 _).trans ?_
    simp [waitView, DeferredOps.WaitQueue.notifyOne, hpop, Content.wake, awaken]
  · rename_i hpop
    obtain ⟨rfl, rfl⟩ : _ = c₂ ∧ [] = ds := by simpa using hexec
    refine (congrFun hruns.of_nil.2 _).trans ?_
    simp [waitView, DeferredOps.WaitQueue.notifyOne, hpop, Content.apply]

/-- A step of `run_pended_op`. -/
theorem drains_notified {b : Body S κ γ τ} {d : Option (Option Nat)} {x : Choice τ ξ}
    {cs : List (Code (Queue S) QueueOp (Body S κ γ τ))} (hpos : waitPos q b = some d) (hfits : x.priority = priority)
    (hexec : exec maxCount C c b x = some (c', cs)) :
    Tidy (waitPos q) cs ∧ ∀ k, Relation.ReflTransGen (DeferredOps.waitQueue priority awaken).Drains
      (waitView q c k, c.notifyCnt q, d)
      (waitView q c' (k ++ accesses cs), c'.notifyCnt q, position (waitPos q) cs) := by
  unfold waitPos at hpos
  split at hpos
  · simp only [Option.ite_none_right_eq_some, Option.some.injEq] at hpos
    obtain ⟨rfl, rfl⟩ := hpos
    obtain ⟨rfl, rfl⟩ : _ = c' ∧ _ = cs := by simpa [exec] using hexec
    refine ⟨by simp [Tidy, waitPos], fun k => .single ⟨none, rfl, ?_⟩⟩
    simp [DeferredOps.waitQueue, waitView, position, waitPos]
  · rename_i cnt
    simp only [Option.ite_none_right_eq_some, Option.some.injEq] at hpos
    obtain ⟨rfl, rfl⟩ := hpos
    cases cnt with
    | zero =>
      obtain ⟨rfl, rfl⟩ : c = c' ∧ [] = cs := by simpa [exec] using hexec
      refine ⟨trivial, fun k => .single ⟨some 0, rfl, ?_⟩⟩
      simp [DeferredOps.waitQueue, waitView, position]
    | succ cnt =>
      simp only [exec, hfits] at hexec
      split at hexec
      · rename_i t rest hpop
        obtain ⟨rfl, rfl⟩ : _ = c' ∧ _ = cs := by simpa using hexec
        refine ⟨by simp [Tidy, waitPos], fun k => .single ⟨some (cnt + 1), rfl, ?_⟩⟩
        simp [DeferredOps.waitQueue, waitView, position, waitPos, hpop, Content.wake, awaken, Content.apply]
      · rename_i hpop
        obtain ⟨rfl, rfl⟩ : _ = c' ∧ [] = cs := by simpa using hexec
        refine ⟨trivial, fun k => .single ⟨some (cnt + 1), rfl, ?_⟩⟩
        simp [DeferredOps.waitQueue, waitView, position, hpop, Content.apply]
  · cases hpos

/-- A wait queue of a semaphore is the object. -/
theorem semaphore_implements : Implements (spec maxCount C) (fun _ _ x => x.priority = priority) q notifyOps
    (DeferredOps.waitQueue priority awaken) (waitView q) (fun c => c.notifyCnt q) (waitPos q) where
  direct := by
    intro op u c log c' hop hruns k
    cases op with
    | waitUntil => cases hop
    | notifyOne => exact runs_notifyOne k hruns
  pend := by
    intro op u c log c' hop hruns
    cases op with
    | waitUntil => cases hop
    | notifyOne =>
      obtain ⟨c₁, x, c₂, ds, hview, -, hexec, hruns⟩ := hruns.of_body
      obtain ⟨rfl, rfl⟩ : _ = c₂ ∧ [] = ds := by simpa [spec, exec] using hexec
      obtain ⟨rfl, hend⟩ := hruns.of_nil
      simp only [Prod.mk.injEq] at hview hend
      exact ⟨by simp [DeferredOps.waitQueue, hend.2, hview.2], fun k => congrFun (hend.1.trans hview.1) k⟩
  enter := ⟨_, rfl, by simp [waitPos, DeferredOps.waitQueue]⟩
  drain := drains_notified

end Semaphore

end Hopter.Sync

-- ---------------------------------------------------------------------------
-- Mutexes
-- ---------------------------------------------------------------------------

namespace Hopter.Sync.Mutex

open Exec Hopter.Task

section WaitQueue

variable {M κ γ η ρ τ ι ξ : Type} [DecidableEq M] [DecidableEq τ] {C : Client M κ γ η ρ ι ξ} {priority : τ → Nat}
  {m : M} {c c' : Content M ρ τ} {log : List (M × QueueOp)}

def waitView (m : M) (c : Content M ρ τ) (_ : List (M × QueueOp)) : DeferredOps.WaitQueue τ (List τ) :=
  ⟨c.queue m, c.awake m⟩

def notifyOps : QueueOp → Option Unit
  | .waitUntil => none
  | .notifyOne _ => some ()

def waitPos (m : M) : Body M κ γ η τ → Option (Option (Option Nat))
  | .swapNotifyCnt m' => if m' = m then some (some none) else none
  | .popNotified m' cnt => if m' = m then some (some (some cnt)) else none
  | _ => none

/-- The effective priorities are those of the object. -/
def WaitFits (priority : τ → Nat) (c : Content M ρ τ) (_ : Body M κ γ η τ) (_ : Choice τ ξ) : Prop :=
  (fun t => (c.priority t).effectivePriority) = priority

/-- `notify_one` with full access, for a lock that is dropped and for one that is not. -/
theorem runs_notifyOne {drop : Bool} (k : List (M × QueueOp))
    (h : Runs (spec C) (WaitFits priority) (waitView m) c [.body (.popNotify m drop)] log c') :
    waitView m c' (k ++ log) = (waitView m c k).notifyOne priority awaken := by
  obtain ⟨c₁, x, c₂, ds, hview, hfits, hexec, hruns⟩ := h.of_body
  rw [← congrFun hview k]
  have hprio : (fun t => (c₁.priority t).effectivePriority) = priority := hfits
  simp only [spec, exec, Content.pop, hprio] at hexec
  split at hexec
  · rename_i t rest hpop
    obtain ⟨rfl, rfl⟩ : _ = c₂ ∧ [] = ds := by simpa using hexec
    refine (congrFun hruns.of_nil.2 _).trans ?_
    simp [waitView, DeferredOps.WaitQueue.notifyOne, hpop, Content.wake, Content.apply, awaken]
  · rename_i hpop
    obtain ⟨rfl, rfl⟩ : _ = c₂ ∧ [] = ds := by simpa using hexec
    refine (congrFun hruns.of_nil.2 _).trans ?_
    simp [waitView, DeferredOps.WaitQueue.notifyOne, hpop, Content.apply]

/-- A step of `run_pended_op`. -/
theorem drains_notified {b : Body M κ γ η τ} {d : Option (Option Nat)} {x : Choice τ ξ}
    {cs : List (Code M QueueOp (Body M κ γ η τ))} (hpos : waitPos m b = some d) (hfits : WaitFits priority c b x)
    (hexec : exec C c b x = some (c', cs)) :
    Tidy (waitPos m) cs ∧ ∀ k, Relation.ReflTransGen (DeferredOps.waitQueue priority awaken).Drains
      (waitView m c k, c.notifyCnt m, d)
      (waitView m c' (k ++ accesses cs), c'.notifyCnt m, position (waitPos m) cs) := by
  unfold waitPos at hpos
  split at hpos
  · simp only [Option.ite_none_right_eq_some, Option.some.injEq] at hpos
    obtain ⟨rfl, rfl⟩ := hpos
    obtain ⟨rfl, rfl⟩ : _ = c' ∧ _ = cs := by simpa [exec] using hexec
    refine ⟨by simp [Tidy, waitPos], fun k => .single ⟨none, rfl, ?_⟩⟩
    simp [DeferredOps.waitQueue, waitView, position, waitPos]
  · rename_i cnt
    simp only [Option.ite_none_right_eq_some, Option.some.injEq] at hpos
    obtain ⟨rfl, rfl⟩ := hpos
    have hprio : (fun t => (c.priority t).effectivePriority) = priority := hfits
    cases cnt with
    | zero =>
      obtain ⟨rfl, rfl⟩ : c = c' ∧ [] = cs := by simpa [exec] using hexec
      refine ⟨trivial, fun k => .single ⟨some 0, rfl, ?_⟩⟩
      simp [DeferredOps.waitQueue, waitView, position]
    | succ cnt =>
      simp only [exec, Content.pop, hprio] at hexec
      split at hexec
      · rename_i t rest hpop
        obtain ⟨rfl, rfl⟩ : _ = c' ∧ _ = cs := by simpa using hexec
        refine ⟨by simp [Tidy, waitPos], fun k => .single ⟨some (cnt + 1), rfl, ?_⟩⟩
        simp [DeferredOps.waitQueue, waitView, position, waitPos, hpop, Content.wake, awaken]
      · rename_i hpop
        obtain ⟨rfl, rfl⟩ : c = c' ∧ [] = cs := by simpa using hexec
        refine ⟨trivial, fun k => .single ⟨some (cnt + 1), rfl, ?_⟩⟩
        simp [DeferredOps.waitQueue, waitView, position, hpop]
  · cases hpos

/-- A wait queue of a mutex is the object. -/
theorem waitQueue_implements : Implements (spec (τ := τ) C) (WaitFits priority) m notifyOps
    (DeferredOps.waitQueue priority awaken) (waitView m) (fun c => c.notifyCnt m) (waitPos m) where
  direct := by
    intro op u c log c' hop hruns k
    cases op with
    | waitUntil => cases hop
    | notifyOne drop => exact runs_notifyOne k hruns
  pend := by
    intro op u c log c' hop hruns
    cases op with
    | waitUntil => cases hop
    | notifyOne drop =>
      obtain ⟨c₁, x, c₂, ds, hview, -, hexec, hruns⟩ := hruns.of_body
      obtain ⟨rfl, rfl⟩ : _ = c₂ ∧ [] = ds := by simpa [spec, exec] using hexec
      obtain ⟨rfl, hend⟩ := hruns.of_nil
      simp only [Prod.mk.injEq] at hview hend
      exact ⟨by simp [DeferredOps.waitQueue, hend.2, hview.2], fun k => congrFun (hend.1.trans hview.1) k⟩
  enter := ⟨_, rfl, by simp [waitPos, DeferredOps.waitQueue]⟩
  drain := drains_notified

end WaitQueue

end Hopter.Sync.Mutex
