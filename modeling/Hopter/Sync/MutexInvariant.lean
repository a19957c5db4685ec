-- SUMMARY: The invariant of mutexes: one guard at a time, and no waiter sleeps on a free mutex.
import Hopter.Sync.Mutex

/-!
# The invariant of mutexes

A task goes into the queue because it has seen the spin lock taken. The guard that has
it will be dropped, and the drop notifies the queue after the release; a task that is
popped runs `try_lock` again, and then the spin lock is taken again, by this task or by
another one. So while the queue is not empty, the spin lock is taken, or a notification is
owed to the queue, or a task is on its way from the queue to `try_lock` (`Enough`).

A drop is code of a task, and finds the queue's soft lock free (`Grounded`). So its
notification is done when `notify_one_allow_isr` returns, and is never left to others.
-/

namespace Hopter.Sync.Mutex

open Exec Hopter.Task

variable {M κ γ η ρ τ ι ξ : Type} [DecidableEq M] [DecidableEq τ]

-- ---------------------------------------------------------------------------
-- What a step can do
-- ---------------------------------------------------------------------------

/-- Everything that a step can do. -/
inductive Outcome (C : Client M κ γ η ρ ι ξ) (c : Content M ρ τ) :
    Body M κ γ η τ → Content M ρ τ → List (Code M QueueOp (Body M κ γ η τ)) → Prop where
  | own {g x r calls} (h : C.exec c.client g x = some (r, calls)) :
    Outcome C c (.own g) { c with client := r } (codes calls)
  | interrupt {g x r calls} (h : C.interrupt c.client g x = some (r, calls)) :
    Outcome C c (.interrupt g) { c with client := r } (handlerCodes calls)
  | isLocked {m} (h : c.locked m = true) : Outcome C c (.tryLock m) (c.failed m) []
  | isFree {m} : Outcome C c (.tryLock m) c [.suspended (.rawTryLock m)]
  | lost {m} (h : c.locked m = true) : Outcome C c (.rawTryLock m) (c.failed m) []
  | acquired {m} (h : c.locked m = false) :
    Outcome C c (.rawTryLock m) (c.acquired m) [.body (.setOwner m c.cur)]
  | setOwner {m t} : Outcome C c (.setOwner m t)
      (((c.setOwner m (some t)).setStage m t .acquiring .held).setResult m t (some true)) []
  | afterTryLock {m k} {calls : List (Call M κ γ)} : Outcome C c (.afterTryLock m k) c (codes calls)
  | fastPath {m k} : Outcome C c (.afterFastPath m k) c (codes (C.some k))
  | slowPath {m k} (h : c.result m c.cur = some false) :
    Outcome C c (.afterFastPath m k) (c.inherit m) [.body (.waitUntil m k)]
  | waitUntil {m k} : Outcome C c (.waitUntil m k) c
      [.mayBlock, .access m true .waitUntil, .body (.afterWait m k)]
  | condition {m} : Outcome C c (.condition m) (c.setResult m c.cur none)
      [.body (.tryLock m), .body (.block m c.cur)]
  | goOn {m t} : Outcome C c (.block m t) c []
  | block {m t} (h : c.result m t = some false) : Outcome C c (.block m t) (c.enqueue m t) []
  | gotGuard {m k} : Outcome C c (.afterWait m k) c (codes (C.some k))
  | blocked {m k} : Outcome C c (.afterWait m k) c [.yield, .body (.waitUntil m k)]
  | takeOwner {m} (h : (c.cur, .held) ∈ c.guards m) : Outcome C c (.takeOwner m)
      ((c.takeOwner m).setStage m c.cur .held .releasing) [.body (.unlock m c.cur)]
  | unlock {m t} : Outcome C c (.unlock m t) (c.release m t) [.access m false (.notifyOne true)]
  | notified {m drop t rest} (urgent : Bool) (h : (c.queue m).Perm (t :: rest)) :
    Outcome C c (.popNotify m drop) ((c.apply m drop).wake m t rest urgent) []
  | nobody {m drop} (h : c.queue m = []) : Outcome C c (.popNotify m drop) (c.apply m drop) []
  | addNotify {m drop} : Outcome C c (.addNotify m drop)
      { c with notifyCnt := Function.update c.notifyCnt m (c.notifyCnt m + 1) } []
  | swapNotifyCnt {m} : Outcome C c (.swapNotifyCnt m)
      { c with notifyCnt := Function.update c.notifyCnt m 0 }
      [.body (.popNotified m (c.notifyCnt m))]
  | popDone {m n} : Outcome C c (.popNotified m n) c []
  | popNext {m n t rest} (urgent : Bool) (h : (c.queue m).Perm (t :: rest)) :
    Outcome C c (.popNotified m (n + 1)) (c.wake m t rest urgent) [.body (.popNotified m n)]
  | changePriority {prio} : Outcome C c (.changePriority prio)
      { c with priority := Function.update c.priority c.cur ((c.priority c.cur).changeIntrinsic prio) } []
  | pickNext {t} : Outcome C c .pickNext { c with cur := t, switchDue := false } []

variable {C : Client M κ γ η ρ ι ξ} {c c' : Content M ρ τ} {b : Body M κ γ η τ}
  {cs : List (Code M QueueOp (Body M κ γ η τ))}

theorem exec_outcome {x : Choice τ ξ} (h : exec C c b x = some (c', cs)) : Outcome C c b c' cs := by
  cases b with
  | own g =>
    simp only [exec, Option.map_eq_some_iff, Prod.mk.injEq] at h
    obtain ⟨⟨r, calls⟩, hexec, rfl, rfl⟩ := h
    exact .own hexec
  | interrupt g =>
    simp only [exec, Option.map_eq_some_iff, Prod.mk.injEq] at h
    obtain ⟨⟨r, calls⟩, hexec, rfl, rfl⟩ := h
    exact .interrupt hexec
  | tryLock m =>
    simp only [exec] at h
    split at h <;> simp only [Option.some.injEq, Prod.mk.injEq] at h <;> obtain ⟨rfl, rfl⟩ := h
    · exact .isLocked ‹_›
    · exact .isFree
  | rawTryLock m =>
    simp only [exec] at h
    split at h <;> simp only [Option.some.injEq, Prod.mk.injEq] at h <;> obtain ⟨rfl, rfl⟩ := h
    · exact .lost ‹_›
    · rename_i hfree
      exact .acquired (by simpa using hfree)
  | setOwner m t =>
    simp only [exec, Option.some.injEq, Prod.mk.injEq] at h
    obtain ⟨rfl, rfl⟩ := h
    exact .setOwner
  | afterTryLock m k =>
    simp only [exec, Option.map_eq_some_iff, Prod.mk.injEq] at h
    obtain ⟨r, -, rfl, rfl⟩ := h
    split <;> exact .afterTryLock
  | afterFastPath m k =>
    simp only [exec, Option.map_eq_some_iff] at h
    obtain ⟨r, hr, h⟩ := h
    split at h <;> obtain ⟨rfl, rfl⟩ := Prod.mk.inj h
    · exact .fastPath
    · rename_i hfalse
      exact .slowPath (by rw [hr]; simpa using hfalse)
  | waitUntil m k =>
    simp only [exec, Option.some.injEq, Prod.mk.injEq] at h
    obtain ⟨rfl, rfl⟩ := h
    exact .waitUntil
  | condition m =>
    simp only [exec, Option.some.injEq, Prod.mk.injEq] at h
    obtain ⟨rfl, rfl⟩ := h
    exact .condition
  | block m t =>
    simp only [exec, Option.bind_eq_some_iff] at h
    obtain ⟨r, hr, h⟩ := h
    split at h
    · simp only [Option.some.injEq, Prod.mk.injEq] at h
      obtain ⟨rfl, rfl⟩ := h
      exact .goOn
    · rename_i hfalse
      split at h
      · exact absurd h (by simp)
      · simp only [Option.some.injEq, Prod.mk.injEq] at h
        obtain ⟨rfl, rfl⟩ := h
        exact .block (by rw [hr]; simpa using hfalse)
  | afterWait m k =>
    simp only [exec, Option.map_eq_some_iff, Prod.mk.injEq] at h
    obtain ⟨r, -, rfl, rfl⟩ := h
    split
    · exact .gotGuard
    · exact .blocked
  | takeOwner m =>
    simp only [exec] at h
    split at h
    · simp only [Option.some.injEq, Prod.mk.injEq] at h
      obtain ⟨rfl, rfl⟩ := h
      exact .takeOwner ‹_›
    · exact absurd h (by simp)
  | unlock m t =>
    simp only [exec, Option.some.injEq, Prod.mk.injEq] at h
    obtain ⟨rfl, rfl⟩ := h
    exact .unlock
  | popNotify m drop =>
    simp only [exec, Content.pop] at h
    rcases popHighestPriority_cases (fun t => (c.priority t).effectivePriority) (c.queue m) with
      ⟨hq, hpop⟩ | ⟨t, rest, hpop, hperm⟩ <;>
      simp only [hpop, Option.some.injEq, Prod.mk.injEq] at h <;> obtain ⟨rfl, rfl⟩ := h
    · exact .nobody hq
    · exact .notified _ hperm
  | addNotify m drop =>
    simp only [exec, Option.some.injEq, Prod.mk.injEq] at h
    obtain ⟨rfl, rfl⟩ := h
    exact .addNotify
  | swapNotifyCnt m =>
    simp only [exec, Option.some.injEq, Prod.mk.injEq] at h
    obtain ⟨rfl, rfl⟩ := h
    exact .swapNotifyCnt
  | popNotified m n =>
    cases n with
    | zero =>
      simp only [exec, Option.some.injEq, Prod.mk.injEq] at h
      obtain ⟨rfl, rfl⟩ := h
      exact .popDone
    | succ n =>
      simp only [exec, Content.pop] at h
      rcases popHighestPriority_cases (fun t => (c.priority t).effectivePriority) (c.queue m) with
        ⟨hq, hpop⟩ | ⟨t, rest, hpop, hperm⟩ <;>
        simp only [hpop, Option.some.injEq, Prod.mk.injEq] at h <;> obtain ⟨rfl, rfl⟩ := h
      · exact .popDone
      · exact .popNext _ hperm
  | changePriority prio =>
    simp only [exec, Option.some.injEq, Prod.mk.injEq] at h
    obtain ⟨rfl, rfl⟩ := h
    exact .changePriority
  | pickNext =>
    simp only [exec] at h
    split at h
    · exact absurd h (by simp)
    · simp only [Option.some.injEq, Prod.mk.injEq] at h
      obtain ⟨rfl, rfl⟩ := h
      exact .pickNext

-- ---------------------------------------------------------------------------
-- Owners of steps, and code of tasks
-- ---------------------------------------------------------------------------

/-- The access that a step is part of. -/
def own : Body M κ γ η τ → Option (M × Access)
  | .condition m | .block m _ | .popNotify m _ | .swapNotifyCnt m | .popNotified m _ => some (m, .full)
  | .addNotify m _ => some (m, .pend)
  | _ => none

omit [DecidableEq M] [DecidableEq τ] in
/-- What holds of the code of every call holds of the code of a list of calls. -/
theorem forall_codes {P : Code M QueueOp (Body M κ γ η τ) → Prop}
    (h : ∀ call : Call M κ γ, ∀ c ∈ (call.code : List (Code M QueueOp (Body M κ γ η τ))), P c)
    (calls : List (Call M κ γ)) : ∀ c ∈ codes calls, P c := by
  intro c hc
  obtain ⟨call, -, hcall⟩ := List.mem_flatMap.mp hc
  exact h call c hcall

omit [DecidableEq M] [DecidableEq τ] in
theorem inner_codes (calls : List (Call M κ γ)) :
    ∀ c ∈ (codes calls : List (Code M QueueOp (Body M κ γ η τ))), (Instr.code c).inner own = false :=
  forall_codes (fun call => by cases call <;> simp [Call.code, Instr.inner, own]) calls

omit [DecidableEq M] [DecidableEq τ] in
theorem inner_handlerCodes (calls : List (HandlerCall M η)) :
    ∀ c ∈ (handlerCodes calls : List (Code M QueueOp (Body M κ γ η τ))),
      (Instr.code c).inner own = false := by
  intro c hc
  obtain ⟨call, -, rfl⟩ := List.mem_map.mp hc
  cases call <;> rfl

theorem discipline : Discipline own (spec (τ := τ) C) where
  full m op := by
    cases op with
    | waitUntil => exact atMostOne_singleton rfl
    | notifyOne drop => exact atMostOne_singleton rfl
  pended m := atMostOne_singleton rfl
  pend m op := by
    cases op with
    | waitUntil => exact atMostOne_nil m .pend
    | notifyOne drop => exact atMostOne_singleton rfl
  handler i := inner_handlerCodes _
  pickNext c hc := by
    obtain rfl := List.mem_singleton.mp hc
    rfl
  exec := by
    intro c b x c' cs hexec
    cases exec_outcome hexec with
    | own h => exact inner_codes _
    | interrupt h => exact inner_handlerCodes _
    | afterTryLock | fastPath | gotGuard => exact inner_codes _
    | isFree | waitUntil | blocked | unlock | setOwner | changePriority | pickNext =>
      simp [own, Instr.inner]
    | isLocked h | lost h | acquired h | takeOwner h | slowPath h => simp [own, Instr.inner]
    | @condition m =>
      have htry : ∀ d ∈ [(.body (.tryLock m) : Code M QueueOp (Body M κ γ η τ))],
          (Instr.code d).inner own = false := by simp [Instr.inner, own]
      exact atMostOne_concat htry rfl
    | swapNotifyCnt => exact atMostOne_singleton rfl
    | popNext urgent h => exact atMostOne_singleton rfl
    | goOn | popDone | addNotify => exact atMostOne_nil _ _
    | block h | nobody h => exact atMostOne_nil _ _
    | notified urgent h => exact atMostOne_nil _ _

/-- Code that only tasks run, outside of access closures. -/
def Body.ofTask : Body M κ γ η τ → Bool
  | .own _ | .afterTryLock _ _ | .afterFastPath _ _ | .waitUntil _ _ | .afterWait _ _ | .takeOwner _
  | .unlock _ _ => true
  | _ => false

def QueueOp.ofTask : QueueOp → Bool
  | .waitUntil | .notifyOne true => true
  | .notifyOne false => false

def ofTask : Instr M QueueOp (Body M κ γ η τ) → Bool
  | .code (.body b) | .code (.suspended b) => b.ofTask
  | .code (.access _ _ op) | .guard _ _ op => op.ofTask
  | _ => false

/-- Code of tasks needs that no access is in progress below it. -/
def need (i : Instr M QueueOp (Body M κ γ η τ)) (_ : M) : Prop := ofTask i = true

theorem rooted : Rooted own need (spec (τ := τ) C) where
  control i l hi := by
    cases i with
    | code c => cases c <;> simp_all [need, ofTask, Instr.isControl]
    | guard l must op => simp [Instr.isControl] at hi
    | _ => simp [need, ofTask]
  guard l must op l' h := h
  suspended b l h := h
  full l must op c hc l' h := by cases op <;> simp_all [spec, need, ofTask, Body.ofTask]
  pend l op c hc l' h := by cases op <;> simp_all [spec, need, ofTask, Body.ofTask]
  pended l c hc l' h := by simp_all [spec, need, ofTask, Body.ofTask]
  handler i c hc l' h := by
    obtain ⟨call, -, rfl⟩ := List.mem_map.mp hc
    cases call <;> simp [HandlerCall.code, need, ofTask, Body.ofTask, QueueOp.ofTask] at h
  exec := by
    intro c b x c' cs hexec d hd l h
    -- What a step that is not of a task goes on with is not of a task.
    cases exec_outcome hexec with
    | own _ => exact ⟨rfl, by simp [own]⟩
    | afterTryLock | fastPath | waitUntil | gotGuard | blocked | unlock => exact ⟨rfl, by simp [own]⟩
    | takeOwner _ | slowPath _ => exact ⟨rfl, by simp [own]⟩
    | interrupt _ =>
      obtain ⟨call, -, rfl⟩ := List.mem_map.mp hd
      cases call <;> simp [HandlerCall.code, need, ofTask, Body.ofTask, QueueOp.ofTask] at h
    | isFree | swapNotifyCnt => simp_all [need, ofTask, Body.ofTask]
    | condition =>
      rcases List.mem_pair.mp hd with rfl | rfl <;> simp [need, ofTask, Body.ofTask] at h
    | acquired _ => simp_all [need, ofTask, Body.ofTask]
    | popNext _ _ => simp_all [need, ofTask, Body.ofTask]
    | setOwner | goOn | addNotify | popDone | changePriority | pickNext => simp at hd
    | isLocked _ | lost _ | block _ | nobody _ => simp at hd
    | notified _ _ => simp at hd

-- ---------------------------------------------------------------------------
-- Guards
-- ---------------------------------------------------------------------------

/-- The spin lock and the guards of a mutex. -/
structure Guarded (c : Content M ρ τ) (m : M) : Prop where
  one : (c.locked m = false ∧ c.guards m = []) ∨ (c.locked m = true ∧ ∃ g, c.guards m = [g])
  owner : ∀ t, c.guards m = [(t, .held)] → c.owner m = some t

/-- While the queue is not empty, a waiter will be woken up or is already. -/
def Enough (c : Content M ρ τ) (m : M) : Prop :=
  c.locked m = true ∨ 0 < c.unapplied m ∨ c.awake m ≠ []

/-- What a step promises. -/
def Body.Ready (c : Content M ρ τ) : Body M κ γ η τ → Prop
  | .setOwner m t => c.guards m = [(t, .acquiring)]
  | .unlock m t => c.guards m = [(t, .releasing)]
  | .block m t => c.result m t = some false → Enough c m
  -- a drop finds the soft lock free
  | .addNotify _ true => False
  | _ => True

def Ready (c : Content M ρ τ) : Instr M QueueOp (Body M κ γ η τ) → Prop
  | .code (.body b) => b.Ready c
  | .code (.suspended b) => b.Ready c ∧ own b = none
  | _ => True

theorem Guarded.step {m : M} (h : Guarded c m) (hready : b.Ready c) (hstep : Outcome C c b c' cs) :
    Guarded c' m := by
  cases hstep with
  | own _ | interrupt _ | isLocked _ | lost _ | block _ | nobody _ => exact ⟨h.one, h.owner⟩
  | isFree | afterTryLock | fastPath | waitUntil | condition | goOn | gotGuard | blocked | addNotify
  | swapNotifyCnt | popDone | changePriority | pickNext => exact ⟨h.one, h.owner⟩
  | notified _ _ | popNext _ _ => exact ⟨h.one, h.owner⟩
  | @slowPath m' k _ =>
    unfold Content.inherit
    split <;> exact ⟨h.one, h.owner⟩
  | @acquired m' hfree =>
    by_cases hm : m = m'
    · subst hm
      have hnil : c.guards m = [] := by
        rcases h.one with ⟨-, hnil⟩ | ⟨hlocked, -⟩
        · exact hnil
        · simp [hfree] at hlocked
      refine ⟨Or.inr ⟨?_, (c.cur, .acquiring), ?_⟩, fun t ht => ?_⟩
      · simp [Content.acquired]
      · simp [Content.acquired, hnil]
      · simp [Content.acquired, hnil] at ht
    · refine ⟨?_, fun t ht => h.owner t ?_⟩
      · simpa [Content.acquired, hm] using h.one
      · simpa [Content.acquired, hm] using ht
  | @setOwner m' t =>
    by_cases hm : m = m'
    · subst hm
      have hguards : c.guards m = [(t, .acquiring)] := hready
      have hlocked : c.locked m = true := by
        rcases h.one with ⟨-, hnil⟩ | ⟨hlocked, -⟩
        · simp [hguards] at hnil
        · exact hlocked
      refine ⟨Or.inr ⟨hlocked, (t, .held), ?_⟩, fun u hu => ?_⟩
      · simp [Content.setResult, Content.setStage, Content.setOwner, hguards]
      · obtain rfl : t = u := by
          simpa [Content.setResult, Content.setStage, Content.setOwner, hguards] using hu
        simp [Content.setResult, Content.setStage, Content.setOwner]
    · refine ⟨?_, fun u hu => ?_⟩
      · simpa [Content.setResult, Content.setStage, Content.setOwner, hm] using h.one
      · have := h.owner u (by simpa [Content.setResult, Content.setStage, Content.setOwner, hm] using hu)
        simpa [Content.setResult, Content.setStage, Content.setOwner, hm] using this
  | @takeOwner m' hheld =>
    have hlocked : (c.takeOwner m').locked = c.locked := by
      unfold Content.takeOwner
      split <;> rfl
    have hguards : (c.takeOwner m').guards = c.guards := by
      unfold Content.takeOwner
      split <;> rfl
    have howner : ∀ n, n ≠ m' → (c.takeOwner m').owner n = c.owner n := by
      intro n hn
      unfold Content.takeOwner
      split
      · exact Function.update_of_ne hn ..
      · rfl
    by_cases hm : m = m'
    · subst hm
      have hone : c.guards m = [(c.cur, .held)] := by
        rcases h.one with ⟨-, hnil⟩ | ⟨-, g, hg⟩
        · simp [hnil] at hheld
        · rw [hg, List.mem_singleton] at hheld
          rw [hg, hheld]
      have hlock : c.locked m = true := by
        rcases h.one with ⟨-, hnil⟩ | ⟨hlock, -⟩
        · simp [hone] at hnil
        · exact hlock
      refine ⟨Or.inr ⟨?_, (c.cur, .releasing), ?_⟩, fun u hu => ?_⟩
      · simpa [Content.setStage, hlocked] using hlock
      · simp [Content.setStage, hguards, hone]
      · simp [Content.setStage, hguards, hone] at hu
    · refine ⟨?_, fun u hu => ?_⟩
      · simpa [Content.setStage, hlocked, hguards, hm] using h.one
      · have := h.owner u (by simpa [Content.setStage, hguards, hm] using hu)
        simpa [Content.setStage, howner m hm] using this
  | @unlock m' t =>
    by_cases hm : m = m'
    · subst hm
      have hguards : c.guards m = [(t, .releasing)] := hready
      refine ⟨Or.inl ⟨?_, ?_⟩, fun u hu => ?_⟩
      · simp [Content.release]
      · simp [Content.release, hguards]
      · simp [Content.release, hguards] at hu
    · refine ⟨?_, fun u hu => h.owner u ?_⟩
      · simpa [Content.release, hm] using h.one
      · simpa [Content.release, hm] using hu

-- ---------------------------------------------------------------------------
-- Wake-ups
-- ---------------------------------------------------------------------------

/-- Only a notification that finds nobody can use up what is owed to the queue. -/
theorem Enough.step {m : M} (h : Enough c m) (hstep : Outcome C c b c' cs)
    (hpop : ∀ drop, b = .popNotify m drop → c.queue m ≠ []) : Enough c' m := by
  cases hstep with
  | own _ | interrupt _ | block _ => exact h
  | isFree | afterTryLock | fastPath | waitUntil | condition | goOn | gotGuard | blocked | addNotify
  | swapNotifyCnt | popDone | changePriority | pickNext | setOwner => exact h
  | @isLocked m' hlocked | @lost m' hlocked =>
    by_cases hm : m = m'
    · subst hm
      exact Or.inl hlocked
    · simpa [Enough, Content.failed, Content.retried, Content.setResult, hm] using h
  | @acquired m' hfree =>
    by_cases hm : m = m'
    · subst hm
      exact Or.inl (by simp [Content.acquired])
    · simpa [Enough, Content.acquired, Content.retried, hm] using h
  | @slowPath m' k _ =>
    unfold Content.inherit
    split <;> exact h
  | @takeOwner m' hheld =>
    unfold Content.takeOwner
    split <;> exact h
  | @unlock m' t =>
    by_cases hm : m = m'
    · subst hm
      exact Or.inr (Or.inl (by simp [Content.release]))
    · simpa [Enough, Content.release, hm] using h
  | @notified m' drop t rest urgent hq =>
    by_cases hm : m = m'
    · subst hm
      exact Or.inr (Or.inr (by simp [Content.wake]))
    · simpa [Enough, Content.wake, Content.apply, hm] using h
  | @nobody m' drop hq =>
    by_cases hm : m = m'
    · subst hm
      exact absurd hq (hpop drop rfl)
    · simpa [Enough, Content.apply, hm] using h
  | @popNext m' n t rest urgent hq =>
    by_cases hm : m = m'
    · subst hm
      exact Or.inr (Or.inr (by simp [Content.wake]))
    · simpa [Enough, Content.wake, hm] using h

/-- No waiter is forgotten. -/
def NoLostWakeup (c : Content M ρ τ) (m : M) : Prop := c.queue m ≠ [] → Enough c m

/-- A queue only grows when a task blocks. -/
theorem Outcome.queue {m : M} (hstep : Outcome C c b c' cs) (hq : c'.queue m ≠ []) :
    c.queue m ≠ [] ∨ ∃ t, b = .block m t ∧ c.result m t = some false := by
  cases hstep with
  | own _ | interrupt _ | isLocked _ | lost _ | acquired _ | nobody _ => exact Or.inl hq
  | isFree | afterTryLock | fastPath | waitUntil | condition | goOn | gotGuard | blocked | addNotify
  | swapNotifyCnt | popDone | changePriority | pickNext | setOwner | unlock => exact Or.inl hq
  | @slowPath m' k _ =>
    unfold Content.inherit at hq
    split at hq <;> exact Or.inl hq
  | @takeOwner m' hheld =>
    unfold Content.takeOwner at hq
    split at hq <;> exact Or.inl hq
  | @block m' t hresult =>
    by_cases hm : m = m'
    · subst hm
      exact Or.inr ⟨t, rfl, hresult⟩
    · exact Or.inl (by simpa [Content.enqueue, hm] using hq)
  | @notified m' drop t rest urgent hperm | @popNext m' n t rest urgent hperm =>
    by_cases hm : m = m'
    · subst hm
      refine Or.inl fun hnil => ?_
      rw [hnil] at hperm
      exact absurd hperm.symm (by simp)
    · exact Or.inl (by simpa [Content.wake, Content.apply, hm] using hq)

theorem NoLostWakeup.step {m : M} (h : NoLostWakeup c m) (hready : b.Ready c)
    (hstep : Outcome C c b c' cs) : NoLostWakeup c' m := by
  intro hq
  have hpop : ∀ drop, b = .popNotify m drop → c.queue m ≠ [] := by
    rintro drop rfl
    rcases hstep.queue hq with hq' | ⟨t, hb, -⟩
    · exact hq'
    · cases hb
  rcases hstep.queue hq with hq' | ⟨t, rfl, hresult⟩
  · exact (h hq').step hstep hpop
  · exact Enough.step (hready hresult) hstep hpop

-- ---------------------------------------------------------------------------
-- What a step promises
-- ---------------------------------------------------------------------------

omit [DecidableEq M] [DecidableEq τ] in
theorem ready_codes (calls : List (Call M κ γ)) :
    ∀ d ∈ (codes calls : List (Code M QueueOp (Body M κ γ η τ))), Ready c (.code d) :=
  forall_codes (fun call => by cases call <;> simp [Call.code, Ready, Body.Ready]) calls

omit [DecidableEq M] [DecidableEq τ] in
theorem ready_handlerCodes (calls : List (HandlerCall M η)) :
    ∀ d ∈ (handlerCodes calls : List (Code M QueueOp (Body M κ γ η τ))), Ready c (.code d) := by
  intro d hd
  obtain ⟨call, -, rfl⟩ := List.mem_map.mp hd
  cases call <;> trivial

omit [DecidableEq M] [DecidableEq τ] in
theorem Guarded.eq_nil {m : M} (h : Guarded c m) (hfree : c.locked m = false) : c.guards m = [] := by
  rcases h.one with ⟨-, hnil⟩ | ⟨hlocked, -⟩
  · exact hnil
  · simp [hfree] at hlocked

omit [DecidableEq M] [DecidableEq τ] in
theorem Guarded.eq_singleton {m : M} {g : τ × Stage} (h : Guarded c m) (hg : g ∈ c.guards m) :
    c.guards m = [g] := by
  rcases h.one with ⟨-, hnil⟩ | ⟨-, g', hg'⟩
  · simp [hnil] at hg
  · rw [hg', List.mem_singleton] at hg
    rw [hg', hg]

/-- A step goes on with code that keeps its promises. -/
theorem Ready.next (hguarded : ∀ m, Guarded c m) (hstep : Outcome C c b c' cs) :
    ∀ d ∈ cs, Ready c' (.code d) := by
  cases hstep with
  | own _ => exact ready_codes _
  | interrupt _ => exact ready_handlerCodes _
  | afterTryLock | fastPath | gotGuard => exact ready_codes _
  | isFree | waitUntil | blocked | unlock | swapNotifyCnt => simp [Ready, Body.Ready, own]
  | slowPath _ => simp [Ready, Body.Ready]
  | popNext _ _ => simp [Ready, Body.Ready]
  | setOwner | goOn | addNotify | popDone | changePriority | pickNext => simp
  | isLocked _ | lost _ | block _ | nobody _ => simp
  | notified _ _ => simp
  | @acquired m hfree =>
    have hnil := (hguarded m).eq_nil hfree
    simp [Ready, Body.Ready, Content.acquired, hnil]
  | @condition m => simp [Ready, Body.Ready, Content.setResult]
  | @takeOwner m hheld =>
    have hguards : (c.takeOwner m).guards = c.guards := by
      unfold Content.takeOwner
      split <;> rfl
    simp [Ready, Body.Ready, Content.setStage, hguards, (hguarded m).eq_singleton hheld]

/-- The guards of a mutex change in four steps only. -/
theorem Outcome.guards {m : M} (hstep : Outcome C c b c' cs) :
    c'.guards m = c.guards m ∨ (b = .rawTryLock m ∧ c.locked m = false) ∨ (∃ t, b = .setOwner m t) ∨
      (b = .takeOwner m ∧ (c.cur, .held) ∈ c.guards m) ∨ ∃ t, b = .unlock m t := by
  cases hstep with
  | own _ | interrupt _ | isLocked _ | lost _ | block _ | nobody _ => exact Or.inl rfl
  | isFree | afterTryLock | fastPath | waitUntil | condition | goOn | gotGuard | blocked | addNotify
  | swapNotifyCnt | popDone | changePriority | pickNext => exact Or.inl rfl
  | notified _ _ | popNext _ _ => exact Or.inl rfl
  | @slowPath m' k _ =>
    unfold Content.inherit
    split <;> exact Or.inl rfl
  | @acquired m' hfree =>
    by_cases hm : m = m'
    · subst hm
      exact Or.inr (Or.inl ⟨rfl, hfree⟩)
    · exact Or.inl (by simp [Content.acquired, hm])
  | @setOwner m' t =>
    by_cases hm : m = m'
    · subst hm
      exact Or.inr (Or.inr (Or.inl ⟨t, rfl⟩))
    · exact Or.inl (by simp [Content.setResult, Content.setStage, Content.setOwner, hm])
  | @takeOwner m' hheld =>
    by_cases hm : m = m'
    · subst hm
      exact Or.inr (Or.inr (Or.inr (Or.inl ⟨rfl, hheld⟩)))
    · refine Or.inl ?_
      unfold Content.takeOwner
      split <;> simp [Content.setStage, Content.setOwner, hm]
  | @unlock m' t =>
    by_cases hm : m = m'
    · subst hm
      exact Or.inr (Or.inr (Or.inr (Or.inr ⟨t, rfl⟩)))
    · exact Or.inl (by simp [Content.release, hm])

/-- A failed `try_lock` has seen the spin lock taken. -/
theorem Outcome.result {m : M} {t : τ} (hstep : Outcome C c b c' cs) (h : c'.result m t = some false) :
    c.result m t = some false ∨ c'.locked m = true := by
  cases hstep with
  | own _ | interrupt _ | block _ | nobody _ | acquired _ => exact Or.inl h
  | isFree | afterTryLock | fastPath | waitUntil | goOn | gotGuard | blocked | addNotify
  | swapNotifyCnt | popDone | changePriority | pickNext | unlock => exact Or.inl h
  | notified _ _ | popNext _ _ => exact Or.inl h
  | @slowPath m' k _ =>
    unfold Content.inherit at h
    split at h <;> exact Or.inl h
  | @takeOwner m' hheld =>
    unfold Content.takeOwner at h
    split at h <;> exact Or.inl h
  | @isLocked m' hlocked | @lost m' hlocked =>
    by_cases hm : m = m'
    · subst hm
      exact Or.inr hlocked
    · exact Or.inl (by simpa [Content.failed, Content.retried, Content.setResult, hm] using h)
  | @condition m' =>
    by_cases hm : m = m'
    · subst hm
      by_cases ht : t = c.cur
      · subst ht
        simp [Content.setResult] at h
      · exact Or.inl (by simpa [Content.setResult, ht] using h)
    · exact Or.inl (by simpa [Content.setResult, hm] using h)
  | @setOwner m' u =>
    by_cases hm : m = m'
    · subst hm
      by_cases ht : t = u
      · subst ht
        simp [Content.setResult] at h
      · exact Or.inl (by simpa [Content.setResult, Content.setStage, Content.setOwner, ht] using h)
    · exact Or.inl (by simpa [Content.setResult, Content.setStage, Content.setOwner, hm] using h)

/-- A step keeps the promises of the other steps, when it is not one of a pair that excludes
each other. -/
theorem Body.Ready.keep {b' : Body M κ γ η τ} (hguarded : ∀ m, Guarded c m) (hready : b.Ready c)
    (hstep : Outcome C c b c' cs) (hset : ∀ m t t', b = .setOwner m t → b' ≠ .setOwner m t')
    (hunlock : ∀ m t t', b = .unlock m t → b' ≠ .unlock m t')
    (hblock : ∀ m t, b' = .block m t → Mutex.own b ≠ some (m, Access.full)) (h : b'.Ready c) : b'.Ready c' := by
  -- A guard in one of the two stages is not touched.
  have hguards : ∀ m t stage, c.guards m = [(t, stage)] → stage ≠ .held →
      (∀ t', b = .setOwner m t' → stage ≠ .acquiring) → (∀ t', b = .unlock m t' → stage ≠ .releasing) →
      c'.guards m = [(t, stage)] := by
    intro m t stage hg hheld hs hu
    rcases hstep.guards (m := m) with heq | ⟨-, hfree⟩ | ⟨t', rfl⟩ | ⟨-, hmem⟩ | ⟨t', rfl⟩
    · rw [heq, hg]
    · rw [(hguarded m).eq_nil hfree] at hg
      cases hg
    · have hacq : c.guards m = [(t', .acquiring)] := hready
      rw [hg] at hacq
      simp only [List.cons.injEq, Prod.mk.injEq, and_true] at hacq
      exact absurd hacq.2 (hs t' rfl)
    · rw [hg, List.mem_singleton] at hmem
      exact absurd (congrArg Prod.snd hmem).symm hheld
    · have hrel : c.guards m = [(t', .releasing)] := hready
      rw [hg] at hrel
      simp only [List.cons.injEq, Prod.mk.injEq, and_true] at hrel
      exact absurd hrel.2 (hu t' rfl)
  cases b' with
  | setOwner m t =>
    refine hguards m t .acquiring h (by simp) (fun t' hb => absurd rfl (hset m t' t hb)) (by simp)
  | unlock m t =>
    refine hguards m t .releasing h (by simp) (by simp) fun t' hb => absurd rfl (hunlock m t' t hb)
  | block m t =>
    intro hresult
    rcases hstep.result hresult with hold | hlocked
    · refine Enough.step (h hold) hstep fun drop hb => ?_
      subst hb
      exact absurd rfl (hblock m t rfl)
    · exact Or.inl hlocked
  | addNotify m drop =>
    cases drop with
    | false => trivial
    | true => exact h.elim
  | _ => trivial

theorem ready_hereditary : Hereditary { spec (τ := τ) C with pend := fun _ _ => [] } (Ready c) where
  control i hi := by
    cases i with
    | code d =>
      cases d with
      | body b | suspended b => exact absurd hi (by simp [Instr.isControl])
      | _ => trivial
    | _ => trivial
  guard m must op _ := trivial
  suspended b h := h.1
  full m must op _ := by cases op <;> simp [spec, Ready, Body.Ready]
  pend m must op _ := by simp
  pended m := by simp [spec, Ready, Body.Ready]
  handler i := ready_handlerCodes _
  pickNext := by simp [spec, Ready, Body.Ready]

-- ---------------------------------------------------------------------------
-- Steps on their way
-- ---------------------------------------------------------------------------

/-- The steps of a guard: `stage` is the stage that they end. -/
def Body.ends (m : M) (stage : Stage) : Body M κ γ η τ → Nat
  | .setOwner m' _ => if m' = m ∧ stage = .acquiring then 1 else 0
  | .unlock m' _ => if m' = m ∧ stage = .releasing then 1 else 0
  | _ => 0

def ends (m : M) (stage : Stage) : Instr M QueueOp (Body M κ γ η τ) → Nat
  | .code (.body b) | .code (.suspended b) => b.ends m stage
  | _ => 0

def Body.notifications (m : M) : Body M κ γ η τ → Nat
  | .popNotify m' drop | .addNotify m' drop => if m' = m then drop.toNat else 0
  | _ => 0

def QueueOp.notifications : QueueOp → Nat
  | .waitUntil => 0
  | .notifyOne drop => drop.toNat

/-- The notifications of the queue that drops are about to make. -/
def notifications (m : M) : Instr M QueueOp (Body M κ γ η τ) → Nat
  | .code (.body b) | .code (.suspended b) => b.notifications m
  | .code (.access m' _ op) | .guard m' _ op => if m' = m then op.notifications else 0
  | _ => 0

omit [DecidableEq M] [DecidableEq τ] in
/-- Code without weight. -/
theorem weigh_push_eq_zero {w : Instr M QueueOp (Body M κ γ η τ) → Nat}
    {cs : List (Code M QueueOp (Body M κ γ η τ))} (h : ∀ d ∈ cs, w (.code d) = 0) :
    weigh w (push cs []) = 0 :=
  weigh_eq_zero (forall_mem_push h (by simp))

omit [DecidableEq τ] in
theorem ends_codes (m : M) (stage : Stage) (calls : List (Call M κ γ)) :
    weigh (ends m stage) (push (codes calls : List (Code M QueueOp (Body M κ γ η τ))) []) = 0 :=
  weigh_push_eq_zero (forall_codes (fun call => by cases call <;> simp [Call.code, ends, Body.ends]) calls)

omit [DecidableEq τ] in
theorem ends_handlerCodes (m : M) (stage : Stage) (calls : List (HandlerCall M η)) :
    weigh (ends m stage) (push (handlerCodes calls : List (Code M QueueOp (Body M κ γ η τ))) []) = 0 := by
  refine weigh_push_eq_zero fun d hd => ?_
  obtain ⟨call, -, rfl⟩ := List.mem_map.mp hd
  cases call <;> rfl

omit [DecidableEq τ] in
theorem notifications_codes (m : M) (calls : List (Call M κ γ)) :
    weigh (notifications m) (push (codes calls : List (Code M QueueOp (Body M κ γ η τ))) []) = 0 :=
  weigh_push_eq_zero
    (forall_codes (fun call => by cases call <;> simp [Call.code, notifications, Body.notifications]) calls)

omit [DecidableEq τ] in
theorem notifications_handlerCodes (m : M) (calls : List (HandlerCall M η)) :
    weigh (notifications m)
      (push (handlerCodes calls : List (Code M QueueOp (Body M κ γ η τ))) []) = 0 := by
  refine weigh_push_eq_zero fun d hd => ?_
  obtain ⟨call, -, rfl⟩ := List.mem_map.mp hd
  cases call <;> simp [HandlerCall.code, notifications, Body.notifications, QueueOp.notifications]

theorem ends_balanced (m : M) (stage : Stage) : Balanced (ends m stage) (spec (τ := τ) C) where
  control i hi := by
    cases i with
    | code d => cases d <;> first | rfl | exact absurd hi (by simp [Instr.isControl])
    | _ => rfl
  guard m' must op := rfl
  suspended b := rfl
  full m' must op := by cases op <;> simp [spec, push, ends, Body.ends]
  pend m' op := by cases op <;> simp [spec, push, ends, Body.ends]
  pended m' := by simp [spec, push, ends, Body.ends]
  handler i := ends_handlerCodes m stage _
  pickNext := by simp [spec, push, ends, Body.ends]

theorem notifications_balanced (m : M) : Balanced (notifications m) (spec (τ := τ) C) where
  control i hi := by
    cases i with
    | code d => cases d <;> first | rfl | exact absurd hi (by simp [Instr.isControl])
    | guard m' must op => exact absurd hi (by simp [Instr.isControl])
    | _ => rfl
  guard m' must op := rfl
  suspended b := rfl
  full m' must op := by
    cases op <;> simp [spec, push, notifications, Body.notifications, QueueOp.notifications]
  pend m' op := by cases op <;> simp [spec, push, notifications, Body.notifications, QueueOp.notifications]
  pended m' := by simp [spec, push, notifications, Body.notifications]
  handler i := notifications_handlerCodes m _
  pickNext := by simp [spec, push, notifications, Body.notifications]

/-- The guards in a stage. -/
def Content.inStage (c : Content M ρ τ) (m : M) (stage : Stage) : Nat :=
  (c.guards m).countP fun g => g.2 = stage

/-- Every guard that is being made or dropped has one step on its way. -/
theorem Outcome.ends {m : M} {stage : Stage} (hguarded : ∀ m, Guarded c m) (hready : b.Ready c)
    (hstage : stage ≠ .held) (hstep : Outcome C c b c' cs) :
    c'.inStage m stage + b.ends m stage = c.inStage m stage + weigh (Mutex.ends m stage) (push cs []) := by
  cases hstep with
  | own _ => simp [Body.ends, Content.inStage, ends_codes]
  | interrupt _ => simp [Body.ends, Content.inStage, ends_handlerCodes]
  | afterTryLock | fastPath | gotGuard => simp [Body.ends, ends_codes]
  | isLocked _ | lost _ | block _ | nobody _ =>
    simp [Body.ends, push, Content.inStage, Content.failed, Content.retried, Content.setResult,
      Content.enqueue, Content.apply]
  | isFree | waitUntil | condition | goOn | blocked | addNotify | swapNotifyCnt | popDone | changePriority
  | pickNext => simp [Body.ends, Mutex.ends, push, Content.inStage, Content.setResult]
  | notified _ _ | popNext _ _ =>
    simp [Body.ends, Mutex.ends, push, Content.inStage, Content.wake, Content.apply]
  | @slowPath m' k _ =>
    have hguards : (c.inherit m').guards = c.guards := by
      unfold Content.inherit
      split <;> rfl
    simp [Body.ends, Mutex.ends, push, Content.inStage, hguards]
  | @acquired m' hfree =>
    by_cases hm : m' = m
    · subst hm
      have hnil := (hguarded m').eq_nil hfree
      cases stage <;> simp [Body.ends, Mutex.ends, push, Content.inStage, Content.acquired, hnil]
    · have hm' : m ≠ m' := fun h => hm h.symm
      simp [Body.ends, Mutex.ends, push, Content.inStage, Content.acquired, hm, hm']
  | @setOwner m' t =>
    by_cases hm : m' = m
    · subst hm
      have hguards : c.guards m' = [(t, .acquiring)] := hready
      cases stage <;> simp_all [Body.ends, push, Content.inStage, Content.setResult, Content.setStage,
        Content.setOwner]
    · have hm' : m ≠ m' := fun h => hm h.symm
      simp [Body.ends, push, Content.inStage, Content.setResult, Content.setStage, Content.setOwner, hm, hm']
  | @takeOwner m' hheld =>
    have htake : (c.takeOwner m').guards = c.guards := by
      unfold Content.takeOwner
      split <;> rfl
    by_cases hm : m' = m
    · subst hm
      have hguards := (hguarded m').eq_singleton hheld
      cases stage <;> simp_all [Body.ends, Mutex.ends, push, Content.inStage, Content.setStage]
    · have hm' : m ≠ m' := fun h => hm h.symm
      simp [Body.ends, Mutex.ends, push, Content.inStage, Content.setStage, htake, hm, hm']
  | @unlock m' t =>
    by_cases hm : m' = m
    · subst hm
      have hguards : c.guards m' = [(t, .releasing)] := hready
      cases stage <;> simp_all [Body.ends, Mutex.ends, push, Content.inStage, Content.release]
    · have hm' : m ≠ m' := fun h => hm h.symm
      simp [Body.ends, Mutex.ends, push, Content.inStage, Content.release, hm, hm']

/-- Every notification that a drop owes is on its way. -/
theorem Outcome.notifications {m : M} (hready : b.Ready c) (hstep : Outcome C c b c' cs)
    (hle : b.notifications m ≤ c.unapplied m) :
    c'.unapplied m + b.notifications m = c.unapplied m + weigh (Mutex.notifications m) (push cs []) := by
  cases hstep with
  | own _ => simp [Body.notifications, notifications_codes]
  | interrupt _ => simp [Body.notifications, notifications_handlerCodes]
  | afterTryLock | fastPath | gotGuard => simp [Body.notifications, notifications_codes]
  | isLocked _ | lost _ | block _ | acquired _ =>
    simp [Body.notifications, Mutex.notifications, push, Content.failed, Content.retried,
      Content.setResult, Content.enqueue, Content.acquired]
  | isFree | waitUntil | condition | goOn | blocked | swapNotifyCnt | popDone | changePriority
  | pickNext | setOwner =>
    simp [Body.notifications, Mutex.notifications, QueueOp.notifications, push, Content.setResult,
      Content.setStage, Content.setOwner]
  | @addNotify m' drop =>
    cases drop with
    | false => simp [Body.notifications, push]
    | true => exact hready.elim
  | popNext _ _ => simp [Body.notifications, Mutex.notifications, push, Content.wake]
  | @slowPath m' k _ =>
    unfold Content.inherit
    split <;> simp [Body.notifications, Mutex.notifications, push]
  | @takeOwner m' hheld =>
    unfold Content.takeOwner
    split <;> simp [Body.notifications, Mutex.notifications, push, Content.setStage, Content.setOwner]
  | @unlock m' t =>
    by_cases hm : m' = m
    · subst hm
      simp [Body.notifications, Mutex.notifications, QueueOp.notifications, push, Content.release]
    · have hm' : m ≠ m' := fun h => hm h.symm
      simp [Body.notifications, Mutex.notifications, push, Content.release, hm, hm']
  | @nobody m' drop _ | @notified m' drop _ _ _ _ =>
    by_cases hm : m' = m
    · subst hm
      simp only [Body.notifications, if_true] at hle
      simp only [Body.notifications, push, Content.apply, Content.wake, if_true, Function.update_self,
        List.map_nil, List.append_nil, weigh_nil]
      omega
    · have hm' : m ≠ m' := fun h => hm h.symm
      simp [Body.notifications, push, Content.apply, Content.wake, hm, hm']

-- ---------------------------------------------------------------------------
-- Runs
-- ---------------------------------------------------------------------------

/-- The invariant of the machine with mutexes. -/
structure Inv [Fintype τ] (s : State M QueueOp (Body M κ γ η τ) (Content M ρ τ) τ) : Prop where
  sound : Sound own s
  grounded : Grounded own need s.stack
  ready : Everywhere (Ready s.content) s
  guarded : ∀ m, Guarded s.content m
  wakeup : ∀ m, NoLostWakeup s.content m
  ends : ∀ m stage, stage ≠ .held → s.weight (Mutex.ends m stage) = s.content.inStage m stage
  notifications : ∀ m, s.weight (Mutex.notifications m) = s.content.unapplied m

variable [Fintype τ] {cur : τ} {priority : τ → TaskPriority} {client : ρ} {tasks : τ → List (Call M κ γ)}
  {s s' : State M QueueOp (Body M κ γ η τ) (Content M ρ τ) τ}

omit [DecidableEq τ] in
/-- A guard has at most one step on its way. -/
theorem Inv.ends_le (h : Inv s) {m : M} {stage : Stage} (hstage : stage ≠ .held) :
    s.weight (Mutex.ends m stage) ≤ 1 := by
  rw [h.ends m stage hstage, Content.inStage]
  refine Nat.le_trans List.countP_le_length ?_
  rcases (h.guarded m).one with ⟨-, hg⟩ | ⟨-, g, hg⟩ <;> simp [hg]

/-- A step of a task, of a handler or of an access closure. -/
theorem Inv.body {x : Choice τ ξ} {k : List (Instr M QueueOp (Body M κ γ η τ))} (h : Inv s)
    (hk : s.stack = .code (.body b) :: k) (hexec : exec C s.content b x = some (c, cs))
    (hsound : Sound own { s with content := c, stack := push cs k }) :
    Inv { s with content := c, stack := push cs k } := by
  have hout := exec_outcome hexec
  have hready : b.Ready s.content := h.ready.1 (.code (.body b)) (by rw [hk]; simp)
  refine ⟨hsound, h.grounded.body discipline rooted hk hexec, ?_, fun m => (h.guarded m).step hready hout,
    fun m => (h.wakeup m).step hready hout, fun m stage hstage => ?_, fun m => ?_⟩
  · refine h.ready.body hk (fun _ => Ready.next h.guarded hout) fun i hi hi' => ?_
    have hkeep : ∀ b', i = .code (.body b') ∨ i = .code (.suspended b') ∧ own b' = none →
        b'.Ready s.content → b'.Ready c := by
      intro b' hb' hready'
      refine Body.Ready.keep h.guarded hready hout ?_ ?_ ?_ hready'
      · rintro m t t' rfl rfl
        have hle := State.add_le_weight (w := Mutex.ends m .acquiring) hk hi
        have := h.ends_le (m := m) (show Stage.acquiring ≠ .held by simp)
        rcases hb' with rfl | ⟨rfl, -⟩ <;> simp [Mutex.ends, Body.ends] at hle <;> omega
      · rintro m t t' rfl rfl
        have hle := State.add_le_weight (w := Mutex.ends m .releasing) hk hi
        have := h.ends_le (m := m) (show Stage.releasing ≠ .held by simp)
        rcases hb' with rfl | ⟨rfl, -⟩ <;> simp [Mutex.ends, Body.ends] at hle <;> omega
      · rintro m t rfl hown
        rcases hb' with rfl | ⟨-, hnone⟩
        · exact h.sound.exclusive hk hown hi rfl
        · simp [own] at hnone
    cases i with
    | code d =>
      cases d with
      | body b' => exact hkeep b' (Or.inl rfl) hi'
      | suspended b' => exact ⟨hkeep b' (Or.inr ⟨rfl, hi'.2⟩) hi'.1, hi'.2⟩
      | _ => trivial
    | _ => trivial
  · have hw := State.weight_body (w := Mutex.ends m stage) hk c cs
    have hout' := hout.ends (m := m) h.guarded hready hstage
    have hends := h.ends m stage hstage
    simp only [Mutex.ends] at hw
    change _ = c.inStage m stage
    omega
  · have hw := State.weight_body (w := Mutex.notifications m) hk c cs
    have hnotify := h.notifications m
    have hle : b.notifications m ≤ s.content.unapplied m := by
      rw [← hnotify, State.weight, hk, weigh_cons]
      simp only [Mutex.notifications]
      omega
    have hout' := hout.notifications hready hle
    simp only [Mutex.notifications] at hw
    change _ = c.unapplied m
    omega

theorem Inv.control (h : Inv s) (hsound : Sound own s') (hstep : Control (spec C) s s') : Inv s' := by
  have hcontent := hstep.content_eq
  refine ⟨hsound, h.grounded.control discipline rooted h.sound hstep, ?_, hcontent ▸ h.guarded,
    hcontent ▸ h.wakeup, fun m stage hstage => ?_, fun m => ?_⟩
  · rw [hcontent]
    refine h.ready.control_of ready_hereditary (fun m op k hk hlocked _ => ?_) hstep
    cases op with
    | waitUntil => simp [spec]
    | notifyOne drop =>
      cases drop with
      | false => simp [spec, Ready, Body.Ready]
      | true => exact absurd (h.grounded.free h.sound hk rfl) hlocked
  · rw [hcontent, hstep.weight_eq (ends_balanced m stage) h.sound]
    exact h.ends m stage hstage
  · rw [hcontent, hstep.weight_eq (notifications_balanced m) h.sound]
    exact h.notifications m

theorem Inv.step {a : Action ι (Choice τ ξ)} (h : Inv s) (hstep : Exec.step (spec C) s a = some s') :
    Inv s' := by
  have hsound := h.sound.step discipline hstep
  rcases step_cases hstep with ⟨x, b, k, c, cs, hk, hexec, rfl⟩ | hcontrol
  · exact h.body hk hexec hsound
  · exact h.control hsound hcontrol

theorem start_inv : Inv (init (start cur priority client) cur fun t => codes (tasks t) :
    State M QueueOp (Body M κ γ η τ) (Content M ρ τ) τ) := by
  refine ⟨init_sound fun t => inner_codes _, Grounded.init fun t => inner_codes _,
    Everywhere.init fun t => ready_codes _, fun m => ⟨Or.inl ⟨rfl, rfl⟩, fun t ht => ?_⟩,
    fun m hq => absurd rfl hq, fun m stage _ => ?_, fun m => ?_⟩
  · simp [init, start] at ht
  · rw [State.weight_init fun t => ends_codes m stage _]
    rfl
  · rw [State.weight_init fun t => notifications_codes m _]
    rfl

/-- No drop of a guard is between the release of the spin lock and its notification. -/
def NoDrop (s : State M QueueOp (Body M κ γ η τ) (Content M ρ τ) τ) (m : M) : Prop :=
  (∀ i ∈ s.stack, notifications m i = 0) ∧ ∀ t, ∀ i ∈ s.saved t, notifications m i = 0

/-- What a mutex guarantees in every state. -/
structure MutexOk (s : State M QueueOp (Body M κ γ η τ) (Content M ρ τ) τ) (m : M) : Prop where
  exclusive : (s.content.guards m).length ≤ 1
  locked : s.content.guards m ≠ [] → s.content.locked m = true
  owner : ∀ t, (t, .held) ∈ s.content.guards m → s.content.owner m = some t
  /-- No waiter sleeps on a free mutex. -/
  wakeup : s.content.locked m = false → NoDrop s m → s.content.queue m ≠ [] → s.content.awake m ≠ []

omit [DecidableEq τ] in
theorem Inv.mutexOk (h : Inv s) (m : M) : MutexOk s m := by
  refine ⟨?_, fun hguards => ?_, fun t ht => (h.guarded m).owner t ((h.guarded m).eq_singleton ht),
    fun hfree hdrop hqueue => ?_⟩
  · rcases (h.guarded m).one with ⟨-, hg⟩ | ⟨-, g, hg⟩ <;> simp [hg]
  · rcases (h.guarded m).one with ⟨-, hg⟩ | ⟨hlocked, -⟩
    · exact absurd hg hguards
    · exact hlocked
  · have hzero : s.content.unapplied m = 0 := by
      rw [← h.notifications m]
      exact State.weight_eq_zero hdrop.1 hdrop.2
    rcases h.wakeup m hqueue with hlocked | howed | hawake
    · simp [hfree] at hlocked
    · omega
    · exact hawake

/-- A mutex has at most one guard, knows its owner and forgets no waiter, in every run,
whatever tasks do with any number of mutexes and whatever handlers notify. -/
theorem exec_mutexOk {actions : List (Action ι (Choice τ ξ))}
    (hrun : Run.exec (Exec.step (spec C))
      (init (start cur priority client) cur fun t => codes (tasks t)) actions = some s) (m : M) :
    MutexOk s m := by
  have hinv : Inv s := Run.exec_inv Inv (fun h hstep => h.step hstep) start_inv hrun
  exact hinv.mutexOk m

/-- One mutex: who has it lets the other task run, and then drops the guard. -/
def oneMutex : Client Unit Unit Empty Empty Unit Unit Unit where
  some _ := [.yield, .drop ()]
  none _ := []
  exec _ g _ := g.elim
  handler _ := [.notify ()]
  interrupt _ h _ := h.elim

/-- The current task goes on. When a task is to be chosen, it is `next`. -/
def go (next : Bool) : Action Unit (Choice Bool Unit) := .run ⟨next, false, ()⟩

/-- A task waits for the mutex that the other one has. -/
theorem exec_mutexOk_oneMutex :
    ∃ s, Run.exec (Exec.step (spec oneMutex))
        (init (start true (fun _ => .intrinsic 5) ()) true fun _ => codes [.lock () ()])
        (List.replicate 8 (go true) ++ [.pendsv] ++ List.replicate 17 (go false)) = some s ∧
      s.content.guards () = [(true, .held)] ∧ s.content.queue () = [false] ∧ MutexOk s () := by
  obtain ⟨s, hrun, hfacts⟩ : ∃ s, Run.exec (Exec.step (spec oneMutex))
      (init (start true (fun _ => .intrinsic 5) ()) true fun _ => codes [.lock () ()])
      (List.replicate 8 (go true) ++ [.pendsv] ++ List.replicate 17 (go false)) = some s ∧
      s.content.guards () = [(true, .held)] ∧ s.content.queue () = [false] := ⟨_, rfl, rfl, rfl⟩
  exact ⟨s, hrun, hfacts.1, hfacts.2, exec_mutexOk hrun ()⟩

end Hopter.Sync.Mutex
