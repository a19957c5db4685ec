-- SUMMARY: Mutexes on the machine, at the level of single accesses, and in the release of a guard: the models agree.
import Hopter.Exec.Closures
import Hopter.Sync.Mutex
import Hopter.Sync.OwnerLock
import Hopter.Sync.Release

/-!
# The models of a mutex

`Hopter.Sync.Mutex` takes an access to the owner field as one step. `Hopter.Sync.OwnerLock` takes it
apart: when nothing comes in between, the accesses of a task add up to the step (`Shares.walk`).
`Hopter.Sync.Release` is the drop of a guard from its first statement to the last one, and that is
what the steps of the mutex do (`drop_releases`).
-/

-- ---------------------------------------------------------------------------
-- Single accesses
-- ---------------------------------------------------------------------------

namespace Hopter.Sync.OwnerLock

open Hopter.Task

variable {M τ : Type} [DecidableEq M] [DecidableEq τ] {s : State M τ} {m : M} {u : Use} {p q : Phase M}

namespace State

omit [DecidableEq M] in
@[simp] theorem phase_goto : (s.goto p).nest.top.phase = p := by simp [goto]

omit [DecidableEq M] in
@[simp] theorem goto_goto : (s.goto p).goto q = s.goto q := by simp [goto, Nest.setTop_setTop]

omit [DecidableEq M] in
theorem suspend_goto : (s.goto p).suspend = s.suspend.goto p := rfl

omit [DecidableEq M] in
theorem resume_goto : (s.goto p).resume = s.resume.goto p := rfl

omit [DecidableEq M] [DecidableEq τ] in
@[simp] theorem resume_suspend : s.suspend.resume = s := rfl

/-- What is done with the owner does not depend on where the context is, nor on the spin lock. -/
theorem useOwner_comm (n : Nat) (b : Bool) :
    ({ s with suspendCnt := n, ownerLocked := Function.update s.ownerLocked m b }.goto p).useOwner m u =
      { s.useOwner m u with suspendCnt := n, ownerLocked := Function.update s.ownerLocked m b }.goto p := by
  cases u with
  | withCurTask w =>
    cases w with
    | setOwner k => simp [useOwner, goto]
    | inherit =>
      simp only [useOwner, goto]
      cases s.owner m <;> simp
  | drop =>
    simp only [useOwner, goto]
    cases s.owner m <;> simp

/-- The context that runs goes on, and nothing comes in between. -/
abbrev Nexts (s s' : State M τ) : Prop := Relation.ReflTransGen (fun s s' => s.step .next = some s') s s'

theorem step_owner {stage : OwnerStage} (hdied : s.died = false) :
    (s.goto (.owner m u stage)).step .next = some ((s.goto (.owner m u stage)).runOwner m u stage) := by
  have hdied : (s.goto (.owner m u stage)).died = false := hdied
  simp [step, next, hdied]

/-- An access to the owner field, from the first check of its spin lock to the end. -/
theorem nexts_owner (hphase : s.nest.top.phase = .owner m u .isLocked) (hfree : s.ownerLocked m = false)
    (hdied : s.died = false) : s.Nexts ((s.useOwner m u).goto (afterOwner m u)) := by
  obtain ⟨-, howner, hsuspend, -, hdied'⟩ := s.useOwner_eq m u
  let locked : State M τ :=
    { s with suspendCnt := s.suspendCnt + 1, ownerLocked := Function.update s.ownerLocked m true }
  let used : State M τ :=
    { s.useOwner m u with suspendCnt := s.suspendCnt + 1, ownerLocked := Function.update s.ownerLocked m true }
  have hback : { used with ownerLocked := Function.update used.ownerLocked m false } = (s.useOwner m u).suspend := by
    simp [used, suspend, hsuspend, howner, ← hfree]
  have hcheck : s.step .next = some (s.goto (.owner m u .hold)) := by
    simp [step, next, hdied, hphase, runOwner, hfree]
  have hhold : (s.goto (.owner m u .hold)).step .next = some (s.suspend.goto (.owner m u .rawTryLock)) :=
    (step_owner hdied).trans (congrArg some (goto_goto (s := s.suspend)))
  have htake : (s.suspend.goto (.owner m u .rawTryLock)).step .next = some (locked.goto (.owner m u .access)) := by
    rw [step_owner (s := s.suspend) hdied, runOwner, if_neg (by simp [goto, suspend, hfree])]
    exact congrArg some (goto_goto (s := locked))
  have haccess : (locked.goto (.owner m u .access)).step .next = some (used.goto (.owner m u .unlock)) := by
    rw [step_owner (s := locked) hdied, runOwner, useOwner_comm]
    exact congrArg some goto_goto
  have hrelease :
      (used.goto (.owner m u .unlock)).step .next = some ((s.useOwner m u).suspend.goto (.owner m u .unhold)) := by
    rw [step_owner (s := used) (hdied'.trans hdied), runOwner, ← hback]
    exact congrArg some (goto_goto (s := { used with ownerLocked := Function.update used.ownerLocked m false }))
  have hend :
      ((s.useOwner m u).suspend.goto (.owner m u .unhold)).step .next =
        some ((s.useOwner m u).goto (afterOwner m u)) := by
    rw [step_owner (s := (s.useOwner m u).suspend) (hdied'.trans hdied), runOwner, resume_goto, goto_goto,
      resume_suspend]
  exact .head hcheck (.head hhold (.head htake (.head haccess (.head hrelease (.single hend)))))

end State

end Hopter.Sync.OwnerLock

namespace Hopter.Sync.Mutex

open Exec Hopter.Task

section OwnerLock

variable {M κ γ η ρ τ ι ξ : Type} [DecidableEq M] [DecidableEq τ] {C : Client M κ γ η ρ ι ξ} {c c' : Content M ρ τ}
  {b : Body M κ γ η τ} {x : Choice τ ξ} {cs : List (Code M QueueOp (Body M κ γ η τ))} {s : OwnerLock.State M τ}
  {p p' : OwnerLock.Phase M} {m : M}

/-- A task runs, and the two models have the same locks, owners and priorities. -/
structure Shares (c : Content M ρ τ) (s : OwnerLock.State M τ) : Prop where
  locked : s.locked = c.locked
  owner : s.owner = c.owner
  priority : s.priority = c.priority
  current : s.nest.current = c.cur
  handlers : s.nest.handlers = []
  ownerLocked : ∀ m, s.ownerLocked m = false
  died : s.died = false

/-- Where the task is in the calls before and after a step of the mutex. -/
inductive Walks (c : Content M ρ τ) : Body M κ γ η τ → OwnerLock.Phase M → OwnerLock.Phase M → Prop where
  | tryLock (m : M) (k : OwnerLock.Caller) :
    Walks c (.tryLock m) (.isLocked m k) (if c.locked m = true then k.failed m else .hold m k)
  | rawTryLock (m : M) (k : OwnerLock.Caller) :
    Walks c (.rawTryLock m) (.hold m k) (if c.locked m = true then k.failed m else .enter m (.setOwner k))
  | setOwner (m : M) (k : OwnerLock.Caller) :
    Walks c (.setOwner m c.cur) (.enter m (.setOwner k)) (k.acquired m)
  | inherit (m : M) (k : κ) (hresult : c.result m c.cur = some false) :
    Walks c (.afterFastPath m k) (.enter m .inherit) (.waitUntil m)
  | takeOwner (m : M) : Walks c (.takeOwner m) (.owner m .drop .isLocked) (.release m)
  | unlock (m : M) (t : τ) : Walks c (.unlock m t) (.release m) .idle

omit [DecidableEq M] in
theorem Shares.setTop {d : OwnerLock.Context M} {n : Nat} (h : Shares c s) :
    Shares c { s with suspendCnt := n, nest := s.nest.setTop d } :=
  ⟨h.locked, h.owner, h.priority, by simp [h.current], by simp [h.handlers], h.ownerLocked, h.died⟩

omit [DecidableEq M] in
theorem Shares.goto (h : Shares c s) : Shares c (s.goto p) := h.setTop

omit [DecidableEq M] [DecidableEq τ] in
theorem Shares.congr (h : Shares c s) (hlocked : c'.locked = c.locked) (howner : c'.owner = c.owner)
    (hpriority : c'.priority = c.priority) (hcur : c'.cur = c.cur) : Shares c' s :=
  ⟨h.locked.trans hlocked.symm, h.owner.trans howner.symm, h.priority.trans hpriority.symm,
    h.current.trans hcur.symm, h.handlers, h.ownerLocked, h.died⟩

theorem Shares.step_next (h : Shares c s) : s.step .next = s.next := by simp [OwnerLock.State.step, h.died]

omit [DecidableEq τ] in
/-- The spin lock is taken or released. -/
theorem Shares.setLocked (h : Shares c s) (b : Bool) :
    Shares { c with locked := Function.update c.locked m b } { s with locked := Function.update s.locked m b } :=
  ⟨by simp [h.locked], h.owner, h.priority, h.current, h.handlers, h.ownerLocked, h.died⟩

/-- The owner is recorded, lent a priority, or taken out of its field. -/
theorem Shares.setOwner (h : Shares c s) (k : OwnerLock.Caller) :
    Shares (c.setOwner m (some c.cur)) (s.useOwner m (.withCurTask (.setOwner k))) :=
  ⟨h.locked, by simp [OwnerLock.State.useOwner, Content.setOwner, h.owner, h.current], h.priority, h.current,
    h.handlers, h.ownerLocked, h.died⟩

theorem Shares.inherit (h : Shares c s) : Shares (c.inherit m) (s.useOwner m (.withCurTask .inherit)) := by
  simp only [OwnerLock.State.useOwner, Content.inherit, h.owner]
  cases howner : c.owner m with
  | none => exact h
  | some t =>
    exact ⟨h.locked, rfl, by simp [h.priority, h.current], h.current, h.handlers, h.ownerLocked, h.died⟩

theorem Shares.takeOwner (h : Shares c s) : Shares (c.takeOwner m) (s.useOwner m .drop) := by
  simp only [OwnerLock.State.useOwner, Content.takeOwner, h.owner]
  cases howner : c.owner m with
  | none => exact h
  | some t =>
    exact ⟨h.locked, by simp [Content.setOwner], by simp [h.priority], h.current, h.handlers, h.ownerLocked, h.died⟩

/-- `with_cur_task` around an access to the owner field. -/
theorem Shares.nexts_withCurTask {w : OwnerLock.CurUse} (h : Shares c s) (hphase : s.nest.top.phase = .enter m w)
    (huse : ∀ {s}, Shares c s → Shares c' (s.useOwner m (.withCurTask w))) :
    ∃ s', s.Nexts s' ∧ Shares c' s' ∧ s'.nest.top.phase = OwnerLock.State.afterCurTask m w := by
  have henter : s.step .next = some (s.suspend.goto (.owner m (.withCurTask w) .isLocked)) := by
    simp [h.step_next, OwnerLock.State.next, hphase]
  have hin : Shares c (s.suspend.goto (.owner m (.withCurTask w) .isLocked)) := h.setTop
  have hleave := (huse hin).goto (p := .leave m w)
  have hlast := hleave.step_next
  simp only [OwnerLock.State.next, OwnerLock.State.phase_goto] at hlast
  have hsection := OwnerLock.State.nexts_owner OwnerLock.State.phase_goto (hin.ownerLocked m) hin.died
  exact ⟨_, .head henter (hsection.tail hlast), hleave.setTop, OwnerLock.State.phase_goto⟩

/-- When nothing comes in between, the accesses of a task add up to the step of the mutex. -/
theorem Shares.walk (h : Shares c s) (hphase : s.nest.top.phase = p) (hwalk : Walks c b p p')
    (hexec : exec C c b x = some (c', cs)) :
    ∃ s', s.Nexts s' ∧ Shares c' s' ∧ s'.nest.top.phase = p' := by
  cases hwalk with
  | tryLock m k =>
    have hnext : s.step .next = some (s.goto (if c.locked m = true then k.failed m else .hold m k)) := by
      simp [h.step_next, OwnerLock.State.next, hphase, h.locked]
    refine ⟨_, .single hnext, ?_, OwnerLock.State.phase_goto⟩
    simp only [exec] at hexec
    split at hexec <;> obtain ⟨rfl, rfl⟩ := Prod.mk.inj (Option.some.inj hexec)
    · exact h.goto.congr rfl rfl rfl rfl
    · exact h.goto
  | rawTryLock m k =>
    have hhold : s.step .next = some (s.suspend.goto (.rawTryLock m k)) := by
      simp [h.step_next, OwnerLock.State.next, hphase]
    have hin : Shares c (s.suspend.goto (.rawTryLock m k)) := h.setTop
    have hnext := hin.step_next
    simp only [OwnerLock.State.next, OwnerLock.State.phase_goto] at hnext
    simp only [exec] at hexec
    have hsame : (s.suspend.goto (.rawTryLock m k)).locked m = c.locked m := congrFun hin.locked m
    by_cases hlocked : c.locked m = true
    · rw [if_pos (hsame.trans hlocked)] at hnext
      rw [if_pos hlocked] at hexec ⊢
      obtain ⟨rfl, rfl⟩ := Prod.mk.inj (Option.some.inj hexec)
      have hunhold := (hin.goto (p := .unhold m k)).step_next
      simp only [OwnerLock.State.next, OwnerLock.State.phase_goto] at hunhold
      exact ⟨_, .head hhold (.head hnext (.single hunhold)),
        (hin.goto (p := .unhold m k)).setTop.congr rfl rfl rfl rfl, OwnerLock.State.phase_goto⟩
    · rw [if_neg (hsame ▸ hlocked)] at hnext
      rw [if_neg hlocked] at hexec ⊢
      obtain ⟨rfl, rfl⟩ := Prod.mk.inj (Option.some.inj hexec)
      have hisr : (s.suspend.goto (.rawTryLock m k)).inIsr = false := by
        simp [OwnerLock.State.inIsr, hin.handlers]
      rw [hisr, if_neg Bool.false_ne_true] at hnext
      refine ⟨_, .head hhold (.single hnext), ?_, OwnerLock.State.phase_goto⟩
      exact (hin.setLocked (m := m) true).goto.congr rfl rfl rfl rfl
  | setOwner m k =>
    obtain ⟨rfl, rfl⟩ := Prod.mk.inj (Option.some.inj hexec)
    obtain ⟨s₁, hnexts, hshares, hphase₁⟩ := h.nexts_withCurTask hphase fun h => h.setOwner k
    have hlast := hshares.step_next
    simp only [OwnerLock.State.next, hphase₁, OwnerLock.State.afterCurTask] at hlast
    exact ⟨_, hnexts.tail hlast, hshares.setTop.congr rfl rfl rfl rfl, by simp⟩
  | inherit m k hresult =>
    simp only [exec, hresult, Option.map_some, Bool.false_eq_true, if_false] at hexec
    obtain ⟨rfl, rfl⟩ := Prod.mk.inj (Option.some.inj hexec)
    exact h.nexts_withCurTask hphase fun h => h.inherit
  | takeOwner m =>
    simp only [exec] at hexec
    split at hexec
    · obtain ⟨rfl, rfl⟩ := Prod.mk.inj (Option.some.inj hexec)
      exact ⟨_, OwnerLock.State.nexts_owner hphase (h.ownerLocked m) h.died, h.takeOwner.goto.congr rfl rfl rfl rfl,
        OwnerLock.State.phase_goto⟩
    · cases hexec
  | unlock m t =>
    obtain ⟨rfl, rfl⟩ := Prod.mk.inj (Option.some.inj hexec)
    have hnext := h.step_next
    simp only [OwnerLock.State.next, hphase] at hnext
    refine ⟨_, .single hnext, ?_, OwnerLock.State.phase_goto⟩
    exact (h.setLocked (m := m) false).goto.congr rfl rfl rfl rfl

end OwnerLock

-- ---------------------------------------------------------------------------
-- The drop of a guard
-- ---------------------------------------------------------------------------

section Release

variable {M κ γ η ρ τ ι ξ ν : Type} [DecidableEq M] [DecidableEq τ] [DecidableEq ν] {C : Client M κ γ η ρ ι ξ}
  {c c₁ c' : Content M ρ τ} {s : Release.State ν τ} {cfg : Release.Config} {m : M} {held : Bool}
  {log log' : List (M × QueueOp)}

/-- What the drop of a guard of the mutex reads and writes. -/
def releaseView (m : M) (c : Content M ρ τ) : Bool × Option τ × List τ × Nat × (τ → TaskPriority) × τ × Bool :=
  (c.locked m, c.owner m, c.queue m, c.notifyCnt m, c.priority, c.cur, c.switchDue)

/-- The two models have the same mutex. Another context has full access to the wait queue when
`held` says so, and nobody has full access to the ready queue. -/
structure Releases (m : M) (held : Bool) (c : Content M ρ τ) (s : Release.State ν τ) : Prop where
  view : releaseView m c = (s.locked, s.owner, s.queue, s.notifyCnt, s.priority, s.cur, s.pendingCtxtSwitch)
  ownerLocked : s.ownerLocked = false
  queueHeld : s.queueHeld = held
  readyHeld : s.readyHeld = false

omit [DecidableEq M] [DecidableEq τ] [DecidableEq ν] in
theorem Releases.congr (h : Releases m held c s) (hview : releaseView m c' = releaseView m c) :
    Releases m held c' s :=
  ⟨hview.trans h.view, h.ownerLocked, h.queueHeld, h.readyHeld⟩

omit [DecidableEq M] [DecidableEq τ] [DecidableEq ν] in
theorem Releases.resume (h : Releases m held c s) : Releases m held c s.resume := by
  unfold Release.State.resume
  dsimp only
  split <;> exact ⟨h.view, h.ownerLocked, h.queueHeld, h.readyHeld⟩

omit [DecidableEq ν] in
theorem Releases.takeOwner (h : Releases m held c s) :
    ∃ s', s.takeOwnerAndRestore = some s' ∧ Releases m held (c.takeOwner m) s' := by
  have hview := h.view
  simp only [releaseView, Prod.mk.injEq] at hview
  obtain ⟨hlocked, howner, hqueue, hcnt, hpriority, hcur, hdue⟩ := hview
  unfold Release.State.takeOwnerAndRestore Content.takeOwner
  rw [if_neg (by simp [h.ownerLocked]), ← howner]
  cases hmatch : c.owner m with
  | none =>
    refine ⟨_, rfl, Releases.resume ⟨?_, h.ownerLocked, h.queueHeld, h.readyHeld⟩⟩
    simp [releaseView, Release.State.suspend, hlocked, ← howner, hmatch, hqueue, hcnt, hpriority, hcur, hdue]
  | some t =>
    refine ⟨_, rfl, Releases.resume ⟨?_, h.ownerLocked, h.queueHeld, h.readyHeld⟩⟩
    simp [releaseView, Content.setOwner, Release.State.suspend, hlocked, hqueue, hcnt, hpriority, hcur, hdue]

omit [DecidableEq τ] [DecidableEq ν] in
/-- The notification is counted. -/
theorem Releases.count (h : Releases m true c s) : ∃ s', s.notifyOne cfg = some s' ∧
    Releases m true { c with notifyCnt := Function.update c.notifyCnt m (c.notifyCnt m + 1) } s' := by
  have hview := h.view
  simp only [releaseView, Prod.mk.injEq] at hview
  unfold Release.State.notifyOne
  dsimp only
  rw [if_pos (show s.suspend.queueHeld = true from h.queueHeld)]
  refine ⟨_, rfl, Releases.resume ⟨?_, h.ownerLocked, h.queueHeld, h.readyHeld⟩⟩
  simp [releaseView, Release.State.suspend, hview]

/-- Whether a task preempts the current one when it is woken up. -/
def Content.urgent (c : Content M ρ τ) (cfg : Release.Config) (t : τ) : Bool :=
  cfg.allowTaskPreemption && (c.priority t).effectivePriority < (c.priority c.cur).effectivePriority

omit [DecidableEq ν] in
/-- The task of the highest priority goes to the scheduler. -/
theorem Releases.pop (h : Releases m false c s) : ∃ s', s.notifyOne cfg = some s' ∧
    (c.pop m = none → Releases m false c s') ∧
      ∀ t rest, c.pop m = some (t, rest) → Releases m false (c.wake m t rest (c.urgent cfg t)) s' := by
  have hview := h.view
  simp only [releaseView, Prod.mk.injEq] at hview
  obtain ⟨hlocked, howner, hqueue, hcnt, hpriority, hcur, hdue⟩ := hview
  have hpop : popHighestPriority (fun t => (s.suspend.priority t).effectivePriority) s.suspend.queue = c.pop m := by
    simp [Content.pop, Release.State.suspend, hpriority, hqueue]
  unfold Release.State.notifyOne
  dsimp only
  rw [if_neg (by simp [Release.State.suspend, h.queueHeld]), hpop]
  cases hmatch : c.pop m with
  | none =>
    refine ⟨_, rfl, fun _ => Releases.resume ⟨h.view, h.ownerLocked, h.queueHeld, h.readyHeld⟩, ?_⟩
    rintro t rest ⟨⟩
  | some p =>
    obtain ⟨t, rest⟩ := p
    unfold Release.State.acceptTask
    dsimp only
    rw [if_neg (by simp [Release.State.suspend, h.readyHeld])]
    refine ⟨_, rfl, ?_, ?_⟩
    · rintro ⟨⟩
    · rintro t' rest' ⟨⟩
      apply Releases.resume
      apply Releases.resume
      refine ⟨?_, h.ownerLocked, h.queueHeld, h.readyHeld⟩
      have hurgent : c.urgent cfg t = s.shouldPreempt cfg t := by
        rw [Content.urgent, hpriority, hcur]
        rfl
      simp only [releaseView, Content.wake, hurgent, hlocked, howner, hcnt, hpriority, hcur, hdue,
        Function.update_self]
      rfl

/-- The steps of the mutex are the drop of a guard. -/
theorem drop_releases (h : Releases m held c s)
    (hdrop : Runs (spec C) (fun _ _ _ => True) (releaseView m) c [.body (.takeOwner m)] log c₁)
    (hnotify : Runs (spec C) (fun c _ x => ∀ t rest, c.pop m = some (t, rest) → x.urgent = c.urgent cfg t)
      (releaseView m) c₁
      (if held = true then (spec C).pend m (.notifyOne true) else (spec C).full m (.notifyOne true)) log' c') :
    log = [(m, .notifyOne true)] ∧ ∃ s', Release.dropMutexGuard cfg .nothing s = some s' ∧ Releases m held c' s' := by
  -- The owner is taken.
  obtain ⟨c₂, x, c₃, ds, hview₂, -, hexec, hruns⟩ := hdrop.of_body
  simp only [spec, exec] at hexec
  split at hexec
  · obtain ⟨rfl, rfl⟩ := Prod.mk.inj (Option.some.inj hexec)
    obtain ⟨s₁, hs₁, hreleases₁⟩ := (h.congr hview₂).takeOwner
    -- The spin lock is released.
    obtain ⟨c₄, y, c₅, ds, hview₄, -, hexec, hruns⟩ := hruns.of_body
    obtain ⟨rfl, rfl⟩ := Prod.mk.inj (Option.some.inj hexec)
    obtain ⟨c₆, rest, hview₆, rfl, hlast⟩ := hruns.of_access
    obtain ⟨rfl, hend⟩ := hlast.of_nil
    have hreleases₄ : Releases m held c₄ s₁ := hreleases₁.congr hview₄
    have hview := hreleases₄.view
    simp only [releaseView, Prod.mk.injEq] at hview
    let s₂ : Release.State ν τ := { s₁ with poisoned := s₁.poisoned || s₁.unwinding, locked := false }
    have hreleases₂ : Releases m held c₁ s₂ := by
      refine Releases.congr (c := c₄.release m c₂.cur) ⟨?_, hreleases₄.ownerLocked, hreleases₄.queueHeld,
        hreleases₄.readyHeld⟩ (hend.trans hview₆)
      simp [releaseView, Content.release, s₂, hview]
    have hdrop : Release.dropMutexGuard cfg .nothing s = s₂.notifyOne cfg := by
      simp [Release.dropMutexGuard, hs₁, Release.dropSpinGuard, Release.Holdable.dropGuard, s₂]
    refine ⟨rfl, ?_⟩
    rw [hdrop]
    cases held with
    | true =>
      obtain ⟨c₇, z, c₈, ds, hview₇, -, hexec, hnotify⟩ := hnotify.of_body
      obtain ⟨rfl, rfl⟩ := Prod.mk.inj (Option.some.inj hexec)
      obtain ⟨s₃, hs₃, hreleases₃⟩ := (hreleases₂.congr hview₇).count
      exact ⟨s₃, hs₃, hreleases₃.congr hnotify.of_nil.2⟩
    | false =>
      obtain ⟨c₇, z, c₈, ds, hview₇, hfits, hexec, hnotify⟩ := hnotify.of_body
      obtain ⟨s₃, hs₃, hnone, hsome⟩ := (hreleases₂.congr hview₇).pop
      refine ⟨s₃, hs₃, ?_⟩
      simp only [spec, exec] at hexec
      split at hexec
      · rename_i t rest hpop
        obtain ⟨rfl, rfl⟩ := Prod.mk.inj (Option.some.inj hexec)
        rw [hfits t rest hpop] at hnotify
        exact (hsome t rest hpop).congr hnotify.of_nil.2
      · rename_i hpop
        obtain ⟨rfl, rfl⟩ := Prod.mk.inj (Option.some.inj hexec)
        exact (hnone hpop).congr hnotify.of_nil.2
  · cases hexec

end Release

end Hopter.Sync.Mutex
