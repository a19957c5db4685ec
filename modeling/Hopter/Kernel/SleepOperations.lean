-- SUMMARY: The sleep queue of the kernel and the sleep queue without contention: each operation does the same.
import Hopter.Kernel.Objects
import Hopter.Time.SleepQueue

/-!
# The sleep queue of the kernel

`Hopter.Time.SleepQueue` takes the operations of the sleep queue as a whole, one after another. When
nothing interferes with them, the closures of the kernel do the same to the queue, and hand the same
tasks to the scheduler.
-/

namespace Hopter.Kernel

open Exec Hopter.Task Hopter.Time

variable {τ W B : Type} [DecidableEq τ] [DecidableEq W] [DecidableEq B] {C : Config} {c c' : Content τ W B}
  {s : SleepQueue τ} {t cur : τ} {log : Log τ W B} {queue buffer : List τ} {due : τ → Nat} {clock : Nat}

/-- What the operations of the sleep queue read and write. -/
def sleepView (c : Content τ W B) : List τ × List τ × (τ → Nat) × Nat × τ :=
  (c.timeSortedQueue, c.deleteBuffer, c.due, c.clock, c.cur)

/-- The tasks go to the scheduler, one after another. -/
def acceptAll (ts : List τ) : Log τ W B := ts.map fun t => (.ready, .acceptTask t)

omit [DecidableEq τ] [DecidableEq W] [DecidableEq B] in
theorem sleepView_eq : sleepView c = (queue, buffer, due, clock, cur) ↔ c.timeSortedQueue = queue ∧
    c.deleteBuffer = buffer ∧ c.due = due ∧ c.clock = clock ∧ c.cur = cur := by
  simp [sleepView]

/-- A closure of the sleep queue without interference. -/
abbrev SleepRuns (C : Config) (c : Content τ W B) (cs : List (KCode τ W B)) (log : Log τ W B)
    (c' : Content τ W B) : Prop :=
  Runs (spec C) (fun _ _ _ => True) sleepView c cs log c'

/-- The end of `wake_expired_tasks`, and of `run_pended_op` when it is part of that. -/
theorem runs_endWake {now : Nat} {pended : Bool} (h : SleepRuns C c [.body (.endWake now pended)] log c') :
    log = [] ∧ sleepView c' = sleepView c := by
  obtain ⟨c₁, x, c₂, ds, hview₁, -, hexec, hruns⟩ := h.of_body
  obtain ⟨rfl, rfl⟩ := Prod.mk.inj (Option.some.inj hexec)
  cases pended with
  | false =>
    obtain ⟨hlog, hend⟩ := hruns.of_nil
    exact ⟨hlog, hend.trans hview₁⟩
  | true =>
    obtain ⟨c₃, y, c₄, ds, hview₃, -, hexec, hruns⟩ := hruns.of_body
    obtain ⟨rfl, rfl⟩ := Prod.mk.inj (Option.some.inj hexec)
    obtain ⟨hlog, hend⟩ := hruns.of_nil
    exact ⟨hlog, hend.trans (hview₃.trans hview₁)⟩

/-- The second loop of `wake_expired_tasks`. -/
theorem runs_deleteLoop {now : Nat} {pended : Bool} (hview : sleepView c = (queue, buffer, due, clock, cur))
    (h : SleepRuns C c [.body (.deleteLoop now pended)] log c') :
    log = acceptAll (SleepQueue.drainDeleteBuffer buffer queue).1 ∧
      sleepView c' = ((SleepQueue.drainDeleteBuffer buffer queue).2, [], due, clock, cur) := by
  induction buffer generalizing c log queue with
  | nil =>
    obtain ⟨c₁, x, c₂, ds, hview₁, -, hexec, hruns⟩ := h.of_body
    obtain ⟨-, hbuffer, -⟩ := sleepView_eq.mp (hview₁.trans hview)
    obtain ⟨rfl, rfl⟩ : c₁ = c₂ ∧ _ = ds := by simpa [spec, exec, hbuffer] using hexec
    obtain ⟨rfl, hend⟩ := runs_endWake hruns
    exact ⟨rfl, hend.trans (hview₁.trans hview)⟩
  | cons t ts ih =>
    obtain ⟨c₁, x, c₂, ds, hview₁, -, hexec, hruns⟩ := h.of_body
    obtain ⟨hqueue, hbuffer, hdue, hclock, hcur⟩ := sleepView_eq.mp (hview₁.trans hview)
    simp only [spec, exec, hbuffer, hqueue] at hexec
    simp only [SleepQueue.drainDeleteBuffer]
    cases hremove : removeTask t queue with
    | some queue' =>
      simp only [hremove, Option.some.injEq, Prod.mk.injEq] at hexec
      obtain ⟨rfl, rfl⟩ := hexec
      obtain ⟨c₃, rest, hview₃, rfl, hlast⟩ := hruns.of_access
      obtain ⟨rfl, hend⟩ := ih (hview₃.trans (sleepView_eq.mpr ⟨rfl, rfl, hdue, hclock, hcur⟩)) hlast
      exact ⟨rfl, hend⟩
    | none =>
      simp only [hremove, Option.some.injEq, Prod.mk.injEq] at hexec
      obtain ⟨rfl, rfl⟩ := hexec
      refine ih ?_ hruns
      exact sleepView_eq.mpr ⟨rfl, rfl, hdue, hclock, hcur⟩

/-- The first loop. -/
theorem runs_wakeLoop {now : Nat} {pended : Bool} (hview : sleepView c = (queue, buffer, due, clock, cur))
    (h : SleepRuns C c [.body (.wakeLoop now pended)] log c') :
    let expired t := tickCmp (Tick.of (due t)) (Tick.of now) != .gt
    let drained := SleepQueue.drainDeleteBuffer buffer (queue.dropWhile expired)
    log = acceptAll (queue.takeWhile expired ++ drained.1) ∧ sleepView c' = (drained.2, [], due, clock, cur) := by
  induction queue generalizing c log with
  | nil =>
    obtain ⟨c₁, x, c₂, ds, hview₁, -, hexec, hruns⟩ := h.of_body
    obtain ⟨hqueue, -⟩ := sleepView_eq.mp (hview₁.trans hview)
    obtain ⟨rfl, rfl⟩ : c₁ = c₂ ∧ _ = ds := by simpa [spec, exec, hqueue] using hexec
    exact runs_deleteLoop (hview₁.trans hview) hruns
  | cons t ts ih =>
    obtain ⟨c₁, x, c₂, ds, hview₁, -, hexec, hruns⟩ := h.of_body
    obtain ⟨hqueue, hbuffer, hdue, hclock, hcur⟩ := sleepView_eq.mp (hview₁.trans hview)
    simp only [spec, exec, hqueue, Content.expired, hdue] at hexec
    cases hexpired : tickCmp (Tick.of (due t)) (Tick.of now) != .gt with
    | true =>
      rw [if_pos hexpired] at hexec
      obtain ⟨rfl, rfl⟩ := Option.some.inj hexec |> Prod.mk.inj
      obtain ⟨c₃, rest, hview₃, rfl, hlast⟩ := hruns.of_access
      obtain ⟨rfl, hend⟩ := ih (hview₃.trans (sleepView_eq.mpr ⟨rfl, hbuffer, hdue, hclock, hcur⟩)) hlast
      simp only [List.takeWhile_cons, List.dropWhile_cons, hexpired, if_true]
      exact ⟨rfl, hend⟩
    | false =>
      rw [hexpired, if_neg (by decide)] at hexec
      obtain ⟨rfl, rfl⟩ := Option.some.inj hexec |> Prod.mk.inj
      simp only [List.takeWhile_cons, List.dropWhile_cons, hexpired, Bool.false_eq_true, if_false, List.nil_append]
      exact runs_deleteLoop (hview₁.trans hview) hruns

-- ---------------------------------------------------------------------------
-- Operations
-- ---------------------------------------------------------------------------

/-- The kernel has the sleep queue `s`. -/
structure SleepsAs (c : Content τ W B) (s : SleepQueue τ) : Prop where
  timeSortedQueue : c.timeSortedQueue = s.timeSortedQueue
  deleteBuffer : c.deleteBuffer = s.deleteBuffer
  wakeAtTick : s.wakeAtTick = fun t => Tick.of (c.due t)
  clock : c.clock = s.clock

omit [DecidableEq τ] [DecidableEq W] [DecidableEq B] in
theorem SleepsAs.view (h : SleepsAs c s) :
    sleepView c = (s.timeSortedQueue, s.deleteBuffer, c.due, s.clock, c.cur) :=
  sleepView_eq.mpr ⟨h.timeSortedQueue, h.deleteBuffer, rfl, h.clock, rfl⟩

omit [DecidableEq τ] [DecidableEq W] [DecidableEq B] in
theorem SleepsAs.of_view (hview : sleepView c = (s.timeSortedQueue, s.deleteBuffer, due, s.clock, cur))
    (hticks : s.wakeAtTick = fun t => Tick.of (due t)) : SleepsAs c s := by
  obtain ⟨hqueue, hbuffer, rfl, hclock, -⟩ := sleepView_eq.mp hview
  exact ⟨hqueue, hbuffer, hticks, hclock⟩

/-- `advance_tick`. -/
theorem SleepsAs.advanceTick {cs : List (KCode τ W B)} {x : Choice τ W B} (h : SleepsAs c s)
    (hexec : exec C c .advanceTick x = some (c', cs)) : SleepsAs c' s.advanceTick := by
  obtain ⟨rfl, rfl⟩ := Option.some.inj hexec |> Prod.mk.inj
  exact ⟨h.timeSortedQueue, h.deleteBuffer, h.wakeAtTick, congrArg (· + 1) h.clock⟩

/-- `wake_expired_tasks`: the tasks that go to the scheduler are those of the calls that are accepted. -/
theorem SleepsAs.loadTicks {pended : Bool} (h : SleepsAs c s)
    (hruns : SleepRuns C c [.body (.loadTicks pended)] log c') :
    SleepsAs c' s.wakeExpiredTasks ∧ ∃ ts, log = acceptAll ts ∧
      s.wakeExpiredTasks.accepted.map Accepted.call = s.accepted.map Accepted.call ++ ts.map s.callOf := by
  obtain ⟨c₁, x, c₂, ds, hview₁, -, hexec, hruns⟩ := hruns.of_body
  simp only [spec, exec, Option.map_eq_some_iff, Content.lockNowOrDie_eq, Prod.mk.injEq] at hexec
  obtain ⟨_, ⟨-, rfl⟩, rfl, rfl⟩ := hexec
  have hview := hview₁.trans h.view
  obtain ⟨hlog, hend⟩ := runs_wakeLoop (c := c₁.setSpin .sleep true) hview hruns
  have hclock : c₁.clock = s.clock := (sleepView_eq.mp hview).2.2.2.1
  have hexpired : (fun t => tickCmp (Tick.of (c.due t)) (Tick.of c₁.clock) != .gt) = s.expired := by
    funext t
    rw [SleepQueue.expired, h.wakeAtTick, SleepQueue.ticks, hclock]
  rw [hexpired] at hlog hend
  refine ⟨.of_view hend h.wakeAtTick, _, hlog, ?_⟩
  simp [SleepQueue.wakeExpiredTasks, Accepted.call, Function.comp_def]

/-- `wake_sleeping_tasks` with full access. -/
theorem SleepsAs.wakeExpiredTasks (h : SleepsAs c s)
    (hruns : SleepRuns C c (fullAccess .sleep .wakeSleepingTasks) log c') :
    SleepsAs c' s.wakeExpiredTasks ∧ ∃ ts, log = acceptAll ts ∧
      s.wakeExpiredTasks.accepted.map Accepted.call = s.accepted.map Accepted.call ++ ts.map s.callOf :=
  h.loadTicks hruns

/-- `run_pended_op` wakes the tasks up when a SysTick has asked for it. -/
theorem SleepsAs.runPendedOp (h : SleepsAs c s) (hruns : SleepRuns C c (runPendedOp .sleep) log c') :
    log = [] ∧ SleepsAs c' s ∨ SleepsAs c' s.wakeExpiredTasks ∧ ∃ ts, log = acceptAll ts ∧
      s.wakeExpiredTasks.accepted.map Accepted.call = s.accepted.map Accepted.call ++ ts.map s.callOf := by
  obtain ⟨c₁, x, c₂, ds, hview₁, -, hexec, hruns⟩ := hruns.of_body
  obtain ⟨rfl, rfl⟩ := Prod.mk.inj (Option.some.inj hexec)
  have h₁ : SleepsAs c₁ s := .of_view (hview₁.trans h.view) h.wakeAtTick
  split at hruns
  · exact Or.inr (h₁.loadTicks hruns)
  · obtain ⟨hlog, hend⟩ := hruns.of_nil
    exact Or.inl ⟨hlog, .of_view (hend.trans h₁.view) h₁.wakeAtTick⟩

/-- `remove_task_from_sleep_queue_allow_isr` with full access. -/
theorem SleepsAs.removeTask (h : SleepsAs c s) (hruns : SleepRuns C c (fullAccess .sleep (.removeTask t)) log c') :
    SleepsAs c' (s.removeTaskFromSleepQueue t) ∧ ∃ ts, log = acceptAll ts ∧
      (s.removeTaskFromSleepQueue t).accepted.map Accepted.call =
        s.accepted.map Accepted.call ++ ts.map s.callOf := by
  obtain ⟨c₁, x, c₂, ds, hview₁, -, hexec, hruns⟩ := hruns.of_body
  simp only [spec, exec, Option.map_eq_some_iff, Content.lockNowOrDie_eq] at hexec
  obtain ⟨_, ⟨-, rfl⟩, hexec⟩ := hexec
  obtain ⟨hqueue, hbuffer, hdue, hclock, hcur⟩ := sleepView_eq.mp (hview₁.trans h.view)
  simp only [Content.setSpin, hqueue] at hexec
  unfold SleepQueue.removeTaskFromSleepQueue
  cases hremove : Task.removeTask t s.timeSortedQueue with
  | some queue =>
    simp only [hremove, Prod.mk.injEq] at hexec
    obtain ⟨rfl, rfl⟩ := hexec
    obtain ⟨c₃, rest, hview₃, rfl, hlast⟩ := hruns.of_access
    obtain ⟨rfl, hend⟩ := runs_unlockSpin (fun _ _ => rfl) hlast
    refine ⟨.of_view (hend.trans (hview₃.trans (sleepView_eq.mpr ⟨rfl, hbuffer, hdue, hclock, hcur⟩))) h.wakeAtTick,
      [t], rfl, ?_⟩
    simp [Accepted.call]
  | none =>
    simp only [hremove, Prod.mk.injEq] at hexec
    obtain ⟨rfl, rfl⟩ := hexec
    obtain ⟨rfl, hend⟩ := runs_unlockSpin (fun _ _ => rfl) hruns
    exact ⟨.of_view (hend.trans (sleepView_eq.mpr ⟨rfl, hbuffer, hdue, hclock, hcur⟩)) h.wakeAtTick, [], rfl,
      by simp⟩

/-- `add_task_to_sleep_queue`. -/
theorem SleepsAs.addTask {time ms : Nat} (h : SleepsAs c s)
    (hruns : SleepRuns C c (fullAccess .sleep (.addTask t time)) log c') :
    log = [] ∧ SleepsAs c' (s.addTaskToSleepQueue t ms (Tick.of time)) := by
  obtain ⟨c₁, x, c₂, ds, hview₁, -, hexec, hruns⟩ := hruns.of_body
  simp only [spec, exec, Option.bind_eq_some_iff, Content.lockNowOrDie_eq, Option.map_eq_some_iff,
    Content.pushBackSleeping_eq, Prod.mk.injEq] at hexec
  obtain ⟨_, ⟨-, rfl⟩, _, ⟨-, rfl⟩, rfl, rfl⟩ := hexec
  obtain ⟨rfl, hend⟩ := runs_unlockSpin (fun _ _ => rfl) hruns
  obtain ⟨hqueue, hbuffer, hdue, hclock, hcur⟩ := sleepView_eq.mp (hview₁.trans h.view)
  have hticks : Function.update s.wakeAtTick t (Tick.of time) =
      fun u => Tick.of (Function.update c.due t time u) := by
    funext u
    by_cases hu : u = t <;> simp [hu, h.wakeAtTick]
  refine ⟨rfl, .of_view (hend.trans (sleepView_eq.mpr ⟨?_, hbuffer, ?_, hclock, hcur⟩)) hticks⟩
  · simp [SleepQueue.addTaskToSleepQueue, hticks, hqueue, hdue]
  · simp [hdue]

/-- `sleep_ms`, up to the access to the sleep queue. -/
theorem SleepsAs.sleepMs {ms : BitVec 32} (h : SleepsAs c s)
    (hruns : SleepRuns C c [.body (.sleepMs ms)] log c') :
    SleepsAs c' s ∧ c'.cur = c.cur ∧
      (log = [] ∧ s.sleepMs c.cur ms = some s ∨
        log = [(.sleep, .addTask c.cur (c.clock + ms.toNat))] ∧
          (c.cur ∉ s.timeSortedQueue → s.sleepMs c.cur ms =
            some (s.addTaskToSleepQueue c.cur ms.toNat (Tick.of (c.clock + ms.toNat))))) := by
  have hwake : s.ticks + ms = Tick.of (c.clock + ms.toNat) := by
    rw [h.clock]
    apply BitVec.eq_of_toNat_eq
    simp [SleepQueue.ticks, Tick.of]
  have hstop : ∀ {d : Content τ W B}, sleepView d = sleepView c → SleepsAs d s ∧ d.cur = c.cur := by
    intro d hview
    exact ⟨.of_view (hview.trans h.view) h.wakeAtTick, (sleepView_eq.mp hview).2.2.2.2⟩
  obtain ⟨c₁, x, c₂, ds, hview₁, -, hexec, hruns⟩ := hruns.of_body
  have hclock₁ : c₁.clock = c.clock := (sleepView_eq.mp hview₁).2.2.2.1
  obtain ⟨rfl, rfl⟩ := Option.some.inj hexec |> Prod.mk.inj
  unfold SleepQueue.sleepMs
  simp only [hwake]
  by_cases hlong : 2 ^ 31 - 1 < ms.toNat
  · simp only [hlong, if_true] at hruns ⊢
    obtain ⟨rfl, hend⟩ := hruns.of_nil
    obtain ⟨hsleeps, hcur⟩ := hstop (hend.trans hview₁)
    exact ⟨hsleeps, hcur, Or.inl ⟨rfl, trivial⟩⟩
  simp only [hlong, if_false] at hruns ⊢
  obtain ⟨c₂, y, c₃, ds, hview₂, -, hexec, hruns⟩ := hruns.of_body
  obtain ⟨rfl, rfl⟩ := Option.some.inj hexec |> Prod.mk.inj
  have hclock₂ : c₂.clock = c.clock := (sleepView_eq.mp (hview₂.trans hview₁)).2.2.2.1
  have hticks : s.ticks = Tick.of c.clock := congrArg Tick.of h.clock.symm
  simp only [hclock₁, hclock₂] at hruns
  rw [hticks]
  by_cases hlater : tickCmp (Tick.of c.clock) (Tick.of (c.clock + ms.toNat)) = .lt
  · simp only [hlater, if_true] at hruns ⊢
    obtain ⟨c₃, hview₃, hruns⟩ := hruns.of_pause (Or.inl rfl)
    obtain ⟨c₄, hview₄, hruns⟩ := hruns.of_suspended
    obtain ⟨c₅, z, c₆, ds, hview₅, -, hexec, hruns⟩ := hruns.of_body
    obtain ⟨rfl, rfl⟩ := Option.some.inj hexec |> Prod.mk.inj
    obtain ⟨c₇, rest, hview₇, rfl, hlast⟩ := hruns.of_access
    obtain ⟨c₈, hview₈, hlast⟩ := hlast.of_pause (Or.inr rfl)
    obtain ⟨rfl, hend⟩ := hlast.of_nil
    have hbefore : sleepView c₅ = sleepView c := hview₅.trans (hview₄.trans (hview₃.trans (hview₂.trans hview₁)))
    obtain ⟨hsleeps, hcur⟩ := hstop (hend.trans (hview₈.trans (hview₇.trans hbefore)))
    rw [(sleepView_eq.mp hbefore).2.2.2.2]
    exact ⟨hsleeps, hcur, Or.inr ⟨rfl, fun hfree => if_neg hfree⟩⟩
  · simp only [hlater, if_false] at hruns ⊢
    obtain ⟨rfl, hend⟩ := hruns.of_nil
    obtain ⟨hsleeps, hcur⟩ := hstop (hend.trans (hview₂.trans hview₁))
    exact ⟨hsleeps, hcur, Or.inl ⟨rfl, trivial⟩⟩

end Hopter.Kernel
