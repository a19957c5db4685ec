-- SUMMARY: Waits with a timeout in the sleep queue: when they are on time, and disturb no other task.
import Hopter.Time.SleepQueue

/-!
# Waits with a timeout

`wait_until_timeout` of `src/sync/mailbox.rs`, for a mailbox that is not notified. The task that
waits is put into the sleep queue like a task that sleeps, but for two differences: the timeout is
not limited to `i32::MAX`, and it may be zero. The wake-up ticks are computed modulo `2 ^ 32`, so
that the queue need not be sorted by the times that its tasks wait for.
-/

namespace Hopter.Time

open Hopter.Task

variable {τ : Type}

/-- The fields of a mailbox. -/
structure Mailbox (τ : Type) where
  count : Nat
  /-- The task of the variant `WithTimeout`. -/
  waitTask : Option τ
  taskNotified : Bool

/-- The second access of `wait_until_timeout`: the mailbox and the result. -/
def Mailbox.takeResult (m : Mailbox τ) : Mailbox τ × Bool := ({ m with waitTask := none }, m.taskNotified)

namespace SleepQueue

-- ---------------------------------------------------------------------------
-- When the tasks wake up
-- ---------------------------------------------------------------------------

/-- The ticks that are left until `wake`, as `tick_cmp` sees it. -/
def remaining (wake now : Tick) : Nat := if tickCmp wake now = .gt then (wake - now).toNat else 0

/-- When all tasks of a queue have been woken up. -/
def turn (wakeAtTick : τ → Tick) : Nat → List τ → Nat
  | clock, [] => clock
  | clock, t :: ts => turn wakeAtTick (clock + remaining (wakeAtTick t) (Tick.of clock)) ts

section Wakings

variable {wakeAtTick ticks : τ → Tick} {wake now : Tick} {clock m : Nat} {l l₁ l₂ : List τ} {s : SleepQueue τ}

theorem tickCmp_eq_gt (wake now : Tick) :
    tickCmp wake now = .gt ↔ 0 < (wake - now).toNat ∧ (wake - now).toNat < 2 ^ 31 := by
  have hlt := (wake - now).isLt
  rw [tickCmp, Int.compare_eq_gt, BitVec.toInt_eq_toNat_cond]
  split <;> omega

theorem remaining_eq (wake now : Tick) :
    remaining wake now = if (wake - now).toNat < 2 ^ 31 then (wake - now).toNat else 0 := by
  simp only [remaining, tickCmp_eq_gt]
  split <;> split <;> omega

theorem remaining_eq_zero : remaining wake now = 0 ↔ tickCmp wake now ≠ .gt := by
  rw [remaining_eq, ne_eq, tickCmp_eq_gt]
  split <;> omega

theorem le_turn : clock ≤ turn wakeAtTick clock l := by
  induction l generalizing clock with
  | nil => exact Nat.le_refl _
  | cons t ts ih => exact Nat.le_trans (Nat.le_add_right ..) ih

end Wakings

-- ---------------------------------------------------------------------------
-- The operations
-- ---------------------------------------------------------------------------

/-- The queue after a number of SysTicks. -/
def sysTicks [DecidableEq τ] (s : SleepQueue τ) : Nat → SleepQueue τ
  | 0 => s
  | n + 1 => (s.sysTicks n).advanceTick.wakeExpiredTasks

variable [DecidableEq τ]

/-- The part of `wait_until_timeout` that puts the task to sleep. -/
def blockUntilTimeout (s : SleepQueue τ) (task : τ) (timeoutMs : BitVec 32) : Option (SleepQueue τ) :=
  if task ∈ s.timeSortedQueue then none
  else some (s.addTaskToSleepQueue task timeoutMs.toNat (s.ticks + timeoutMs))

/-- `wait_until_timeout`, until it returns a result or yields. -/
def waitUntilTimeout (s : SleepQueue τ) (m : Mailbox τ) (task : τ) (timeoutMs : BitVec 32) :
    Option (SleepQueue τ × Mailbox τ × Option Bool) :=
  if m.waitTask.isSome = true then none
  else if 0 < m.count then some (s, { m with count := m.count - 1 }, some true)
  else (s.blockUntilTimeout task timeoutMs).map fun s =>
    (s, { m with waitTask := some task, taskNotified := false }, none)

/-- The operations, with waits that block until a timeout. -/
inductive TimedOp (τ : Type) where
  | queue (op : Op τ)
  | blockUntilTimeout (task : τ) (timeoutMs : BitVec 32)

def timedStep (s : SleepQueue τ) : TimedOp τ → Option (SleepQueue τ)
  | .queue op => s.step op
  | .blockUntilTimeout task timeoutMs => s.blockUntilTimeout task timeoutMs


-- ---------------------------------------------------------------------------
-- What holds of every queue
-- ---------------------------------------------------------------------------

/-- The queue has no task twice, and the history has a call for every task in it. Nothing is said
about the ticks. -/
structure Coherent (s : SleepQueue τ) : Prop where
  buffer : s.deleteBuffer = []
  nodup : s.timeSortedQueue.Nodup
  callOf : ∀ t ∈ s.timeSortedQueue, s.callOf t < s.calls.length
  calls : ∀ a ∈ s.accepted, a.call < s.calls.length

variable {s s' s₀ : SleepQueue τ} {t u task : τ} {ms : Nat} {tick : Tick}

/-- SysTick wakes up the tasks in front for which no ticks are left. -/
theorem wakeExpiredTasks_eq (hbuffer : s.deleteBuffer = []) :
    s.advanceTick.wakeExpiredTasks =
      { s with
        clock := s.clock + 1
        timeSortedQueue :=
          s.timeSortedQueue.dropWhile fun t => remaining (s.wakeAtTick t) (Tick.of (s.clock + 1)) = 0
        accepted := s.accepted ++
          (s.timeSortedQueue.takeWhile fun t => remaining (s.wakeAtTick t) (Tick.of (s.clock + 1)) = 0).map
            fun t => .woken (s.callOf t) (s.clock + 1) } := by
  have hexpired : s.advanceTick.expired =
      fun t => decide (remaining (s.wakeAtTick t) (Tick.of (s.clock + 1)) = 0) := by
    funext t
    rw [decide_eq_decide.mpr remaining_eq_zero, decide_not]
    rfl
  have hbuffer' : s.advanceTick.deleteBuffer = [] := hbuffer
  have hqueue : s.advanceTick.timeSortedQueue = s.timeSortedQueue := rfl
  simp only [wakeExpiredTasks, hbuffer', hqueue, hexpired, drainDeleteBuffer, List.map_nil, List.append_nil]
  simp only [advanceTick, hbuffer]

theorem Coherent.sysTick (h : s.Coherent) : s.advanceTick.wakeExpiredTasks.Coherent := by
  rw [wakeExpiredTasks_eq h.buffer]
  refine ⟨h.buffer, h.nodup.sublist (List.dropWhile_sublist _), fun t ht =>
    h.callOf t ((List.dropWhile_sublist _).subset ht), fun a ha => ?_⟩
  rcases List.mem_append.mp ha with ha | ha
  · exact h.calls a ha
  · obtain ⟨t, ht, rfl⟩ := List.mem_map.mp ha
    exact h.callOf t ((List.takeWhile_sublist _).subset ht)

theorem Coherent.add (h : s.Coherent) (htask : task ∉ s.timeSortedQueue) :
    (s.addTaskToSleepQueue task ms tick).Coherent := by
  have hperm := pushBackTickSorted_perm (Function.update s.wakeAtTick task tick) task s.timeSortedQueue
  refine ⟨h.buffer, hperm.nodup_iff.mpr (List.nodup_cons.mpr ⟨htask, h.nodup⟩), fun u hu => ?_, fun a ha => ?_⟩
  · by_cases hut : u = task
    · simp [SleepQueue.addTaskToSleepQueue, hut]
    · have hmem := (List.mem_cons.mp (hperm.mem_iff.mp hu)).resolve_left hut
      have := h.callOf u hmem
      simp only [SleepQueue.addTaskToSleepQueue, Function.update_of_ne hut, List.length_append]
      omega
  · have := h.calls a ha
    simp only [SleepQueue.addTaskToSleepQueue, List.length_append]
    omega

theorem Coherent.remove (h : s.Coherent) : (s.removeTaskFromSleepQueue t).Coherent := by
  unfold SleepQueue.removeTaskFromSleepQueue
  rw [removeTask_eq]
  by_cases ht : t ∈ s.timeSortedQueue
  · have hsub : (s.timeSortedQueue.erase t).Sublist s.timeSortedQueue := List.erase_sublist
    rw [if_pos ht]
    refine ⟨h.buffer, h.nodup.sublist hsub, fun u hu => h.callOf u (hsub.subset hu), fun a ha => ?_⟩
    rcases List.mem_append.mp ha with ha | ha
    · exact h.calls a ha
    · rw [List.mem_singleton.mp ha]
      exact h.callOf t ht
  · rw [if_neg ht]
    exact h

theorem sleepMs_cases {ms : BitVec 32} (hstep : s.sleepMs task ms = some s') :
    s' = s ∨ task ∉ s.timeSortedQueue ∧ ms.toNat ≤ 2 ^ 31 - 1 ∧
      s' = s.addTaskToSleepQueue task ms.toNat (s.ticks + ms) := by
  unfold SleepQueue.sleepMs at hstep
  split at hstep
  · exact .inl (Option.some.inj hstep).symm
  · dsimp only at hstep
    split at hstep
    · split at hstep
      · cases hstep
      · exact .inr ⟨‹_›, by omega, (Option.some.inj hstep).symm⟩
    · exact .inl (Option.some.inj hstep).symm

theorem blockUntilTimeout_eq {timeoutMs : BitVec 32} (hstep : s.blockUntilTimeout task timeoutMs = some s') :
    task ∉ s.timeSortedQueue ∧ s' = s.addTaskToSleepQueue task timeoutMs.toNat (s.ticks + timeoutMs) := by
  unfold SleepQueue.blockUntilTimeout at hstep
  split at hstep
  · cases hstep
  · exact ⟨‹_›, (Option.some.inj hstep).symm⟩

theorem Coherent.timedStep {op : TimedOp τ} (h : s.Coherent) (hstep : s.timedStep op = some s') : s'.Coherent := by
  cases op with
  | queue op =>
    cases op with
    | sysTick =>
      cases hstep
      exact h.sysTick
    | sleepMs t ms =>
      rcases sleepMs_cases hstep with rfl | ⟨htask, -, rfl⟩
      · exact h
      · exact h.add htask
    | remove t =>
      cases hstep
      exact h.remove
  | blockUntilTimeout task timeoutMs =>
    obtain ⟨htask, rfl⟩ := blockUntilTimeout_eq hstep
    exact h.add htask

omit [DecidableEq τ] in
theorem coherent_new (clock : Nat) (wakeAtTick : τ → Tick) : (new clock wakeAtTick).Coherent where
  buffer := rfl
  nodup := List.nodup_nil
  callOf := by simp [new]
  calls := by simp [new]

-- ---------------------------------------------------------------------------
-- SysTicks
-- ---------------------------------------------------------------------------

/-- The tasks that a task with the given tick is put behind, and the tasks behind it. -/
def ahead (s : SleepQueue τ) (wake : Tick) : List τ :=
  s.timeSortedQueue.takeWhile fun t => tickCmp wake (s.wakeAtTick t) != .lt

def behind (s : SleepQueue τ) (wake : Tick) : List τ :=
  s.timeSortedQueue.dropWhile fun t => tickCmp wake (s.wakeAtTick t) != .lt

/-- The clock when the tasks in front of such a task are gone. -/
def turnOf (s : SleepQueue τ) (wake : Tick) : Nat := turn s.wakeAtTick (s.clock + 1) (s.ahead wake)

section Beside

variable {wake : Tick}

omit [DecidableEq τ] in
theorem ahead_subset (s : SleepQueue τ) (wake : Tick) : s.ahead wake ⊆ s.timeSortedQueue :=
  (List.takeWhile_sublist _).subset

end Beside

-- ---------------------------------------------------------------------------
-- The limit
-- ---------------------------------------------------------------------------

/-- A wait that puts its task to sleep in `s`, with the queue `s'` and the mailbox `m'` after that: it does
not return `false` early, and the other tasks are woken up as they are without it. -/
structure Harmless (s s' : SleepQueue τ) (m' : Mailbox τ) (timeoutMs : BitVec 32) : Prop where
  notEarly : ∀ n, (s'.sysTicks n).log s.calls.length ≠ [] → m'.takeResult.2 = false → timeoutMs.toNat ≤ n
  undisturbed : ∀ n, (s'.sysTicks n).accepted.filter (fun a => a.call ≠ s.calls.length) = (s.sysTicks n).accepted

/-- A wait is in its turn. When the tasks in front of it are gone, less than half a turn of the counter
is left until its time, if any is, and the first task behind it has no fewer ticks left. -/
structure InTurn (s : SleepQueue τ) (timeoutMs : BitVec 32) : Prop where
  near : s.clock + timeoutMs.toNat < s.turnOf (s.ticks + timeoutMs) + 2 ^ 31
  notLater : ∀ t ∈ (s.behind (s.ticks + timeoutMs)).head?,
    remaining (s.ticks + timeoutMs) (Tick.of (s.turnOf (s.ticks + timeoutMs))) ≤
      remaining (s.wakeAtTick t) (Tick.of (s.turnOf (s.ticks + timeoutMs)))

section Limit

variable {m m' : Mailbox τ} {timeoutMs : BitVec 32}

omit [DecidableEq τ] in
theorem tick_add (s : SleepQueue τ) (timeoutMs : BitVec 32) :
    s.ticks + timeoutMs = Tick.of (s.clock + timeoutMs.toNat) := by
  rw [SleepQueue.ticks, Tick.of, Tick.of, BitVec.ofNat_add, BitVec.ofNat_toNat, BitVec.setWidth_eq]

end Limit

-- ---------------------------------------------------------------------------
-- Queues in the window
-- ---------------------------------------------------------------------------

/-- The limit of `sleep_ms`. -/
def TimedOp.Admitted (_ : SleepQueue τ) : TimedOp τ → Prop
  | .blockUntilTimeout _ timeoutMs => timeoutMs.toNat ≤ 2 ^ 31 - 1
  | .queue _ => True

/-- The tasks in the queue are due in the window in which ticks can be compared, and in this order. -/
structure Windowed (s : SleepQueue τ) : Prop extends s.Coherent where
  tick : ∀ t ∈ s.timeSortedQueue, s.wakeAtTick t = Tick.of (s.dueOf t)
  notLate : ∀ t ∈ s.timeSortedQueue, s.clock ≤ s.dueOf t
  notFar : ∀ t ∈ s.timeSortedQueue, s.dueOf t < s.clock + 2 ^ 31
  sorted : s.timeSortedQueue.Pairwise fun t u => s.dueOf t ≤ s.dueOf u

/-- How far the first task of the queue is from its time, and one tick when there is none. -/
def slack (s : SleepQueue τ) : Nat := (s.timeSortedQueue.head?.map fun t => s.dueOf t - s.clock).getD 1

section Window

variable {timeoutMs : BitVec 32} {due clock limit : Nat} {l : List τ}

omit [DecidableEq τ] in
/-- A task that is at most half a turn late or early is woken up at its time. -/
theorem add_remaining (hlate : clock ≤ due + 2 ^ 31) (hearly : due < clock + 2 ^ 31) :
    clock + remaining (Tick.of due) (Tick.of clock) = max clock due := by
  have hsub : (Tick.of due - Tick.of clock).toNat = (due + (2 ^ 32 - clock % 2 ^ 32)) % 2 ^ 32 := by
    rw [Tick.of, Tick.of, BitVec.toNat_sub, BitVec.toNat_ofNat, BitVec.toNat_ofNat]
    omega
  rw [remaining_eq, hsub]
  split <;> omega

omit [DecidableEq τ] in
theorem Windowed.remaining_eq_zero (h : s.Windowed) (ht : t ∈ s.timeSortedQueue) :
    remaining (s.wakeAtTick t) (Tick.of (s.clock + 1)) = 0 ↔ s.dueOf t ≤ s.clock + 1 := by
  have hnotLate := h.notLate t ht
  have hnotFar := h.notFar t ht
  have hsum : s.clock + 1 + remaining (Tick.of (s.dueOf t)) (Tick.of (s.clock + 1)) = max (s.clock + 1) (s.dueOf t) :=
    add_remaining (by omega) (by omega)
  rw [h.tick t ht]
  omega

theorem Windowed.sysTick (h : s.Windowed) : s.advanceTick.wakeExpiredTasks.Windowed := by
  have hsorted : s.timeSortedQueue.Pairwise fun a b =>
      decide (remaining (s.wakeAtTick b) (Tick.of (s.clock + 1)) = 0) = true →
        decide (remaining (s.wakeAtTick a) (Tick.of (s.clock + 1)) = 0) = true := by
    refine h.sorted.imp_of_mem fun {a b} ha hb hab hdue => ?_
    rw [decide_eq_true_eq, h.remaining_eq_zero hb] at hdue
    rw [decide_eq_true_eq, h.remaining_eq_zero ha]
    omega
  have hcoherent := h.toCoherent.sysTick
  rw [wakeExpiredTasks_eq h.buffer, (takeWhile_eq_filter hsorted).2] at hcoherent ⊢
  have hmem : ∀ t ∈ s.timeSortedQueue.filter
      (fun t => !decide (remaining (s.wakeAtTick t) (Tick.of (s.clock + 1)) = 0)),
      t ∈ s.timeSortedQueue ∧ s.clock + 1 < s.dueOf t := by
    intro t ht
    obtain ⟨ht, hleft⟩ := List.mem_filter.mp ht
    refine ⟨ht, ?_⟩
    simpa [h.remaining_eq_zero ht] using hleft
  refine ⟨hcoherent, fun t ht => h.tick t (hmem t ht).1, fun t ht => Nat.le_of_lt (hmem t ht).2, fun t ht => ?_,
    h.sorted.filter _⟩
  have := h.notFar t (hmem t ht).1
  change s.dueOf t < s.clock + 1 + 2 ^ 31
  omega

omit [DecidableEq τ] in
theorem dueOf_add_self [DecidableEq τ] {tick : Tick} :
    (s.addTaskToSleepQueue task ms tick).dueOf task = s.clock + ms := by
  simp [SleepQueue.dueOf, SleepQueue.addTaskToSleepQueue, Sleep.due]

theorem dueOf_add_of_ne {tick : Tick} (hne : u ≠ task) (hcall : s.callOf u < s.calls.length) :
    (s.addTaskToSleepQueue task ms tick).dueOf u = s.dueOf u := by
  simp [SleepQueue.dueOf, SleepQueue.addTaskToSleepQueue, hne, List.getElem?_append_left hcall]

/-- A task is put to sleep for a time that is in the window. -/
theorem Windowed.add (h : s.Windowed) (htask : task ∉ s.timeSortedQueue) (hms : ms < 2 ^ 31) :
    (s.addTaskToSleepQueue task ms (Tick.of (s.clock + ms))).Windowed := by
  have hne : ∀ u ∈ s.timeSortedQueue, u ≠ task := fun u hu heq => htask (heq ▸ hu)
  have hperm := pushBackTickSorted_perm (Function.update s.wakeAtTick task (Tick.of (s.clock + ms))) task
    s.timeSortedQueue
  have hself : (s.addTaskToSleepQueue task ms (Tick.of (s.clock + ms))).dueOf task = s.clock + ms := dueOf_add_self
  have hold : ∀ u ∈ s.timeSortedQueue,
      (s.addTaskToSleepQueue task ms (Tick.of (s.clock + ms))).dueOf u = s.dueOf u :=
    fun u hu => dueOf_add_of_ne (hne u hu) (h.callOf u hu)
  -- What holds of the new task and of the others, holds of the tasks in the queue.
  have hall : ∀ {P : τ → Prop}, P task → (∀ u ∈ s.timeSortedQueue, P u) →
      ∀ u ∈ (s.addTaskToSleepQueue task ms (Tick.of (s.clock + ms))).timeSortedQueue, P u := by
    intro P hnew hothers u hu
    rcases List.mem_cons.mp (hperm.mem_iff.mp hu) with rfl | hu
    · exact hnew
    · exact hothers u hu
  have hcmp : ∀ u ∈ s.timeSortedQueue,
      tickCmp (Function.update s.wakeAtTick task (Tick.of (s.clock + ms)) task)
        (Function.update s.wakeAtTick task (Tick.of (s.clock + ms)) u) = compare (s.clock + ms) (s.dueOf u) := by
    intro u hu
    have hnotLate := h.notLate u hu
    have hnotFar := h.notFar u hu
    rw [Function.update_self, Function.update_of_ne (hne u hu), h.tick u hu]
    apply tickCmp_of <;> omega
  refine ⟨h.toCoherent.add htask, hall ?_ fun u hu => ?_, hall ?_ fun u hu => ?_, hall ?_ fun u hu => ?_, ?_⟩
  · rw [hself]
    exact Function.update_self ..
  · rw [hold u hu, ← h.tick u hu]
    exact Function.update_of_ne (hne u hu) ..
  · rw [hself]
    exact Nat.le_add_right ..
  · rw [hold u hu]
    exact h.notLate u hu
  · rw [hself]
    exact Nat.add_lt_add_left hms s.clock
  · rw [hold u hu]
    exact h.notFar u hu
  · refine pushBackTickSorted_pairwise
      (R := fun t u => (s.addTaskToSleepQueue task ms (Tick.of (s.clock + ms))).dueOf t ≤
        (s.addTaskToSleepQueue task ms (Tick.of (s.clock + ms))).dueOf u)
      (fun h h' => Nat.le_trans h h') ?_ (fun u hu hlt => ?_) fun u hu hge => ?_
    · refine h.sorted.imp_of_mem fun {a b} ha hb hab => ?_
      rw [hold a ha, hold b hb]
      exact hab
    · rw [hcmp u hu, Nat.compare_eq_lt] at hlt
      rw [hself, hold u hu]
      omega
    · rw [hcmp u hu, ne_eq, Nat.compare_eq_lt] at hge
      rw [hself, hold u hu]
      omega

theorem Windowed.remove (h : s.Windowed) : (s.removeTaskFromSleepQueue t).Windowed := by
  have hcoherent := h.toCoherent.remove (t := t)
  unfold SleepQueue.removeTaskFromSleepQueue at hcoherent ⊢
  rw [removeTask_eq] at hcoherent ⊢
  by_cases ht : t ∈ s.timeSortedQueue
  · have hsub : (s.timeSortedQueue.erase t).Sublist s.timeSortedQueue := List.erase_sublist
    rw [if_pos ht] at hcoherent ⊢
    exact ⟨hcoherent, fun u hu => h.tick u (hsub.subset hu), fun u hu => h.notLate u (hsub.subset hu),
      fun u hu => h.notFar u (hsub.subset hu), h.sorted.sublist hsub⟩
  · rw [if_neg ht]
    exact h

theorem Windowed.timedStep {op : TimedOp τ} (h : s.Windowed) (hop : op.Admitted s)
    (hstep : s.timedStep op = some s') : s'.Windowed := by
  cases op with
  | queue op =>
    cases op with
    | sysTick =>
      cases hstep
      exact h.sysTick
    | sleepMs t ms =>
      rcases sleepMs_cases hstep with rfl | ⟨htask, hms, rfl⟩
      · exact h
      · rw [tick_add]
        exact h.add htask (by omega)
    | remove t =>
      cases hstep
      exact h.remove
  | blockUntilTimeout task timeoutMs =>
    obtain ⟨htask, rfl⟩ := blockUntilTimeout_eq hstep
    have hms : timeoutMs.toNat ≤ 2 ^ 31 - 1 := hop
    rw [tick_add]
    exact h.add htask (by omega)

omit [DecidableEq τ] in
theorem windowed_new (clock : Nat) (wakeAtTick : τ → Tick) : (new clock wakeAtTick).Windowed where
  toCoherent := coherent_new clock wakeAtTick
  tick := by simp [new]
  notLate := by simp [new]
  notFar := by simp [new]
  sorted := List.Pairwise.nil

/-- As long as no wait is longer than the longest sleep, the queue is in the window. -/
theorem exec_windowed {wakeAtTick : τ → Tick} {ops : List (TimedOp τ)}
    (hrun : Run.exec timedStep (new clock wakeAtTick) ops = some s)
    (hops : Run.Allowed timedStep TimedOp.Admitted (new clock wakeAtTick) ops) : s.Windowed :=
  Run.exec_inv_of_allowed Windowed Windowed.timedStep (windowed_new clock wakeAtTick) hops hrun

omit [DecidableEq τ] in
/-- Tasks of the window are gone when their times have come, and not later. -/
theorem Windowed.turn_le (h : s.Windowed) (hl : l ⊆ s.timeSortedQueue) (hclock : s.clock ≤ clock)
    (hsoon : clock ≤ s.clock + 2 ^ 31) (hlimit : clock ≤ limit) (hdue : ∀ t ∈ l, s.dueOf t ≤ limit) :
    turn s.wakeAtTick clock l ≤ limit ∧ ∀ t ∈ l, s.dueOf t ≤ turn s.wakeAtTick clock l := by
  induction l generalizing clock with
  | nil => exact ⟨hlimit, by simp⟩
  | cons t ts ih =>
    obtain ⟨ht, hts⟩ := List.cons_subset.mp hl
    obtain ⟨hduet, hduets⟩ := List.forall_mem_cons.mp hdue
    have hnotLate := h.notLate t ht
    have hnotFar := h.notFar t ht
    have hnext : clock + remaining (s.wakeAtTick t) (Tick.of clock) = max clock (s.dueOf t) := by
      rw [h.tick t ht]
      exact add_remaining (by omega) (by omega)
    rw [turn, hnext]
    have ih := ih hts (Nat.le_trans hclock (Nat.le_max_left clock (s.dueOf t))) (by omega) (by omega) hduets
    exact ⟨ih.1, List.forall_mem_cons.mpr ⟨Nat.le_trans (Nat.le_max_right ..) le_turn, ih.2⟩⟩

omit [DecidableEq τ] in
/-- The time at which the task is to wake up can be compared with those of the others. -/
theorem Windowed.lt_of_slack (h : s.Windowed) (hms : ms < 2 ^ 31 + s.slack) (hu : u ∈ s.timeSortedQueue) :
    s.clock + ms < s.dueOf u + 2 ^ 31 := by
  obtain ⟨t, ts, hqueue⟩ := List.exists_cons_of_ne_nil (List.ne_nil_of_mem hu)
  have hnotLate := h.notLate t (by simp [hqueue])
  have hfirst : s.dueOf t ≤ s.dueOf u := by
    have hsorted := h.sorted
    rw [hqueue, List.pairwise_cons] at hsorted
    rw [hqueue] at hu
    rcases List.mem_cons.mp hu with rfl | hu
    · exact Nat.le_refl _
    · exact hsorted.1 u hu
  rw [slack, hqueue, List.head?_cons, Option.map_some, Option.getD_some] at hms
  omega

omit [DecidableEq τ] in
/-- In the window, the task goes behind those that are due no later. -/
theorem Windowed.ahead_eq (h : s.Windowed) (hms : ms < 2 ^ 31 + s.slack) :
    s.ahead (Tick.of (s.clock + ms)) = s.timeSortedQueue.filter (fun u => s.dueOf u ≤ s.clock + ms) ∧
      s.behind (Tick.of (s.clock + ms)) = s.timeSortedQueue.filter (fun u => !decide (s.dueOf u ≤ s.clock + ms)) := by
  have hplace : ∀ u ∈ s.timeSortedQueue, (tickCmp (Tick.of (s.clock + ms)) (s.wakeAtTick u) != .lt) =
      decide (s.dueOf u ≤ s.clock + ms) := by
    intro u hu
    have hnotFar := h.notFar u hu
    have hslack := h.lt_of_slack hms hu
    rw [h.tick u hu, tickCmp_of hslack (by omega)]
    by_cases hle : s.dueOf u ≤ s.clock + ms
    · simp [hle, Nat.compare_eq_lt]
    · simp only [hle, decide_false, bne_eq_false_iff_eq]
      exact Nat.compare_eq_lt.mpr (by omega)
  have hsorted : s.timeSortedQueue.Pairwise fun a b =>
      (tickCmp (Tick.of (s.clock + ms)) (s.wakeAtTick b) != .lt) = true →
        (tickCmp (Tick.of (s.clock + ms)) (s.wakeAtTick a) != .lt) = true := by
    refine h.sorted.imp_of_mem fun {a b} ha hb hab hle => ?_
    rw [hplace b hb, decide_eq_true_eq] at hle
    rw [hplace a ha, decide_eq_true_eq]
    exact Nat.le_trans hab hle
  obtain ⟨htake, hdrop⟩ := takeWhile_eq_filter hsorted
  exact ⟨htake.trans (List.filter_congr hplace), hdrop.trans (List.filter_congr fun u hu => by rw [hplace u hu])⟩

omit [DecidableEq τ] in
theorem Windowed.inTurn (h : s.Windowed) (hms : timeoutMs.toNat < 2 ^ 31 + s.slack) : s.InTurn timeoutMs := by
  obtain ⟨hahead, hbehind⟩ := h.ahead_eq hms
  have htick := tick_add s timeoutMs
  rw [← htick] at hahead hbehind
  have hsub := ahead_subset s (s.ticks + timeoutMs)
  have hturn : s.clock + 1 ≤ s.turnOf (s.ticks + timeoutMs) := le_turn
  have hnear : s.clock + timeoutMs.toNat < s.turnOf (s.ticks + timeoutMs) + 2 ^ 31 := by
    by_cases hsmall : timeoutMs.toNat ≤ 2 ^ 31
    · omega
    · -- The queue is not empty, and its first task is in front.
      cases hqueue : s.timeSortedQueue with
      | nil =>
        rw [slack, hqueue, List.head?_nil, Option.map_none, Option.getD_none] at hms
        omega
      | cons t ts =>
        have ht : t ∈ s.timeSortedQueue := by simp [hqueue]
        have hnotFar := h.notFar t ht
        have hslack := h.lt_of_slack hms ht
        have hmem : t ∈ s.ahead (s.ticks + timeoutMs) := by
          rw [hahead]
          exact List.mem_filter.mpr ⟨ht, decide_eq_true (by omega)⟩
        have hdue : s.dueOf t ≤ s.turnOf (s.ticks + timeoutMs) :=
          (h.turn_le hsub (Nat.le_succ _) (by omega) (show s.clock + 1 ≤ s.clock + 2 ^ 31 by omega)
            fun u hu => Nat.le_of_lt (h.notFar u (hsub hu))).2 t hmem
        omega
  refine ⟨hnear, fun u hu => ?_⟩
  have hmem := List.mem_of_mem_head? hu
  rw [hbehind] at hmem
  obtain ⟨hmem, hlater⟩ := List.mem_filter.mp hmem
  have hlater : s.clock + timeoutMs.toNat < s.dueOf u := by simpa using hlater
  have hnotFar := h.notFar u hmem
  have hsoon : s.turnOf (s.ticks + timeoutMs) ≤ max (s.clock + 1) (s.clock + timeoutMs.toNat) := by
    refine (h.turn_le hsub (Nat.le_succ _) (by omega) (Nat.le_max_left ..) fun v hv => ?_).1
    rw [hahead] at hv
    exact Nat.le_trans (of_decide_eq_true (List.mem_filter.mp hv).2) (Nat.le_max_right ..)
  rw [h.tick u hmem]
  generalize s.turnOf (s.ticks + timeoutMs) = clock at hturn hnear hsoon ⊢
  have hself : clock + remaining (Tick.of (s.clock + timeoutMs.toNat)) (Tick.of clock) = max clock _ :=
    add_remaining (by omega) hnear
  have hother : clock + remaining (Tick.of (s.dueOf u)) (Tick.of clock) = max clock _ :=
    add_remaining (by omega) (by omega)
  rw [htick]
  omega

omit [DecidableEq τ] in
/-- Beyond the window, the task goes in front of all others, and is woken up at once or keeps a task
that is due behind it. -/
theorem Windowed.not_inTurn (h : s.Windowed) (hms : 2 ^ 31 + s.slack ≤ timeoutMs.toNat) : ¬ s.InTurn timeoutMs := by
  rintro ⟨hnear, hnotLater⟩
  have hlt := timeoutMs.isLt
  rw [tick_add] at hnear hnotLater
  cases hqueue : s.timeSortedQueue with
  | nil =>
    have hahead : s.ahead (Tick.of (s.clock + timeoutMs.toNat)) = [] := by simp [ahead, hqueue]
    rw [slack, hqueue, List.head?_nil, Option.map_none, Option.getD_none] at hms
    rw [turnOf, hahead, turn] at hnear
    omega
  | cons t ts =>
    have ht : t ∈ s.timeSortedQueue := by simp [hqueue]
    have hnotLate := h.notLate t ht
    rw [slack, hqueue, List.head?_cons, Option.map_some, Option.getD_some] at hms
    have hfirst : tickCmp (Tick.of (s.clock + timeoutMs.toNat)) (s.wakeAtTick t) = .lt := by
      rw [h.tick t ht]
      exact tickCmp_of_far (by omega) (by omega)
    have hahead : s.ahead (Tick.of (s.clock + timeoutMs.toNat)) = [] := by simp [ahead, hqueue, hfirst]
    have hbehind : s.behind (Tick.of (s.clock + timeoutMs.toNat)) = t :: ts := by simp [behind, hqueue, hfirst]
    rw [turnOf, hahead, turn] at hnear hnotLater
    have hle := hnotLater t (by rw [hbehind]; rfl)
    have hself : s.clock + 1 + remaining (Tick.of (s.clock + timeoutMs.toNat)) (Tick.of (s.clock + 1)) =
        max (s.clock + 1) (s.clock + timeoutMs.toNat) := add_remaining (by omega) hnear
    have hzero : remaining (s.wakeAtTick t) (Tick.of (s.clock + 1)) = 0 :=
      (h.remaining_eq_zero ht).mpr (by omega)
    omega

omit [DecidableEq τ] in
/-- In the window, a wait is in its turn when its timeout is in the window of the first task of the
queue. A timeout that is not longer than the longest sleep always is. -/
theorem Windowed.inTurn_iff (h : s.Windowed) : s.InTurn timeoutMs ↔ timeoutMs.toNat < 2 ^ 31 + s.slack :=
  ⟨fun hturn => Nat.lt_of_not_le fun hms => h.not_inTurn hms hturn, h.inTurn⟩

end Window

end SleepQueue

end Hopter.Time
