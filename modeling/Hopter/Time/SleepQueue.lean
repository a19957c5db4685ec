-- SUMMARY: The sleep queue without contention: tasks wake up exactly on time, however often the tick counter wraps.
import Hopter.Base.Run
import Hopter.Task.TaskList

/-!
# The sleep queue

`src/time/mod.rs` for operations that do not preempt each other. `TICKS` is the low 32
bits of a clock that does not wrap; the clock is history, and the code sees only `TICKS`.
The calls of `sleep_ms` and the tasks that are handed to the scheduler are recorded, so
that each call can be followed to its end.
-/

namespace Hopter.Time

open Hopter.Task

variable {τ : Type}

/-- A call of `sleep_ms` that puts the task to sleep. -/
structure Sleep (τ : Type) where
  task : τ
  /-- The clock when the call is made. -/
  start : Nat
  ms : Nat

/-- The time at which the task is to wake up. -/
def Sleep.due (c : Sleep τ) : Nat := c.start + c.ms

/-- `Scheduler::accept_task`, for the task of the given call of `sleep_ms`. -/
inductive Accepted where
  /-- By SysTick, which has set the clock to `clock`. -/
  | woken (call clock : Nat)
  /-- By `remove_task_from_sleep_queue_allow_isr`. -/
  | removed (call clock : Nat)

def Accepted.call : Accepted → Nat
  | .woken call _ | .removed call _ => call

structure SleepQueue (τ : Type) where
  timeSortedQueue : List τ
  deleteBuffer : List τ
  /-- The field `wake_at_tick` of the tasks. -/
  wakeAtTick : τ → Tick
  /-- History: the clock. -/
  clock : Nat
  /-- History: the calls of `sleep_ms`. -/
  calls : List (Sleep τ)
  /-- History: the last call of the task. -/
  callOf : τ → Nat
  /-- History: the tasks that were accepted by the scheduler. -/
  accepted : List Accepted

namespace SleepQueue

/-- `TICKS`. -/
def ticks (s : SleepQueue τ) : Tick := Tick.of s.clock

/-- The test of the loop of `wake_expired_tasks`. -/
def expired (s : SleepQueue τ) (t : τ) : Bool := tickCmp (s.wakeAtTick t) s.ticks != .gt

/-- `advance_tick`. -/
def advanceTick (s : SleepQueue τ) : SleepQueue τ := { s with clock := s.clock + 1 }

variable [DecidableEq τ]

/-- The second loop of `wake_expired_tasks`: what it takes out of the queue, and what
it leaves there. -/
def drainDeleteBuffer : List τ → List τ → List τ × List τ
  | [], queue => ([], queue)
  | t :: ts, queue =>
    match removeTask t queue with
    | some queue' => (t :: (drainDeleteBuffer ts queue').1, (drainDeleteBuffer ts queue').2)
    | none => drainDeleteBuffer ts queue

/-- `wake_expired_tasks`. -/
def wakeExpiredTasks (s : SleepQueue τ) : SleepQueue τ :=
  let woken := s.timeSortedQueue.takeWhile s.expired
  let drained := drainDeleteBuffer s.deleteBuffer (s.timeSortedQueue.dropWhile s.expired)
  { s with
    timeSortedQueue := drained.2
    deleteBuffer := []
    accepted := s.accepted ++ woken.map (fun t => .woken (s.callOf t) s.clock) ++
      drained.1.map fun t => .removed (s.callOf t) s.clock }

/-- `add_task_to_sleep_queue`, as part of `sleep_ms`. -/
def addTaskToSleepQueue (s : SleepQueue τ) (task : τ) (ms : Nat) (wakeAtTick : Tick) : SleepQueue τ :=
  let ticks := Function.update s.wakeAtTick task wakeAtTick
  { s with
    wakeAtTick := ticks
    timeSortedQueue := pushBackTickSorted ticks task s.timeSortedQueue
    calls := s.calls ++ [⟨task, s.clock, ms⟩]
    callOf := Function.update s.callOf task s.calls.length }

/-- `sleep_ms`. A task that is in the queue does not run; if it did, it would panic because
its link is in use. -/
def sleepMs (s : SleepQueue τ) (task : τ) (ms : BitVec 32) : Option (SleepQueue τ) :=
  if 2 ^ 31 - 1 < ms.toNat then some s
  else
    let wakeAtTick := s.ticks + ms
    if tickCmp s.ticks wakeAtTick = .lt then
      if task ∈ s.timeSortedQueue then none
      else some (s.addTaskToSleepQueue task ms.toNat wakeAtTick)
    else some s

/-- `remove_task_from_sleep_queue_allow_isr` with full access. -/
def removeTaskFromSleepQueue (s : SleepQueue τ) (task : τ) : SleepQueue τ :=
  match removeTask task s.timeSortedQueue with
  | some queue =>
    { s with
      timeSortedQueue := queue
      accepted := s.accepted ++ [.removed (s.callOf task) s.clock] }
  | none => s

inductive Op (τ : Type) where
  /-- SysTick. -/
  | sysTick
  | sleepMs (task : τ) (ms : BitVec 32)
  | remove (task : τ)

def step (s : SleepQueue τ) : Op τ → Option (SleepQueue τ)
  | .sysTick => some s.advanceTick.wakeExpiredTasks
  | .sleepMs task ms => s.sleepMs task ms
  | .remove task => some (s.removeTaskFromSleepQueue task)

/-- The queue at start. The counter may have any value. -/
def new (clock : Nat) (wakeAtTick : τ → Tick) : SleepQueue τ where
  timeSortedQueue := []
  deleteBuffer := []
  wakeAtTick := wakeAtTick
  clock := clock
  calls := []
  callOf _ := 0
  accepted := []

-- ---------------------------------------------------------------------------
-- The invariant
-- ---------------------------------------------------------------------------

/-- What happened to the task of a call. -/
def log (s : SleepQueue τ) (n : Nat) : List Accepted := s.accepted.filter fun a => a.call = n

/-- The time at which the task is to wake up, as of its last call. -/
def dueOf (s : SleepQueue τ) (t : τ) : Nat := (s.calls[s.callOf t]?.map Sleep.due).getD 0

/-- The order of the queue: by the time to wake up, and then by insertion. -/
def Before (s : SleepQueue τ) (t u : τ) : Prop :=
  s.dueOf t < s.dueOf u ∨ s.dueOf t = s.dueOf u ∧ s.callOf t < s.callOf u

/-- Where a call of `sleep_ms` can be. -/
inductive Fate (s : SleepQueue τ) (n : Nat) (c : Sleep τ) : Prop where
  | asleep (hmem : c.task ∈ s.timeSortedQueue) (hcall : s.callOf c.task = n)
      (hclock : s.clock < c.due) (hlog : s.log n = [])
  | woken (hclock : c.due ≤ s.clock) (hlog : s.log n = [.woken n c.due])
  | removed (clock : Nat) (hstart : c.start ≤ clock) (hdue : clock < c.due)
      (hlog : s.log n = [.removed n clock])

/-- The last call of a task in the queue. -/
structure Asleep (s : SleepQueue τ) (t : τ) (c : Sleep τ) : Prop where
  call : s.calls[s.callOf t]? = some c
  task : c.task = t
  tick : s.wakeAtTick t = Tick.of c.due
  start : c.start ≤ s.clock
  due : s.clock < c.due
  -- the window in which ticks can be compared
  window : c.ms < 2 ^ 31
  log : s.log (s.callOf t) = []

structure Inv (s : SleepQueue τ) : Prop where
  buffer : s.deleteBuffer = []
  nodup : s.timeSortedQueue.Nodup
  asleep : ∀ t ∈ s.timeSortedQueue, ∃ c, s.Asleep t c
  sorted : s.timeSortedQueue.Pairwise s.Before
  fate : ∀ n c, s.calls[n]? = some c → s.Fate n c
  calls : ∀ a ∈ s.accepted, a.call < s.calls.length

variable {s : SleepQueue τ} {t u : τ} {c d : Sleep τ}

omit [DecidableEq τ] in
theorem Before.trans {v : τ} (htu : s.Before t u) (huv : s.Before u v) : s.Before t v := by
  unfold Before at *
  omega

omit [DecidableEq τ] in
theorem Asleep.dueOf (h : s.Asleep t c) : s.dueOf t = c.due := by
  simp [SleepQueue.dueOf, h.call]

omit [DecidableEq τ] in
/-- Tasks in the queue have calls of their own. -/
theorem Asleep.eq_of_callOf (ht : s.Asleep t c) (hu : s.Asleep u d) (h : s.callOf t = s.callOf u) :
    t = u := by
  have hcd : c = d := Option.some.inj (by rw [← ht.call, ← hu.call, h])
  rw [← ht.task, ← hu.task, hcd]

omit [DecidableEq τ] in
/-- The ticks of two tasks in the queue compare as the times do. -/
theorem Asleep.tickCmp (ht : s.Asleep t c) (hu : s.Asleep u d) :
    tickCmp (s.wakeAtTick t) (s.wakeAtTick u) = compare c.due d.due := by
  have htime := ht.start
  have hutime := hu.start
  have htdue := ht.due
  have hudue := hu.due
  have htw := ht.window
  have huw := hu.window
  rw [ht.tick, hu.tick]
  unfold Sleep.due at *
  apply tickCmp_of <;> omega

-- ---------------------------------------------------------------------------
-- SysTick
-- ---------------------------------------------------------------------------

omit [DecidableEq τ] in
/-- A prefix of an ordered list. -/
theorem takeWhile_eq_filter {p : τ → Bool} {l : List τ} (h : l.Pairwise fun a b => p b = true → p a = true) :
    l.takeWhile p = l.filter p ∧ l.dropWhile p = l.filter (!p ·) := by
  induction l with
  | nil => exact ⟨rfl, rfl⟩
  | cons a l ih =>
    rw [List.pairwise_cons] at h
    obtain ⟨htake, hdrop⟩ := ih h.2
    cases hp : p a with
    | true => simp [hp, htake, hdrop]
    | false =>
      have hnone : ∀ b ∈ l, p b = false := fun b hb => by
        have := h.1 b hb
        simpa [hp] using this
      have hself : l.filter (!p ·) = l := List.filter_eq_self.mpr fun b hb => by simp [hnone b hb]
      simpa [hp, hself] using hnone

omit [DecidableEq τ] in
/-- The loop of `wake_expired_tasks` sees whether the time of a task has come. -/
theorem expired_eq_decide {due : Nat} (htick : s.wakeAtTick t = Tick.of due) (hlate : s.clock ≤ due + 2 ^ 31 - 1)
    (hfar : due ≤ s.clock + 2 ^ 31) : s.advanceTick.expired t = decide (due ≤ s.clock + 1) := by
  have hcmp : Time.tickCmp (s.wakeAtTick t) (Tick.of (s.clock + 1)) = compare due (s.clock + 1) := by
    rw [htick]
    apply tickCmp_of <;> omega
  change (Time.tickCmp (s.wakeAtTick t) (Tick.of (s.clock + 1)) != .gt) = _
  rw [hcmp]
  by_cases hle : due ≤ s.clock + 1
  · simp [hle, Nat.compare_eq_gt]
  · simp only [hle, decide_false, bne_eq_false_iff_eq]
    exact Nat.compare_eq_gt.mpr (by omega)

omit [DecidableEq τ] in
theorem Asleep.expired (h : s.Asleep t c) : s.advanceTick.expired t = decide (c.due ≤ s.clock + 1) := by
  have hstart := h.start
  have hdue := h.due
  have hwindow := h.window
  unfold Sleep.due at *
  exact expired_eq_decide h.tick (by omega) (by omega)

/-- What some tasks of the queue add to the log of a call. -/
theorem Inv.filter_call (h : s.Inv) {l : List τ} (hl : l.Sublist s.timeSortedQueue)
    (ht : t ∈ s.timeSortedQueue) (f : Nat → Accepted) (hf : ∀ n, (f n).call = n) :
    (l.map fun u => f (s.callOf u)).filter (fun a => a.call = s.callOf t) =
      if t ∈ l then [f (s.callOf t)] else [] := by
  obtain ⟨c, hc⟩ := h.asleep t ht
  have hiff : ∀ u ∈ l, decide (s.callOf u = s.callOf t) = decide (u = t) := by
    intro u hu
    obtain ⟨d, hd⟩ := h.asleep u (hl.subset hu)
    exact decide_eq_decide.mpr ⟨hd.eq_of_callOf hc, fun heq => by rw [heq]⟩
  rw [List.filter_map]
  simp only [Function.comp_def, hf]
  rw [List.filter_congr hiff, List.filter_eq]
  split
  · rename_i hmem
    rw [List.count_eq_one_of_mem (hl.nodup h.nodup) hmem]
    rfl
  · rename_i hmem
    rw [List.count_eq_zero_of_not_mem hmem]
    rfl

omit [DecidableEq τ] in
/-- A call whose task has left the queue gets no new entry in its log. -/
theorem Inv.filter_ended (h : s.Inv) {l : List τ} (hl : l.Sublist s.timeSortedQueue) {n : Nat}
    (hn : s.log n ≠ []) (f : Nat → Accepted) (hf : ∀ n, (f n).call = n) :
    (l.map fun u => f (s.callOf u)).filter (fun a => a.call = n) = [] := by
  rw [List.filter_eq_nil_iff]
  intro a ha
  obtain ⟨u, hu, rfl⟩ := List.mem_map.mp ha
  obtain ⟨d, hd⟩ := h.asleep u (hl.subset hu)
  simp only [hf, decide_eq_true_eq]
  rintro rfl
  exact hn hd.log

/-- What SysTick does to a queue in which the tasks whose time has come are in front. -/
theorem wakeExpiredTasks_eq_filter (hbuffer : s.deleteBuffer = [])
    (hsorted : s.timeSortedQueue.Pairwise fun a b => s.advanceTick.expired b = true → s.advanceTick.expired a = true) :
    s.advanceTick.wakeExpiredTasks =
      { s with
        clock := s.clock + 1
        timeSortedQueue := s.timeSortedQueue.filter (!s.advanceTick.expired ·)
        accepted := s.accepted ++ (s.timeSortedQueue.filter s.advanceTick.expired).map
          fun t => .woken (s.callOf t) (s.clock + 1) } := by
  obtain ⟨htake, hdrop⟩ := takeWhile_eq_filter hsorted
  have hbuffer' : s.advanceTick.deleteBuffer = [] := hbuffer
  have hqueue : s.advanceTick.timeSortedQueue = s.timeSortedQueue := rfl
  simp only [wakeExpiredTasks, hbuffer', hqueue, htake, hdrop, drainDeleteBuffer, List.map_nil,
    List.append_nil]
  simp only [advanceTick, hbuffer]

/-- What SysTick does to the queue: the tasks whose time has come are woken up. -/
theorem Inv.wakeExpiredTasks_eq (h : s.Inv) :
    s.advanceTick.wakeExpiredTasks =
      { s with
        clock := s.clock + 1
        timeSortedQueue := s.timeSortedQueue.filter (!s.advanceTick.expired ·)
        accepted := s.accepted ++ (s.timeSortedQueue.filter s.advanceTick.expired).map
          fun t => .woken (s.callOf t) (s.clock + 1) } := by
  refine wakeExpiredTasks_eq_filter h.buffer (h.sorted.imp_of_mem fun {a b} ha hb hab hexp => ?_)
  obtain ⟨c, hc⟩ := h.asleep a ha
  obtain ⟨d, hd⟩ := h.asleep b hb
  rw [hd.expired, decide_eq_true_eq] at hexp
  rw [hc.expired, decide_eq_true_eq]
  unfold Before at hab
  rw [hc.dueOf, hd.dueOf] at hab
  omega

theorem Inv.sysTick (h : s.Inv) : s.advanceTick.wakeExpiredTasks.Inv := by
  rw [h.wakeExpiredTasks_eq]
  have hlog : ∀ n, SleepQueue.log { s with
      clock := s.clock + 1
      timeSortedQueue := s.timeSortedQueue.filter (!s.advanceTick.expired ·)
      accepted := s.accepted ++ (s.timeSortedQueue.filter s.advanceTick.expired).map
        fun t => .woken (s.callOf t) (s.clock + 1) } n = s.log n ++
      ((s.timeSortedQueue.filter s.advanceTick.expired).map fun t =>
        Accepted.woken (s.callOf t) (s.clock + 1)).filter (fun a => a.call = n) :=
    fun n => List.filter_append ..
  have hlate : ∀ t ∈ s.timeSortedQueue.filter (!s.advanceTick.expired ·), ∀ c, s.Asleep t c →
      s.clock + 1 < c.due := by
    intro t ht c hc
    have := (List.mem_filter.mp ht).2
    simpa [hc.expired] using this
  refine ⟨h.buffer, h.nodup.filter _, fun t ht => ?_, (h.sorted.filter _).imp fun hab => hab,
    fun n c hn => ?_, fun a ha => ?_⟩
  · obtain ⟨c, hc⟩ := h.asleep t (List.mem_filter.mp ht).1
    refine ⟨c, hc.call, hc.task, hc.tick, Nat.le_succ_of_le hc.start, hlate t ht c hc, hc.window, ?_⟩
    rw [hlog, hc.log, h.filter_call List.filter_sublist (List.mem_filter.mp ht).1
      (fun n => .woken n (s.clock + 1)) fun _ => rfl, if_neg]
    · rfl
    · intro hmem
      have hexp := (List.mem_filter.mp hmem).2
      rw [hc.expired, decide_eq_true_eq] at hexp
      have := hlate t ht c hc
      omega
  · cases h.fate n c hn with
    | asleep hmem hcall hclock hnil =>
      obtain ⟨d, hd⟩ := h.asleep c.task hmem
      obtain rfl : d = c := Option.some.inj (by rw [← hd.call, hcall, hn])
      by_cases hdue : d.due ≤ s.clock + 1
      · have hexp : s.advanceTick.expired d.task = true := by simpa [hd.expired] using hdue
        obtain heq : d.due = s.clock + 1 := by omega
        refine .woken hdue ?_
        rw [hlog, hnil, ← hcall, h.filter_call List.filter_sublist hmem
          (fun n => .woken n (s.clock + 1)) (fun _ => rfl), if_pos (List.mem_filter.mpr ⟨hmem, hexp⟩), heq]
        rfl
      · have hexp : s.advanceTick.expired d.task = false := by simpa [hd.expired] using hdue
        refine .asleep (List.mem_filter.mpr ⟨hmem, by simp [hexp]⟩) hcall (Nat.lt_of_not_le hdue) ?_
        rw [hlog, hnil, ← hcall, h.filter_call List.filter_sublist hmem
          (fun n => .woken n (s.clock + 1)) (fun _ => rfl), if_neg]
        · rfl
        · intro hwoken
          simp [hexp] at hwoken
    | woken hclock hwoken =>
      refine .woken (Nat.le_succ_of_le hclock) ?_
      rw [hlog, h.filter_ended List.filter_sublist (by simp [hwoken]) (fun n => .woken n (s.clock + 1))
        fun _ => rfl, hwoken, List.append_nil]
    | removed clock hstart hdue hremoved =>
      refine .removed clock hstart hdue ?_
      rw [hlog, h.filter_ended List.filter_sublist (by simp [hremoved])
        (fun n => .woken n (s.clock + 1)) fun _ => rfl, hremoved, List.append_nil]
  · rcases List.mem_append.mp ha with ha | ha
    · exact h.calls a ha
    · obtain ⟨t, ht, rfl⟩ := List.mem_map.mp ha
      obtain ⟨c, hc⟩ := h.asleep t (List.mem_filter.mp ht).1
      exact (List.getElem?_eq_some_iff.mp hc.call).1

-- ---------------------------------------------------------------------------
-- Sleeping and removal
-- ---------------------------------------------------------------------------

/-- A task goes to sleep. -/
theorem Inv.addTaskToSleepQueue (h : s.Inv) {ms : Nat} (ht : t ∉ s.timeSortedQueue) (hpos : 0 < ms)
    (hms : ms < 2 ^ 31) : (s.addTaskToSleepQueue t ms (Tick.of (s.clock + ms))).Inv := by
  have hne : ∀ u ∈ s.timeSortedQueue, u ≠ t := fun u hu heq => ht (heq ▸ hu)
  have hperm := pushBackTickSorted_perm (Function.update s.wakeAtTick t (Tick.of (s.clock + ms))) t
    s.timeSortedQueue
  have hcall : ∀ a ∈ s.accepted, a.call ≠ s.calls.length := fun a ha => Nat.ne_of_lt (h.calls a ha)
  have hnew : (s.addTaskToSleepQueue t ms (Tick.of (s.clock + ms))).Asleep t ⟨t, s.clock, ms⟩ := by
    refine ⟨by simp [SleepQueue.addTaskToSleepQueue], rfl, by simp [SleepQueue.addTaskToSleepQueue, Sleep.due],
      Nat.le_refl _, Nat.lt_add_of_pos_right hpos, hms, ?_⟩
    simpa [SleepQueue.log, SleepQueue.addTaskToSleepQueue] using hcall
  have hold : ∀ u ∈ s.timeSortedQueue, ∀ c, s.Asleep u c →
      (s.addTaskToSleepQueue t ms (Tick.of (s.clock + ms))).Asleep u c := by
    intro u hu c hc
    have hlt := (List.getElem?_eq_some_iff.mp hc.call).1
    refine ⟨?_, hc.task, ?_, hc.start, hc.due, hc.window, ?_⟩
    · simpa [SleepQueue.addTaskToSleepQueue, hne u hu, List.getElem?_append_left hlt] using hc.call
    · simpa [SleepQueue.addTaskToSleepQueue, hne u hu] using hc.tick
    · simpa [SleepQueue.addTaskToSleepQueue, SleepQueue.log, hne u hu] using hc.log
  refine ⟨h.buffer, ?_, fun u hu => ?_, ?_, fun n c hn => ?_, fun a ha => ?_⟩
  · exact hperm.nodup_iff.mpr (List.nodup_cons.mpr ⟨ht, h.nodup⟩)
  · rcases List.mem_cons.mp (hperm.mem_iff.mp hu) with rfl | hu
    · exact ⟨_, hnew⟩
    · obtain ⟨c, hc⟩ := h.asleep u hu
      exact ⟨c, hold u hu c hc⟩
  · -- The new task goes behind all that wake up at the same time.
    have hbehind : ∀ u ∈ s.timeSortedQueue, ∃ c, (s.addTaskToSleepQueue t ms
        (Tick.of (s.clock + ms))).Asleep u c ∧ s.callOf u < s.calls.length := by
      intro u hu
      obtain ⟨c, hc⟩ := h.asleep u hu
      exact ⟨c, hold u hu c hc, (List.getElem?_eq_some_iff.mp hc.call).1⟩
    refine pushBackTickSorted_pairwise Before.trans ?_ (fun u hu hcmp => ?_) fun u hu hcmp => ?_
    · refine h.sorted.imp_of_mem fun {a b} ha hb hab => ?_
      obtain ⟨c, hc⟩ := h.asleep a ha
      obtain ⟨d, hd⟩ := h.asleep b hb
      unfold Before at hab ⊢
      rw [(hold a ha c hc).dueOf, (hold b hb d hd).dueOf]
      rw [hc.dueOf, hd.dueOf] at hab
      simpa [SleepQueue.addTaskToSleepQueue, hne a ha, hne b hb] using hab
    · obtain ⟨c, hc, -⟩ := hbehind u hu
      have hlt := (hnew.tickCmp hc).symm.trans hcmp
      rw [Nat.compare_eq_lt] at hlt
      exact Or.inl (by rw [hnew.dueOf, hc.dueOf]; exact hlt)
    · obtain ⟨c, hc, hlen⟩ := hbehind u hu
      have hge : ¬ compare (Sleep.due ⟨t, s.clock, ms⟩) c.due = .lt := fun hlt =>
        hcmp ((hnew.tickCmp hc).trans hlt)
      rw [Nat.compare_eq_lt] at hge
      unfold Before
      rw [hnew.dueOf, hc.dueOf]
      have hcallOf : (s.addTaskToSleepQueue t ms (Tick.of (s.clock + ms))).callOf u <
          (s.addTaskToSleepQueue t ms (Tick.of (s.clock + ms))).callOf t := by
        simpa [SleepQueue.addTaskToSleepQueue, hne u hu] using hlen
      omega
  · rcases Nat.lt_or_ge n s.calls.length with hlt | hge
    · have hn' : s.calls[n]? = some c := by
        rw [← hn]
        exact (List.getElem?_append_left hlt).symm
      cases h.fate n c hn' with
      | asleep hmem hcallOf hclock hnil =>
        refine .asleep (hperm.mem_iff.mpr (List.mem_cons_of_mem _ hmem)) ?_ hclock hnil
        exact (Function.update_of_ne (hne _ hmem) _ _).trans hcallOf
      | woken hclock hwoken => exact .woken hclock hwoken
      | removed clock hstart hdue hremoved => exact .removed clock hstart hdue hremoved
    · have hlen := (List.getElem?_eq_some_iff.mp hn).1
      simp only [SleepQueue.addTaskToSleepQueue, List.length_append, List.length_singleton] at hlen
      obtain rfl : n = s.calls.length := by omega
      obtain rfl : c = ⟨t, s.clock, ms⟩ := by simpa [SleepQueue.addTaskToSleepQueue] using hn.symm
      have hcallOf : (s.addTaskToSleepQueue t ms (Tick.of (s.clock + ms))).callOf t = s.calls.length :=
        Function.update_self ..
      refine .asleep (hperm.mem_iff.mpr (List.mem_cons_self ..)) hcallOf hnew.due ?_
      rw [← hcallOf]
      exact hnew.log
  · have := h.calls a ha
    simp only [SleepQueue.addTaskToSleepQueue, List.length_append, List.length_singleton]
    omega

theorem Inv.sleepMs {s' : SleepQueue τ} {ms : BitVec 32} (h : s.Inv) (hstep : s.sleepMs t ms = some s') :
    s'.Inv := by
  unfold SleepQueue.sleepMs at hstep
  split at hstep
  · cases hstep
    exact h
  · rename_i hmax
    have hwake : s.ticks + ms = Tick.of (s.clock + ms.toNat) := by
      unfold SleepQueue.ticks Tick.of
      apply BitVec.eq_of_toNat_eq
      simp
    dsimp only at hstep
    split at hstep
    · rename_i hcmp
      split at hstep
      · cases hstep
      · rename_i hmem
        cases hstep
        rw [hwake, SleepQueue.ticks, tickCmp_of (by omega) (by omega), Nat.compare_eq_lt] at hcmp
        rw [hwake]
        exact h.addTaskToSleepQueue hmem (by omega) (by omega)
    · cases hstep
      exact h

/-- A task is woken up before its time. -/
theorem Inv.remove (h : s.Inv) : (s.removeTaskFromSleepQueue t).Inv := by
  unfold SleepQueue.removeTaskFromSleepQueue
  rw [removeTask_eq]
  by_cases ht : t ∈ s.timeSortedQueue
  swap
  · rw [if_neg ht]
    exact h
  obtain ⟨e, he⟩ := h.asleep t ht
  have hsub : (s.timeSortedQueue.erase t).Sublist s.timeSortedQueue := List.erase_sublist
  have hlog : ∀ n, SleepQueue.log { s with
      timeSortedQueue := s.timeSortedQueue.erase t
      accepted := s.accepted ++ [.removed (s.callOf t) s.clock] } n =
      s.log n ++ if s.callOf t = n then [.removed (s.callOf t) s.clock] else [] := by
    intro n
    by_cases hn : s.callOf t = n <;> simp [SleepQueue.log, Accepted.call, hn]
  rw [if_pos ht]
  dsimp only
  refine ⟨h.buffer, h.nodup.sublist hsub, fun u hu => ?_, h.sorted.sublist hsub, fun n c hn => ?_,
    fun a ha => ?_⟩
  · obtain ⟨c, hc⟩ := h.asleep u (hsub.subset hu)
    have hne : ¬ s.callOf t = s.callOf u := fun heq =>
      (h.nodup.mem_erase_iff.mp hu).1 (he.eq_of_callOf hc heq).symm
    refine ⟨c, hc.call, hc.task, hc.tick, hc.start, hc.due, hc.window, ?_⟩
    rw [hlog, if_neg hne, List.append_nil]
    exact hc.log
  · by_cases hcall : s.callOf t = n
    · subst hcall
      obtain rfl : e = c := Option.some.inj (by rw [← he.call, hn])
      refine .removed s.clock he.start he.due ?_
      rw [hlog, he.log, if_pos rfl]
      rfl
    · have hlog' := hlog n
      rw [if_neg hcall, List.append_nil] at hlog'
      cases h.fate n c hn with
      | asleep hmem hcallOf hclock hnil =>
        have hne : c.task ≠ t := fun heq => hcall (by rw [← heq, hcallOf])
        exact .asleep (h.nodup.mem_erase_iff.mpr ⟨hne, hmem⟩) hcallOf hclock (hlog'.trans hnil)
      | woken hclock hwoken => exact .woken hclock (hlog'.trans hwoken)
      | removed clock hstart hdue hremoved => exact .removed clock hstart hdue (hlog'.trans hremoved)
  · rcases List.mem_append.mp ha with ha | ha
    · exact h.calls a ha
    · rw [List.mem_singleton.mp ha]
      exact (List.getElem?_eq_some_iff.mp he.call).1

-- ---------------------------------------------------------------------------
-- Runs
-- ---------------------------------------------------------------------------

theorem inv_step {s' : SleepQueue τ} {op : Op τ} (h : s.Inv) (hstep : s.step op = some s') : s'.Inv := by
  cases op with
  | sysTick =>
    cases hstep
    exact h.sysTick
  | sleepMs t ms => exact h.sleepMs hstep
  | remove t =>
    cases hstep
    exact h.remove

omit [DecidableEq τ] in
theorem inv_new (clock : Nat) (wakeAtTick : τ → Tick) : (new clock wakeAtTick).Inv where
  buffer := rfl
  nodup := List.nodup_nil
  asleep := by simp [new]
  sorted := List.Pairwise.nil
  fate := by simp [new]
  calls := by simp [new]

/-- The queue is sorted by absolute time, with equal times in the order of insertion, and
every call of `sleep_ms` is on time: until the clock has reached `start + ms` its task
sleeps, the SysTick that makes the clock `start + ms` hands it to the scheduler, and nobody
does so a second time; or it was removed before that. -/
structure OnTime (s : SleepQueue τ) : Prop where
  sorted : s.timeSortedQueue.Pairwise s.Before
  fate : ∀ n c, s.calls[n]? = some c → s.Fate n c

/-- The queue is exact in every run, from every value of the counter on. -/
theorem exec_onTime {clock : Nat} {wakeAtTick : τ → Tick} {ops : List (Op τ)} {s : SleepQueue τ}
    (hrun : Run.exec step (new clock wakeAtTick) ops = some s) : s.OnTime := by
  have hinv := Run.exec_inv Inv inv_step (inv_new clock wakeAtTick) hrun
  exact ⟨hinv.sorted, hinv.fate⟩

/-- Three tasks around the wrap of the counter, of which one is removed. -/
theorem exec_onTime_wrap :
    ∃ s, Run.exec step (new (2 ^ 32 - 2) fun _ : Nat => 0)
      [.sleepMs 0 3, .sleepMs 1 1, .sleepMs 2 3, .sysTick, .remove 0, .sysTick, .sysTick] = some s ∧
    s.accepted = [.woken 1 (2 ^ 32 - 1), .removed 0 (2 ^ 32 - 1), .woken 2 (2 ^ 32 + 1)] ∧ s.OnTime := by
  have hrun : (Run.exec step (new (2 ^ 32 - 2) fun _ : Nat => 0)
      [.sleepMs 0 3, .sleepMs 1 1, .sleepMs 2 3, .sysTick, .remove 0, .sysTick, .sysTick]).map accepted =
      some [.woken 1 (2 ^ 32 - 1), .removed 0 (2 ^ 32 - 1), .woken 2 (2 ^ 32 + 1)] := by rfl
  obtain ⟨s, hs, haccepted⟩ := Option.map_eq_some_iff.mp hrun
  exact ⟨s, hs, haccepted, exec_onTime hs⟩

end SleepQueue

end Hopter.Time
