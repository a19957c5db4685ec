-- SUMMARY: Everything that an atomic step of the kernel queues can do.
import Hopter.Kernel.Queues

/-!
# Outcomes of steps

The steps of the kernel queues, listed with their conditions and results. All invariants
are derived from this list.
-/

namespace Hopter.Kernel

open Exec Hopter.Task Hopter.Time

variable {τ W B : Type} [DecidableEq τ] [DecidableEq W] [DecidableEq B]

/-- What a step can do, other than ending the system. -/
inductive Outcome (C : Config) (c : Content τ W B) :
    Body τ W B → Content τ W B → List (KCode τ W B) → Prop where
  | cleanUpRunning (hspin : c.spin .ready = false) (hstate : c.state c.cur = .running)
      (hlinked : c.linked c.cur = false) :
    Outcome C c .cleanUp
      { ((c.setSpin .ready true).setState c.cur .ready).setLinked c.cur true with
        readyLinkedList := c.readyLinkedList ++ [c.cur] } [.body .popNext]
  | cleanUp (hspin : c.spin .ready = false) (hstate : c.state c.cur ≠ .running)
      (hinit : c.state c.cur ≠ .initializing) :
    Outcome C c .cleanUp (c.setSpin .ready true) [.body .popNext]
  | popNext {t rest} (hpop : popHighestPriority c.priority c.readyLinkedList = some (t, rest)) :
    Outcome C c .popNext
      { (c.setLinked t false).setState t .running with readyLinkedList := rest }
      [.body (.updateCurTask t)]
  | updateCurTask {t} : Outcome C c (.updateCurTask t) { c with cur := t } [.body .clearRequest]
  | clearRequest :
    Outcome C c .clearRequest { c with switchDue := false } [.body (.unlockSpin .ready)]
  | acceptNew {t} (hnew : c.spawned t = false) :
    Outcome C c (.acceptNew t) { c with spawned := Function.update c.spawned t true }
      [.body (.checkPreempt t)]
  | checkPreempt {t} : Outcome C c (.checkPreempt t) (c.request C t) [.body (.pushReady t)]
  | pushReady {t} (hspin : c.spin .ready = false) (hlinked : c.linked t = false) :
    Outcome C c (.pushReady t)
      { ((c.setSpin .ready true).setState t .ready).setLinked t true with
        readyLinkedList := c.readyLinkedList ++ [t] } [.body (.unlockSpin .ready)]
  | enqueue {t} :
    Outcome C c (.enqueue t) { c with insertBuffer := c.insertBuffer ++ [t] } []
  | enqueueNew {t} (hnew : c.spawned t = false) :
    Outcome C c (.enqueueNew t)
      { c with
        spawned := Function.update c.spawned t true
        insertBuffer := c.insertBuffer ++ [t] } []
  | lockReady (hspin : c.spin .ready = false) :
    Outcome C c .lockReady (c.setSpin .ready true) [.body .dequeue]
  | dequeueNone (hbuffer : c.insertBuffer = []) :
    Outcome C c .dequeue c [.body (.unlockSpin .ready)]
  | dequeue {t rest} (hbuffer : c.insertBuffer = t :: rest) :
    Outcome C c .dequeue { c with insertBuffer := rest } [.body (.pushPended t)]
  | pushPended {t} (hlinked : c.linked t = false) :
    Outcome C c (.pushPended t)
      { ((c.request C t).setState t .ready).setLinked t true with
        readyLinkedList := c.readyLinkedList ++ [t] } [.body .dequeue]
  | loadTicks {p} (hspin : c.spin .sleep = false) :
    Outcome C c (.loadTicks p) (c.setSpin .sleep true) [.body (.wakeLoop c.clock p)]
  | wake {now p t rest} (hqueue : c.timeSortedQueue = t :: rest) (hexp : c.expired now t = true) :
    Outcome C c (.wakeLoop now p) (c.unlinkSleeping t rest)
      [.access .ready false (.acceptTask t), .body (.wakeLoop now p)]
  | wakeEnd {now p}
      (hqueue : ∀ t rest, c.timeSortedQueue = t :: rest → c.expired now t = false) :
    Outcome C c (.wakeLoop now p) c [.body (.deleteLoop now p)]
  | delete {now p t rest} (hbuffer : c.deleteBuffer = t :: rest) (hmem : t ∈ c.timeSortedQueue) :
    Outcome C c (.deleteLoop now p)
      { c.unlinkSleeping t (c.timeSortedQueue.erase t) with deleteBuffer := rest }
      [.access .ready false (.acceptTask t), .body (.deleteLoop now p)]
  | deleteNone {now p t rest} (hbuffer : c.deleteBuffer = t :: rest)
      (hmem : t ∉ c.timeSortedQueue) :
    Outcome C c (.deleteLoop now p) { c with deleteBuffer := rest } [.body (.deleteLoop now p)]
  | deleteEnd {now p} (hbuffer : c.deleteBuffer = []) :
    Outcome C c (.deleteLoop now p) c [.body (.endWake now p)]
  | endWakePended {now} :
    Outcome C c (.endWake now true) (c.setSpin .sleep false) [.body (.clearTimeToWakeup now)]
  | endWake {now} : Outcome C c (.endWake now false) (c.setSpin .sleep false) []
  | timeToWakeup (hflag : c.timeToWakeup = true) :
    Outcome C c .loadTimeToWakeup c [.body (.loadTicks true)]
  | noTimeToWakeup (hflag : c.timeToWakeup = false) : Outcome C c .loadTimeToWakeup c []
  | clearTimeToWakeup {now} :
    Outcome C c (.clearTimeToWakeup now) { c with timeToWakeup := false } []
  | setTimeToWakeup :
    Outcome C c .setTimeToWakeup { c with timeToWakeup := true, lastPended := some c.clock } []
  | pushSorted {t due} (hspin : c.spin .sleep = false) (hlinked : c.linked t = false) :
    Outcome C c (.pushSorted t due)
      { (c.setSpin .sleep true).setLinked t true with
        due := Function.update c.due t due
        timeSortedQueue := pushBackTickSorted (fun u => Tick.of (Function.update c.due t due u)) t
          c.timeSortedQueue } [.body (.unlockSpin .sleep)]
  | remove {t} (hspin : c.spin .sleep = false) (hmem : t ∈ c.timeSortedQueue) :
    Outcome C c (.remove t)
      ((c.setSpin .sleep true).unlinkSleeping t (c.timeSortedQueue.erase t))
      [.access .ready false (.acceptTask t), .body (.unlockSpin .sleep)]
  | removeNone {t} (hspin : c.spin .sleep = false) (hmem : t ∉ c.timeSortedQueue) :
    Outcome C c (.remove t) (c.setSpin .sleep true) [.body (.unlockSpin .sleep)]
  | enqueueDelete {t} :
    Outcome C c (.enqueueDelete t) { c with deleteBuffer := c.deleteBuffer ++ [t] } []
  | pushWait {w} (hspin : c.spin (.waitQueue w) = false) (hlinked : c.linked c.cur = false) :
    Outcome C c (.pushWait w)
      { ((c.setState c.cur .blocked).setSpin (.waitQueue w) true).setLinked c.cur true with
        queue := Function.update c.queue w (c.queue w ++ [c.cur]) }
      [.body (.unlockSpin (.waitQueue w))]
  | conditionMet {w} (hspin : c.spin (.waitQueue w) = false) :
    Outcome C c (.checkCondition w) ((c.setSpin (.waitQueue w) true).setShouldBlock false)
      [.body (.unlockSpin (.waitQueue w))]
  | conditionNotMet {w} (hspin : c.spin (.waitQueue w) = false) (hlinked : c.linked c.cur = false) :
    Outcome C c (.checkCondition w)
      { (((c.setSpin (.waitQueue w) true).setShouldBlock true).setState c.cur .blocked).setLinked
          c.cur true with
        queue := Function.update c.queue w (c.queue w ++ [c.cur]) }
      [.body (.unlockSpin (.waitQueue w))]
  | popNotify {w t rest} (hspin : c.spin (.waitQueue w) = false)
      (hpop : popHighestPriority c.priority (c.queue w) = some (t, rest)) :
    Outcome C c (.popNotify w) ((c.setSpin (.waitQueue w) true).unlinkQueue w t rest)
      [.access .ready false (.acceptTask t), .body (.unlockSpin (.waitQueue w))]
  | popNotifyNone {w} (hspin : c.spin (.waitQueue w) = false) :
    Outcome C c (.popNotify w) (c.setSpin (.waitQueue w) true) [.body (.unlockSpin (.waitQueue w))]
  | addNotify {w} :
    Outcome C c (.addNotify w)
      { c with notifyCnt := Function.update c.notifyCnt w (c.notifyCnt w + 1) } []
  | swapNotifyCnt {w} (hspin : c.spin (.waitQueue w) = false) :
    Outcome C c (.swapNotifyCnt w)
      { c.setSpin (.waitQueue w) true with notifyCnt := Function.update c.notifyCnt w 0 }
      [.body (.popNotified w (c.notifyCnt w))]
  | popNotified {w n t rest} (hpop : popHighestPriority c.priority (c.queue w) = some (t, rest)) :
    Outcome C c (.popNotified w (n + 1)) (c.unlinkQueue w t rest)
      [.access .ready false (.acceptTask t), .body (.popNotified w n)]
  | popNotifiedEnd {w n} : Outcome C c (.popNotified w n) c [.body (.unlockSpin (.waitQueue w))]
  | count {m} (hspin : c.spin (.mailbox m) = false) (hwait : c.waitTask m = .noTask)
      (hcount : 0 < c.count m) :
    Outcome C c (.checkCount m)
      ((((c.setSpin (.mailbox m) true).setCount m (c.count m - 1)).setShouldBlock false).receive m)
      [.body (.unlockSpin (.mailbox m))]
  | block {m} (hspin : c.spin (.mailbox m) = false) (hwait : c.waitTask m = .noTask)
      (hcount : c.count m = 0) :
    Outcome C c (.checkCount m)
      ((((c.setSpin (.mailbox m) true).setState c.cur .blocked).setWaitTask m
        (.withoutTimeout c.cur)).setShouldBlock true)
      [.body (.unlockSpin (.mailbox m))]
  | countTimeout {m ms} (hspin : c.spin (.mailbox m) = false) (hwait : c.waitTask m = .noTask)
      (hcount : 0 < c.count m) :
    Outcome C c (.checkCountTimeout m ms)
      { (((c.setSpin (.mailbox m) true).setCount m (c.count m - 1)).setShouldBlock false).receive m with
        returns := c.returns ++ [⟨m, true, true, c.clock + ms.toNat, c.clock⟩] }
      [.body (.unlockSpin (.mailbox m))]
  | blockTimeout {m ms} (hspin : c.spin (.mailbox m) = false) (hwait : c.waitTask m = .noTask)
      (hcount : c.count m = 0) :
    Outcome C c (.checkCountTimeout m ms)
      { (((c.setSpin (.mailbox m) true).setState c.cur .blocked).setWaitTask m
          (.withTimeout c.cur)).setShouldBlock true with
        taskNotified := Function.update c.taskNotified m false }
      [.body (.deadline m c.cur ms)]
  | deadline {m t ms} :
    Outcome C c (.deadline m t ms) c
      [.access .sleep true (.addTask t (c.clock + ms.toNat)), .body (.unlockSpin (.mailbox m))]
  | takeNotified {m} (hspin : c.spin (.mailbox m) = false) (hnotified : c.taskNotified m = true) :
    Outcome C c (.takeResult m)
      (Content.receive
        { (c.setSpin (.mailbox m) true).setWaitTask m .noTask with
          returns := c.returns ++ [⟨m, true, c.handed m, c.due c.cur, c.clock⟩] } m)
      [.body (.unlockSpin (.mailbox m))]
  | takeTimeout {m} (hspin : c.spin (.mailbox m) = false) (hnotified : c.taskNotified m = false) :
    Outcome C c (.takeResult m)
      { (c.setSpin (.mailbox m) true).setWaitTask m .noTask with
        returns := c.returns ++ [⟨m, false, c.handed m, c.due c.cur, c.clock⟩] }
      [.body (.unlockSpin (.mailbox m))]
  | notifyTimeout {m t} (hspin : c.spin (.mailbox m) = false) (hwait : c.waitTask m = .withTimeout t) :
    Outcome C c (.takeWaiter m)
      ((((c.issue m).setSpin (.mailbox m) true).setWaitTask m .noTask).hand m)
      [.access .sleep false (.removeTask t), .body (.setNotified m)]
  | notifyWaiter {m t} (hspin : c.spin (.mailbox m) = false)
      (hwait : c.waitTask m = .withoutTimeout t) :
    Outcome C c (.takeWaiter m)
      ((((c.issue m).setSpin (.mailbox m) true).setWaitTask m .noTask).hand m)
      [.access .ready false (.acceptTask t), .body (.unlockSpin (.mailbox m))]
  | notifyCount {m} (hspin : c.spin (.mailbox m) = false) (hwait : c.waitTask m = .noTask) :
    Outcome C c (.takeWaiter m)
      (((c.issue m).setSpin (.mailbox m) true).setCount m (c.count m + 1))
      [.body (.unlockSpin (.mailbox m))]
  | setNotified {m} :
    Outcome C c (.setNotified m)
      { c with taskNotified := Function.update c.taskNotified m true }
      [.body (.unlockSpin (.mailbox m))]
  | addPending {m} :
    Outcome C c (.addPending m)
      { c.issue m with pendingCount := Function.update c.pendingCount m (c.pendingCount m + 1) } []
  | swapPendingCount {m} :
    Outcome C c (.swapPendingCount m)
      { c with pendingCount := Function.update c.pendingCount m 0 }
      [.body (.addCount m (c.pendingCount m))]
  | addCount {m n} :
    Outcome C c (.addCount m n) (c.setCount m (c.count m + n)) [.body (.takePended m)]
  | pendedTimeout {m t} (hspin : c.spin (.mailbox m) = false) (hwait : c.waitTask m = .withTimeout t) :
    Outcome C c (.takePended m) (((c.setSpin (.mailbox m) true).setWaitTask m .noTask).hand m)
      [.access .sleep false (.removeTask t), .body (.subCount m true)]
  | pendedWaiter {m t} (hspin : c.spin (.mailbox m) = false)
      (hwait : c.waitTask m = .withoutTimeout t) :
    Outcome C c (.takePended m) (((c.setSpin (.mailbox m) true).setWaitTask m .noTask).hand m)
      [.access .ready false (.acceptTask t), .body (.subCount m false)]
  | pendedNone {m} (hspin : c.spin (.mailbox m) = false) (hwait : c.waitTask m = .noTask) :
    Outcome C c (.takePended m) (c.setSpin (.mailbox m) true) [.body (.unlockSpin (.mailbox m))]
  | subCount {m p} :
    Outcome C c (.subCount m p)
      (c.setCount m (if c.count m = 0 then 2 ^ 32 - 1 else c.count m - 1))
      [.body (if p = true then .setNotified m else .unlockSpin (.mailbox m))]
  | unlockSpin {l} : Outcome C c (.unlockSpin l) (c.setSpin l false) []
  | app (call : Call τ W B) : Outcome C c .app c call.code
  | idle : Outcome C c .idle c [.body .idle]
  | sleepMs {ms} (hms : ms.toNat ≤ 2 ^ 31 - 1) :
    Outcome C c (.sleepMs ms) c [.body (.sleepCheck (c.clock + ms.toNat))]
  | tooLong {ms} : Outcome C c (.sleepMs ms) c []
  | sleep {due} (hlt : tickCmp (Tick.of c.clock) (Tick.of due) = .lt) :
    Outcome C c (.sleepCheck due) c [.mayBlock, .suspended (.addCurTask due), .yield]
  | noSleep {due} : Outcome C c (.sleepCheck due) c []
  | addCurTask {due} :
    Outcome C c (.addCurTask due) (c.setState c.cur .blocked)
      [.access .sleep true (.addTask c.cur due)]
  | retry {w} (hblock : c.shouldBlock c.cur = true) :
    Outcome C c (.waitedUntil w) c
      [.yield, .mayBlock, .access (.waitQueue w) true .waitUntil, .body (.waitedUntil w)]
  | waitedUntil {w} : Outcome C c (.waitedUntil w) c []
  | yield {m} (hblock : c.shouldBlock c.cur = true) :
    Outcome C c (.waited m) c [.yield, .body (.resumed m)]
  | waited {m} : Outcome C c (.waited m) c []
  | resumed {m} : Outcome C c (.resumed m) (c.receive m) []
  | yieldTimeout {m} (hblock : c.shouldBlock c.cur = true) :
    Outcome C c (.waitedTimeout m) c [.yield, .access (.mailbox m) true .timeoutOver]
  | waitedTimeout {m} : Outcome C c (.waitedTimeout m) c []
  | changePriority {prio} (hprio : prio < C.taskPriorityLevels - 1) :
    Outcome C c (.changeCurrentPriority prio) c [.suspended (.changeIntrinsicPriority prio), .yield]
  | notAllowed {prio} : Outcome C c (.changeCurrentPriority prio) c []
  | changeIntrinsicPriority {prio} :
    Outcome C c (.changeIntrinsicPriority prio)
      { c with priority := Function.update c.priority c.cur prio } []
  | dropCurrentTask : Outcome C c .dropCurrentTask (c.setState c.cur .destructing) []
  | advanceTick : Outcome C c .advanceTick { c with clock := c.clock + 1 } []

-- ---------------------------------------------------------------------------
-- Inversion
-- ---------------------------------------------------------------------------

namespace Content

variable {c c' : Content τ W B} {l : Lock W B} {t : τ} {w : W}

omit [DecidableEq τ] in
theorem lockNowOrDie_eq : c.lockNowOrDie l = some c' ↔ c.spin l = false ∧ c.setSpin l true = c' := by
  unfold lockNowOrDie
  split <;> simp [*]

omit [DecidableEq W] [DecidableEq B] in
theorem link_eq : c.link t = some c' ↔ c.linked t = false ∧ c.setLinked t true = c' := by
  unfold link
  split <;> simp [*]

omit [DecidableEq W] [DecidableEq B] in
theorem spawn_eq : c.spawn t = some c' ↔
    c.spawned t = false ∧ { c with spawned := Function.update c.spawned t true } = c' := by
  unfold spawn
  split <;> simp [*]

omit [DecidableEq W] [DecidableEq B] in
theorem pushBackReady_eq : c.pushBackReady t = some c' ↔ c.linked t = false ∧
    { c.setLinked t true with readyLinkedList := c.readyLinkedList ++ [t] } = c' := by
  unfold pushBackReady
  simp only [Option.map_eq_some_iff, link_eq]
  constructor
  · rintro ⟨d, ⟨hlinked, rfl⟩, rfl⟩
    exact ⟨hlinked, rfl⟩
  · rintro ⟨hlinked, rfl⟩
    exact ⟨_, ⟨hlinked, rfl⟩, rfl⟩

omit [DecidableEq B] in
theorem pushBackQueue_eq : c.pushBackQueue w t = some c' ↔ c.linked t = false ∧
    { c.setLinked t true with queue := Function.update c.queue w (c.queue w ++ [t]) } = c' := by
  unfold pushBackQueue
  simp only [Option.map_eq_some_iff, link_eq]
  constructor
  · rintro ⟨d, ⟨hlinked, rfl⟩, rfl⟩
    exact ⟨hlinked, rfl⟩
  · rintro ⟨hlinked, rfl⟩
    exact ⟨_, ⟨hlinked, rfl⟩, rfl⟩

omit [DecidableEq W] [DecidableEq B] in
theorem pushBackSleeping_eq : c.pushBackSleeping t = some c' ↔ c.linked t = false ∧
    { c.setLinked t true with
      timeSortedQueue := pushBackTickSorted (fun u => Tick.of (c.due u)) t c.timeSortedQueue } = c' := by
  unfold pushBackSleeping
  simp only [Option.map_eq_some_iff, link_eq]
  constructor
  · rintro ⟨d, ⟨hlinked, rfl⟩, rfl⟩
    exact ⟨hlinked, rfl⟩
  · rintro ⟨hlinked, rfl⟩
    exact ⟨_, ⟨hlinked, rfl⟩, rfl⟩

end Content

open Content

variable {C : Config} {c c' : Content τ W B} {b : Body τ W B} {cs : List (KCode τ W B)}

theorem exec_outcome {x : Choice τ W B} (h : exec C c b x = some (c', cs)) : Outcome C c b c' cs := by
  -- Steps without a condition.
  have hsome : ∀ {d : Content τ W B} {ds : List (KCode τ W B)}, some (d, ds) = some (c', cs) →
      d = c' ∧ ds = cs := by
    rintro d ds ⟨⟩
    exact ⟨rfl, rfl⟩
  cases b with
  | cleanUp =>
    simp only [exec, Option.bind_eq_some_iff, lockNowOrDie_eq] at h
    obtain ⟨d, ⟨hspin, rfl⟩, h⟩ := h
    cases hstate : c.state c.cur with
    | running =>
      simp only [setSpin, hstate, Option.map_eq_some_iff, pushBackReady_eq] at h
      obtain ⟨d, ⟨hlinked, rfl⟩, ⟨⟩⟩ := h
      exact .cleanUpRunning hspin hstate hlinked
    | blocked | destructing | ready =>
      simp only [setSpin, hstate] at h
      obtain ⟨rfl, rfl⟩ := hsome h
      exact .cleanUp hspin (by simp [hstate]) (by simp [hstate])
    | initializing =>
      simp only [setSpin, hstate] at h
      exact absurd h (by simp)
  | popNext =>
    simp only [exec, Option.map_eq_some_iff] at h
    obtain ⟨⟨t, rest⟩, hpop, ⟨⟩⟩ := h
    exact .popNext hpop
  | updateCurTask t =>
    obtain ⟨rfl, rfl⟩ := hsome h
    exact .updateCurTask
  | clearRequest =>
    obtain ⟨rfl, rfl⟩ := hsome h
    exact .clearRequest
  | acceptNew t =>
    simp only [exec, Option.map_eq_some_iff, spawn_eq] at h
    obtain ⟨d, ⟨hnew, rfl⟩, ⟨⟩⟩ := h
    exact .acceptNew hnew
  | checkPreempt t =>
    obtain ⟨rfl, rfl⟩ := hsome h
    exact .checkPreempt
  | pushReady t =>
    simp only [exec, Option.bind_eq_some_iff, lockNowOrDie_eq, Option.map_eq_some_iff,
      pushBackReady_eq] at h
    obtain ⟨d, ⟨hspin, rfl⟩, d, ⟨hlinked, rfl⟩, ⟨⟩⟩ := h
    exact .pushReady hspin hlinked
  | enqueue t =>
    obtain ⟨rfl, rfl⟩ := hsome h
    exact .enqueue
  | enqueueNew t =>
    simp only [exec, Option.map_eq_some_iff, spawn_eq] at h
    obtain ⟨d, ⟨hnew, rfl⟩, ⟨⟩⟩ := h
    exact .enqueueNew hnew
  | lockReady =>
    simp only [exec, Option.map_eq_some_iff, lockNowOrDie_eq] at h
    obtain ⟨d, ⟨hspin, rfl⟩, ⟨⟩⟩ := h
    exact .lockReady hspin
  | dequeue =>
    simp only [exec] at h
    split at h
    · obtain ⟨rfl, rfl⟩ := hsome h
      exact .dequeueNone ‹_›
    · obtain ⟨rfl, rfl⟩ := hsome h
      exact .dequeue ‹_›
  | pushPended t =>
    simp only [exec, Option.map_eq_some_iff, pushBackReady_eq] at h
    obtain ⟨d, ⟨hlinked, rfl⟩, ⟨⟩⟩ := h
    exact .pushPended hlinked
  | loadTicks p =>
    simp only [exec, Option.map_eq_some_iff, lockNowOrDie_eq] at h
    obtain ⟨d, ⟨hspin, rfl⟩, ⟨⟩⟩ := h
    exact .loadTicks hspin
  | wakeLoop now p =>
    simp only [exec] at h
    split at h
    · rename_i hqueue
      obtain ⟨rfl, rfl⟩ := hsome h
      exact .wakeEnd fun t rest heq => by simp [hqueue] at heq
    · rename_i t rest hqueue
      split at h
      · obtain ⟨rfl, rfl⟩ := hsome h
        exact .wake hqueue ‹_›
      · rename_i hexp
        obtain ⟨rfl, rfl⟩ := hsome h
        refine .wakeEnd fun u us heq => ?_
        obtain ⟨rfl, rfl⟩ : t = u ∧ rest = us := by simpa [hqueue] using heq
        simpa using hexp
  | deleteLoop now p =>
    simp only [exec] at h
    split at h
    · obtain ⟨rfl, rfl⟩ := hsome h
      exact .deleteEnd ‹_›
    · rename_i t rest hbuffer
      rw [removeTask_eq] at h
      split at h
      · rename_i queue hremove
        obtain ⟨rfl, rfl⟩ := hsome h
        split at hremove
        · obtain rfl := Option.some.inj hremove
          exact .delete hbuffer ‹_›
        · exact absurd hremove (by simp)
      · rename_i hremove
        obtain ⟨rfl, rfl⟩ := hsome h
        refine .deleteNone hbuffer fun hmem => ?_
        rw [if_pos hmem] at hremove
        exact absurd hremove (by simp)
  | endWake now p =>
    obtain ⟨rfl, rfl⟩ := hsome h
    cases p with
    | true => exact .endWakePended
    | false => exact .endWake
  | loadTimeToWakeup =>
    obtain ⟨rfl, rfl⟩ := hsome h
    split
    · exact .timeToWakeup ‹_›
    · exact .noTimeToWakeup (by simpa using ‹¬ c.timeToWakeup = true›)
  | clearTimeToWakeup now =>
    obtain ⟨rfl, rfl⟩ := hsome h
    exact .clearTimeToWakeup
  | setTimeToWakeup =>
    obtain ⟨rfl, rfl⟩ := hsome h
    exact .setTimeToWakeup
  | pushSorted t due =>
    simp only [exec, Option.bind_eq_some_iff, lockNowOrDie_eq, Option.map_eq_some_iff,
      pushBackSleeping_eq] at h
    obtain ⟨d, ⟨hspin, rfl⟩, d, ⟨hlinked, rfl⟩, ⟨⟩⟩ := h
    exact .pushSorted hspin hlinked
  | remove t =>
    simp only [exec, Option.map_eq_some_iff, lockNowOrDie_eq, removeTask_eq] at h
    obtain ⟨d, ⟨hspin, rfl⟩, h⟩ := h
    by_cases hmem : t ∈ c.timeSortedQueue
    · rw [if_pos (show t ∈ (c.setSpin .sleep true).timeSortedQueue from hmem)] at h
      cases h
      exact .remove hspin hmem
    · rw [if_neg (show t ∉ (c.setSpin .sleep true).timeSortedQueue from hmem)] at h
      cases h
      exact .removeNone hspin hmem
  | enqueueDelete t =>
    obtain ⟨rfl, rfl⟩ := hsome h
    exact .enqueueDelete
  | pushWait w =>
    simp only [exec, Option.bind_eq_some_iff, lockNowOrDie_eq, Option.map_eq_some_iff,
      pushBackQueue_eq] at h
    obtain ⟨d, ⟨hspin, rfl⟩, d, ⟨hlinked, rfl⟩, ⟨⟩⟩ := h
    exact .pushWait hspin hlinked
  | checkCondition w =>
    simp only [exec, Option.bind_eq_some_iff, lockNowOrDie_eq] at h
    obtain ⟨d, ⟨hspin, rfl⟩, h⟩ := h
    split at h
    · obtain ⟨rfl, rfl⟩ := hsome h
      exact .conditionMet hspin
    · simp only [Option.map_eq_some_iff, pushBackQueue_eq] at h
      obtain ⟨d, ⟨hlinked, rfl⟩, ⟨⟩⟩ := h
      exact .conditionNotMet hspin hlinked
  | popNotify w =>
    simp only [exec, Option.map_eq_some_iff, lockNowOrDie_eq] at h
    obtain ⟨d, ⟨hspin, rfl⟩, h⟩ := h
    split at h
    · cases h
      exact .popNotify hspin ‹_›
    · cases h
      exact .popNotifyNone hspin
  | addNotify w =>
    obtain ⟨rfl, rfl⟩ := hsome h
    exact .addNotify
  | swapNotifyCnt w =>
    simp only [exec, Option.map_eq_some_iff, lockNowOrDie_eq] at h
    obtain ⟨d, ⟨hspin, rfl⟩, ⟨⟩⟩ := h
    exact .swapNotifyCnt hspin
  | popNotified w n =>
    cases n with
    | zero =>
      obtain ⟨rfl, rfl⟩ := hsome h
      exact .popNotifiedEnd
    | succ n =>
      simp only [exec] at h
      split at h
      · obtain ⟨rfl, rfl⟩ := hsome h
        exact .popNotified ‹_›
      · obtain ⟨rfl, rfl⟩ := hsome h
        exact .popNotifiedEnd
  | checkCount m =>
    simp only [exec, Option.bind_eq_some_iff, lockNowOrDie_eq] at h
    obtain ⟨d, ⟨hspin, rfl⟩, h⟩ := h
    split at h
    · exact absurd h (by simp)
    · rename_i hwait
      have hwait' : c.waitTask m = .noTask := by simpa [setSpin] using hwait
      split at h
      · obtain ⟨rfl, rfl⟩ := hsome h
        exact .count hspin hwait' ‹_›
      · obtain ⟨rfl, rfl⟩ := hsome h
        exact .block hspin hwait' (Nat.eq_zero_of_not_pos ‹_›)
  | checkCountTimeout m ms =>
    simp only [exec, Option.bind_eq_some_iff, lockNowOrDie_eq] at h
    obtain ⟨d, ⟨hspin, rfl⟩, h⟩ := h
    split at h
    · exact absurd h (by simp)
    · rename_i hwait
      have hwait' : c.waitTask m = .noTask := by simpa [setSpin] using hwait
      split at h
      · obtain ⟨rfl, rfl⟩ := hsome h
        exact .countTimeout hspin hwait' ‹_›
      · obtain ⟨rfl, rfl⟩ := hsome h
        exact .blockTimeout hspin hwait' (Nat.eq_zero_of_not_pos ‹_›)
  | deadline m t ms =>
    obtain ⟨rfl, rfl⟩ := hsome h
    exact .deadline
  | takeResult m =>
    simp only [exec, Option.map_eq_some_iff, lockNowOrDie_eq] at h
    obtain ⟨d, ⟨hspin, rfl⟩, h⟩ := h
    cases hnotified : c.taskNotified m with
    | true =>
      rw [if_pos (show (c.setSpin (.mailbox m) true).taskNotified m = true from hnotified)] at h
      cases h
      have := Outcome.takeNotified (C := C) hspin hnotified
      rw [show (c.setSpin (.mailbox m) true).taskNotified m = true from hnotified]
      exact this
    | false =>
      rw [if_neg (show ¬ (c.setSpin (.mailbox m) true).taskNotified m = true by simp [setSpin, hnotified])] at h
      cases h
      have := Outcome.takeTimeout (C := C) hspin hnotified
      rw [show (c.setSpin (.mailbox m) true).taskNotified m = false from hnotified]
      exact this
  | takeWaiter m =>
    simp only [exec, Option.map_eq_some_iff, lockNowOrDie_eq] at h
    obtain ⟨d, ⟨hspin, rfl⟩, h⟩ := h
    split at h
    · cases h
      exact .notifyTimeout hspin ‹_›
    · cases h
      exact .notifyWaiter hspin ‹_›
    · cases h
      exact .notifyCount hspin ‹_›
  | setNotified m =>
    obtain ⟨rfl, rfl⟩ := hsome h
    exact .setNotified
  | addPending m =>
    obtain ⟨rfl, rfl⟩ := hsome h
    exact .addPending
  | swapPendingCount m =>
    obtain ⟨rfl, rfl⟩ := hsome h
    exact .swapPendingCount
  | addCount m n =>
    obtain ⟨rfl, rfl⟩ := hsome h
    exact .addCount
  | takePended m =>
    simp only [exec, Option.map_eq_some_iff, lockNowOrDie_eq] at h
    obtain ⟨d, ⟨hspin, rfl⟩, h⟩ := h
    split at h
    · cases h
      exact .pendedTimeout hspin ‹_›
    · cases h
      exact .pendedWaiter hspin ‹_›
    · cases h
      exact .pendedNone hspin ‹_›
  | subCount m p =>
    obtain ⟨rfl, rfl⟩ := hsome h
    cases p with
    | true => exact .subCount
    | false => exact .subCount
  | unlockSpin l =>
    obtain ⟨rfl, rfl⟩ := hsome h
    exact .unlockSpin
  | app =>
    obtain ⟨rfl, rfl⟩ := hsome h
    exact .app _
  | idle =>
    obtain ⟨rfl, rfl⟩ := hsome h
    exact .idle
  | sleepMs ms =>
    obtain ⟨rfl, rfl⟩ := hsome h
    split
    · exact .tooLong
    · exact .sleepMs (Nat.le_of_not_lt ‹_›)
  | sleepCheck due =>
    obtain ⟨rfl, rfl⟩ := hsome h
    split
    · exact .sleep ‹_›
    · exact .noSleep
  | addCurTask due =>
    obtain ⟨rfl, rfl⟩ := hsome h
    exact .addCurTask
  | waitedUntil w =>
    obtain ⟨rfl, rfl⟩ := hsome h
    split
    · exact .retry ‹_›
    · exact .waitedUntil
  | waited m =>
    obtain ⟨rfl, rfl⟩ := hsome h
    split
    · exact .yield ‹_›
    · exact .waited
  | resumed m =>
    obtain ⟨rfl, rfl⟩ := hsome h
    exact .resumed
  | waitedTimeout m =>
    obtain ⟨rfl, rfl⟩ := hsome h
    split
    · exact .yieldTimeout ‹_›
    · exact .waitedTimeout
  | changeCurrentPriority prio =>
    obtain ⟨rfl, rfl⟩ := hsome h
    split
    · exact .notAllowed
    · exact .changePriority (Nat.lt_of_not_le ‹_›)
  | changeIntrinsicPriority prio =>
    obtain ⟨rfl, rfl⟩ := hsome h
    exact .changeIntrinsicPriority
  | dropCurrentTask =>
    obtain ⟨rfl, rfl⟩ := hsome h
    exact .dropCurrentTask
  | advanceTick =>
    obtain ⟨rfl, rfl⟩ := hsome h
    exact .advanceTick

end Hopter.Kernel
