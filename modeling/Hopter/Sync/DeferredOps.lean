-- SUMMARY: Deferred operations of the ready queue, wait queues and mailboxes equal direct ones.
import Hopter.Exec.Deferred
import Hopter.Task.TaskList

/-!
# Deferred operations equal direct ones

The ready queue (`src/schedule/scheduler.rs`), wait queues (`src/sync/wait_queue.rs`) and
mailboxes (`src/sync/mailbox.rs`) as objects with deferred operations. A pend-only access
leaves an entry in the insert buffer or counts a notification, and `run_pended_op` does the
work later: for the ready queue it takes the entries one by one, and for the others it swaps the
counter with zero and works through the count.

Wait queues and mailboxes hand tasks to the scheduler and to the sleep queue. These are a state
`κ` here, and the two calls are functions on it. The scheduler has started, since interrupts are
enabled later than that.

The counters are natural numbers. They agree with those of the source, which wrap around, as long as
fewer than `2 ^ 32` notifications are counted between two rounds of `run_pended_op`, and in `count`.
-/

namespace Hopter.Sync.DeferredOps

open Exec Exec.Deferred Hopter.Task

variable {τ κ : Type}

-- ---------------------------------------------------------------------------
-- The ready queue
-- ---------------------------------------------------------------------------

structure ReadyQueue (τ : Type) where
  readyLinkedList : List τ
  state : τ → TaskState
  /-- `PENDING_CTXT_SWITCH`. -/
  switchDue : Bool

section Ready

variable [DecidableEq τ] (preempts : τ → Bool)

/-- `insert_task_to_ready_queue` with full access; `preempts` says which tasks should preempt the
current one. -/
def ReadyQueue.insertTask (q : ReadyQueue τ) (task : τ) : ReadyQueue τ where
  switchDue := if preempts task = true then true else q.switchDue
  state := Function.update q.state task .ready
  readyLinkedList := q.readyLinkedList ++ [task]

/-- The body of the loop in `run_pended_op`. -/
def ReadyQueue.link (q : ReadyQueue τ) (task : τ) : ReadyQueue τ where
  switchDue := if preempts task = true then true else q.switchDue
  state := Function.update q.state task .ready
  readyLinkedList := q.readyLinkedList ++ [task]

/-- The local state of `run_pended_op` is the task that has been dequeued. -/
def readyQueue (capacity : Nat) : Object (ReadyQueue τ) (List τ) τ (Option τ) where
  direct := ReadyQueue.insertTask preempts
  pend insertBuffer task := if insertBuffer.length < capacity then some (insertBuffer ++ [task]) else none
  enter := none
  drain q insertBuffer
    | none =>
      match insertBuffer with
      | [] => (q, [], none)
      | task :: rest => (q, rest, some (some task))
    | some task => (q.link preempts task, insertBuffer, some none)

/-- The dequeued task counts as linked. -/
def ReadyQueue.Represents : Option τ → ReadyQueue τ → ReadyQueue τ → Prop
  | none, q, v => v = q
  | some task, q, v => v = q.insertTask preempts task

theorem readyQueue_faithful (capacity : Nat) :
    Faithful (readyQueue preempts capacity) id (ReadyQueue.Represents preempts) (fun _ => True)
      fun _ => True where
  pend := by
    intro l task l' h
    simp only [readyQueue] at h
    split at h
    · exact (Option.some.inj h).symm
    · exact absurd h (by simp)
  enter q := rfl
  looks := trivial
  next := by
    intro q l d q' l' d' v h hrep _
    cases d with
    | none =>
      obtain rfl := hrep
      cases l with
      | nil => simp [readyQueue] at h
      | cons task rest =>
        simp only [readyQueue, Prod.mk.injEq, Option.some.injEq] at h
        obtain ⟨rfl, rfl, rfl⟩ := h
        exact ⟨[task], rfl, rfl, fun _ => Or.inl trivial, fun _ => trivial⟩
    | some task =>
      obtain rfl := hrep
      simp only [readyQueue, Prod.mk.injEq, Option.some.injEq] at h
      obtain ⟨rfl, rfl, rfl⟩ := h
      exact ⟨[], rfl, rfl, fun _ => Or.inl trivial, fun _ => trivial⟩
  leave := by
    intro q l d q' l' v h hrep _
    cases d with
    | none =>
      obtain rfl := hrep
      cases l with
      | nil =>
        simp only [readyQueue, Prod.mk.injEq, and_true] at h
        obtain ⟨rfl, rfl⟩ := h
        exact ⟨[], rfl, rfl, trivial, fun _ => rfl⟩
      | cons task rest => simp [readyQueue] at h
    | some task => simp [readyQueue] at h

end Ready

-- ---------------------------------------------------------------------------
-- Wait queues
-- ---------------------------------------------------------------------------

structure WaitQueue (τ κ : Type) where
  queue : List τ
  kernel : κ

section Wait

variable (priority : τ → Nat) (acceptTask : κ → τ → κ)

/-- `notify_one_allow_isr` with full access. -/
def WaitQueue.notifyOne (q : WaitQueue τ κ) : WaitQueue τ κ :=
  match popHighestPriority priority q.queue with
  | some (task, rest) => { queue := rest, kernel := acceptTask q.kernel task }
  | none => q

/-- The local state of `run_pended_op` is the number of rounds to go, once the counter is read. -/
def waitQueue : Object (WaitQueue τ κ) Nat Unit (Option Nat) where
  direct q _ := q.notifyOne priority acceptTask
  pend notifyCnt _ := some (notifyCnt + 1)
  enter := none
  drain q notifyCnt
    | none => (q, 0, some (some notifyCnt))
    | some 0 => (q, notifyCnt, none)
    | some (cnt + 1) =>
      match popHighestPriority priority q.queue with
      | some (task, rest) =>
        ({ queue := rest, kernel := acceptTask q.kernel task }, notifyCnt, some (some cnt))
      | none => (q, notifyCnt, none)

/-- The counted notifications. -/
def notifications (cnt : Nat) : List Unit := List.replicate cnt ()

theorem notifications_succ (cnt : Nat) : notifications (cnt + 1) = notifications cnt ++ [()] :=
  List.replicate_succ'

/-- The rounds to go count as done. -/
def WaitQueue.Represents : Option Nat → WaitQueue τ κ → WaitQueue τ κ → Prop
  | none, q, v => v = q
  | some cnt, q, v => v = (notifications cnt).foldl (waitQueue priority acceptTask).direct q

/-- Once the queue is empty, notifications do nothing. -/
theorem WaitQueue.notify_nobody {q : WaitQueue τ κ} (h : popHighestPriority priority q.queue = none)
    (l : List Unit) : l.foldl (waitQueue priority acceptTask).direct q = q := by
  have hone : q.notifyOne priority acceptTask = q := by simp [WaitQueue.notifyOne, h]
  induction l with
  | nil => rfl
  | cons u l ih =>
    rw [List.foldl_cons]
    exact (congrArg (fun q => l.foldl (waitQueue priority acceptTask).direct q) hone).trans ih

theorem waitQueue_faithful :
    Faithful (waitQueue priority acceptTask) notifications (WaitQueue.Represents priority acceptTask)
      (fun _ => True) fun d => d = none where
  pend := by
    intro cnt u cnt' h
    obtain rfl := Option.some.inj h
    exact notifications_succ cnt
  enter q := rfl
  looks := rfl
  next := by
    intro q cnt d q' cnt' d' v h hrep _
    cases d with
    | none =>
      obtain rfl := hrep
      simp only [waitQueue, Prod.mk.injEq, Option.some.injEq] at h
      obtain ⟨rfl, rfl, rfl⟩ := h
      exact ⟨notifications cnt, by simp [notifications], rfl, fun _ => Or.inr rfl, fun _ => trivial⟩
    | some n =>
      cases n with
      | zero => simp [waitQueue] at h
      | succ n =>
        obtain rfl := hrep
        simp only [waitQueue] at h
        split at h
        · rename_i task rest hpop
          simp only [Prod.mk.injEq, Option.some.injEq] at h
          obtain ⟨rfl, rfl, rfl⟩ := h
          refine ⟨[], rfl, ?_, fun hl => absurd hl (by simp), fun _ => trivial⟩
          simp [WaitQueue.Represents, notifications, List.replicate_succ, waitQueue, WaitQueue.notifyOne, hpop]
        · simp at h
  leave := by
    intro q cnt d q' cnt' v h hrep _
    cases d with
    | none => simp [waitQueue] at h
    | some n =>
      obtain rfl := hrep
      cases n with
      | zero =>
        simp only [waitQueue, Prod.mk.injEq, and_true] at h
        obtain ⟨rfl, rfl⟩ := h
        exact ⟨[], rfl, rfl, trivial, fun hl => absurd hl (by simp)⟩
      | succ n =>
        simp only [waitQueue] at h
        split at h
        · simp at h
        · rename_i hpop
          simp only [Prod.mk.injEq, and_true] at h
          obtain ⟨rfl, rfl⟩ := h
          exact ⟨[], rfl, (WaitQueue.notify_nobody priority acceptTask hpop _).symm, trivial,
            fun hl => absurd hl (by simp)⟩

end Wait

-- ---------------------------------------------------------------------------
-- Mailboxes
-- ---------------------------------------------------------------------------

inductive WaitTask (τ : Type) where
  | withTimeout (task : τ)
  | withoutTimeout (task : τ)
  | noTask

structure Mailbox (τ κ : Type) where
  count : Nat
  waitTask : WaitTask τ
  taskNotified : Bool
  kernel : κ

/-- Where `run_pended_op` is. -/
inductive MailboxDrain (τ : Type) where
  | swapPendingCount
  | addCount (pendingCount : Nat)
  | takeWaitTask
  | wakeWithTimeout (task : τ)
  | wakeWithoutTimeout (task : τ)
  | subCount (timeout : Bool)
  | setNotified

section Mailbox

variable (acceptTask removeTask : κ → τ → κ)

/-- `notify_allow_isr` with full access. -/
def Mailbox.notify (m : Mailbox τ κ) : Mailbox τ κ :=
  match m.waitTask with
  | .withTimeout task =>
    { m with waitTask := .noTask, kernel := removeTask m.kernel task, taskNotified := true }
  | .withoutTimeout task => { m with waitTask := .noTask, kernel := acceptTask m.kernel task }
  | .noTask => { m with count := m.count + 1 }

def mailbox : Object (Mailbox τ κ) Nat Unit (MailboxDrain τ) where
  direct m _ := m.notify acceptTask removeTask
  pend pendingCount _ := some (pendingCount + 1)
  enter := .swapPendingCount
  drain m pendingCount
    | .swapPendingCount => (m, 0, some (.addCount pendingCount))
    | .addCount n => ({ m with count := m.count + n }, pendingCount, some .takeWaitTask)
    | .takeWaitTask =>
      ({ m with waitTask := .noTask }, pendingCount,
        match m.waitTask with
        | .withTimeout task => some (.wakeWithTimeout task)
        | .withoutTimeout task => some (.wakeWithoutTimeout task)
        | .noTask => none)
    | .wakeWithTimeout task =>
      ({ m with kernel := removeTask m.kernel task }, pendingCount, some (.subCount true))
    | .wakeWithoutTimeout task =>
      ({ m with kernel := acceptTask m.kernel task }, pendingCount, some (.subCount false))
    | .subCount timeout =>
      ({ m with count := m.count - 1 }, pendingCount, if timeout = true then some .setNotified else none)
    | .setNotified => ({ m with taskNotified := true }, pendingCount, none)

/-- The rest of `run_pended_op`, from the point where the notifications are counted. -/
def Mailbox.settle (m : Mailbox τ κ) : Mailbox τ κ :=
  match m.waitTask with
  | .withTimeout task =>
    { count := m.count - 1, waitTask := .noTask, taskNotified := true, kernel := removeTask m.kernel task }
  | .withoutTimeout task =>
    { m with count := m.count - 1, waitTask := .noTask, kernel := acceptTask m.kernel task }
  | .noTask => m

theorem Mailbox.notify_noTask {m : Mailbox τ κ} (h : m.waitTask = .noTask) (cnt : Nat) :
    (notifications cnt).foldl (mailbox acceptTask removeTask).direct m =
      { m with count := m.count + cnt } := by
  induction cnt with
  | zero => rfl
  | succ cnt ih =>
    rw [notifications_succ, List.foldl_append, ih]
    simp [mailbox, Mailbox.notify, h, Nat.add_assoc]

/-- Counting the notifications and then waking up the waiting task, for one notification less, is
waking it up and then counting the rest. -/
theorem Mailbox.settle_eq {m : Mailbox τ κ} {cnt : Nat} (h : cnt ≠ 0 ∨ m.waitTask = .noTask) :
    Mailbox.settle acceptTask removeTask { m with count := m.count + cnt } =
      (notifications cnt).foldl (mailbox acceptTask removeTask).direct m := by
  cases hw : m.waitTask with
  | noTask =>
    rw [Mailbox.notify_noTask acceptTask removeTask hw]
    simp [Mailbox.settle, hw]
  | withTimeout task | withoutTimeout task =>
    obtain ⟨n, rfl⟩ : ∃ n, cnt = n + 1 := Nat.exists_eq_succ_of_ne_zero (h.resolve_right (by simp [hw]))
    rw [notifications, List.replicate_succ, List.foldl_cons]
    change _ = (notifications n).foldl _ (m.notify acceptTask removeTask)
    rw [Mailbox.notify_noTask acceptTask removeTask (by simp [Mailbox.notify, hw])]
    simp only [Mailbox.settle, Mailbox.notify, hw, Mailbox.mk.injEq, and_true]
    omega

def Mailbox.Represents : MailboxDrain τ → Mailbox τ κ → Mailbox τ κ → Prop
  | .swapPendingCount, m, v => v = m
  | .addCount n, m, v => v = Mailbox.settle acceptTask removeTask { m with count := m.count + n }
  | .takeWaitTask, m, v => v = m.settle acceptTask removeTask
  | .wakeWithTimeout task, m, v => m.waitTask = .noTask ∧
    v = Mailbox.settle acceptTask removeTask { m with waitTask := .withTimeout task }
  | .wakeWithoutTimeout task, m, v => m.waitTask = .noTask ∧
    v = Mailbox.settle acceptTask removeTask { m with waitTask := .withoutTimeout task }
  | .subCount timeout, m, v => m.waitTask = .noTask ∧
    v = { m with count := m.count - 1, taskNotified := timeout || m.taskNotified }
  | .setNotified, m, v => m.waitTask = .noTask ∧ v = { m with taskNotified := true }

/-- A `run_pended_op` without notifications finds no waiting task. -/
theorem mailbox_faithful :
    Faithful (mailbox acceptTask removeTask) notifications (Mailbox.Represents acceptTask removeTask)
      (fun m => m.waitTask = .noTask) fun d => d = .swapPendingCount where
  pend := by
    intro cnt u cnt' h
    obtain rfl := Option.some.inj h
    exact notifications_succ cnt
  enter m := rfl
  looks := rfl
  next := by
    intro m cnt d m' cnt' d' v h hrep hidle
    cases d with
    | swapPendingCount =>
      obtain rfl := hrep
      simp only [mailbox, Prod.mk.injEq, Option.some.injEq] at h
      obtain ⟨rfl, rfl, rfl⟩ := h
      refine ⟨notifications cnt, by simp [notifications], ?_, fun _ => Or.inr rfl, fun hd => ?_⟩
      · refine (Mailbox.settle_eq acceptTask removeTask ?_).symm
        exact (hidle rfl).imp_left fun hne hzero => hne (by simp [hzero, notifications])
      · simp [mailbox] at hd
    | addCount n =>
      simp only [mailbox, Prod.mk.injEq, Option.some.injEq] at h
      obtain ⟨rfl, rfl, rfl⟩ := h
      exact ⟨[], rfl, hrep, fun hl => absurd hl (by simp), fun hd => by simp [mailbox] at hd⟩
    | takeWaitTask =>
      obtain rfl := hrep
      cases hw : m.waitTask with
      | noTask => simp [mailbox, hw] at h
      | withTimeout task | withoutTimeout task =>
        simp only [mailbox, hw, Prod.mk.injEq, Option.some.injEq] at h
        obtain ⟨rfl, rfl, rfl⟩ := h
        refine ⟨[], rfl, ⟨rfl, ?_⟩, fun hl => absurd hl (by simp), fun hd => by simp [mailbox] at hd⟩
        simp [Mailbox.settle, hw]
    | wakeWithTimeout task | wakeWithoutTimeout task =>
      obtain ⟨hw, rfl⟩ := hrep
      simp only [mailbox, Prod.mk.injEq, Option.some.injEq] at h
      obtain ⟨rfl, rfl, rfl⟩ := h
      refine ⟨[], rfl, ⟨hw, ?_⟩, fun hl => absurd hl (by simp), fun hd => by simp [mailbox] at hd⟩
      simp [Mailbox.settle, hw]
    | subCount timeout =>
      obtain ⟨hw, rfl⟩ := hrep
      cases timeout with
      | false => simp [mailbox] at h
      | true =>
        simp only [mailbox, if_true, Prod.mk.injEq, Option.some.injEq] at h
        obtain ⟨rfl, rfl, rfl⟩ := h
        exact ⟨[], rfl, ⟨hw, rfl⟩, fun hl => absurd hl (by simp), fun hd => by simp [mailbox] at hd⟩
    | setNotified => simp [mailbox] at h
  leave := by
    intro m cnt d m' cnt' v h hrep _
    cases d with
    | swapPendingCount | addCount n => simp [mailbox] at h
    | takeWaitTask =>
      obtain rfl := hrep
      cases hw : m.waitTask with
      | withTimeout task | withoutTimeout task => simp [mailbox, hw] at h
      | noTask =>
        simp only [mailbox, hw, Prod.mk.injEq, and_true] at h
        obtain ⟨rfl, rfl⟩ := h
        refine ⟨[], rfl, ?_, rfl, fun hl => absurd hl (by simp)⟩
        simp only [List.foldl_nil, Mailbox.settle, hw]
        rw [← hw]
    | wakeWithTimeout task | wakeWithoutTimeout task => simp [mailbox] at h
    | subCount timeout =>
      obtain ⟨hw, rfl⟩ := hrep
      cases timeout with
      | true => simp [mailbox] at h
      | false =>
        simp only [mailbox, Bool.false_eq_true, if_false, Prod.mk.injEq, and_true] at h
        obtain ⟨rfl, rfl⟩ := h
        exact ⟨[], rfl, rfl, hw, fun hl => absurd hl (by simp)⟩
    | setNotified =>
      obtain ⟨hw, rfl⟩ := hrep
      simp only [mailbox, Prod.mk.injEq, and_true] at h
      obtain ⟨rfl, rfl⟩ := h
      exact ⟨[], rfl, rfl, hw, fun hl => absurd hl (by simp)⟩

end Mailbox

-- ---------------------------------------------------------------------------
-- Releases
-- ---------------------------------------------------------------------------

/-- Whenever a release is over, however handlers have come in, the content is what the operations
that were issued give with full access, one after another, and nothing is pending. -/
def DeferredIsDirect {σ π ω δ : Type} (O : Object σ π ω δ) (ops : π → List ω) : Prop :=
  ∀ (c : σ) (p : π) (actions : List (Action ω)) (s : State σ π ω δ),
    Run.exec (step O) (start c p (ops p)) actions = some s → s.pc = .released →
      s.content = s.issued.foldl O.direct c ∧ ops s.buffer = [] ∧ s.pending = false

/-- For the ready queue, for wait queues and for mailboxes, deferred operations equal direct
ones. -/
theorem queues_deferred_eq_direct [DecidableEq τ] (preempts : τ → Bool) (capacity : Nat) (priority : τ → Nat)
    (acceptTask removeTask : κ → τ → κ) :
    DeferredIsDirect (readyQueue preempts capacity) id ∧
      DeferredIsDirect (waitQueue priority acceptTask) notifications ∧
      DeferredIsDirect (mailbox acceptTask removeTask) notifications :=
  ⟨fun _ _ _ _ hrun hpc => exec_direct (readyQueue_faithful preempts capacity) hrun hpc,
    fun _ _ _ _ hrun hpc => exec_direct (waitQueue_faithful priority acceptTask) hrun hpc,
    fun _ _ _ _ hrun hpc => exec_direct (mailbox_faithful acceptTask removeTask) hrun hpc⟩

/-- A mailbox with a waiting task, where one notification is pended before the release and one
inside of `run_pended_op`, before the counter is read: `run_pended_op` runs twice, the second time
with nothing to do. The tasks that were accepted and removed are recorded. -/
theorem queues_deferred_eq_direct_mailbox :
    ∃ s, Run.exec (step (mailbox (fun k t => k ++ [t]) fun k t => k ++ [t]))
        (start (⟨0, .withTimeout true, false, []⟩ : Mailbox Bool (List Bool)) 1 (notifications 1))
        ([.release, .preempt (), .handler, .handler] ++ List.replicate 15 .release) = some s ∧
      s.pc = .released ∧ s.content.count = 1 ∧
      s.content = s.issued.foldl (mailbox (fun k t => k ++ [t]) fun k t => k ++ [t]).direct
        ⟨0, .withTimeout true, false, []⟩ := by
  obtain ⟨s, hrun, hpc, hcount⟩ : ∃ s,
      Run.exec (step (mailbox (fun k t => k ++ [t]) fun k t => k ++ [t]))
        (start (⟨0, .withTimeout true, false, []⟩ : Mailbox Bool (List Bool)) 1 (notifications 1))
        ([.release, .preempt (), .handler, .handler] ++ List.replicate 15 .release) = some s ∧
      s.pc = .released ∧ s.content.count = 1 := ⟨_, rfl, rfl, rfl⟩
  have hall := queues_deferred_eq_direct (τ := Bool) (fun _ => false) 8 (fun _ => 0)
    (fun k t => k ++ [t]) fun k t => k ++ [t]
  exact ⟨s, hrun, hpc, hcount, (hall.2.2 _ _ _ s hrun hpc).1⟩

end Hopter.Sync.DeferredOps
