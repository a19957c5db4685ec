-- SUMMARY: Ready queue, wait queues and mailboxes of the kernel implement the objects with deferred operations.
import Hopter.Exec.Closures
import Hopter.Kernel.Outcome
import Hopter.Sync.DeferredOps

/-!
# The kernel queues as objects with deferred operations

`Hopter.Sync.DeferredOps` looks at one object at a time, without the machine. Here its ready queue,
its wait queue and its mailbox are found again in the kernel: every closure of the kernel does what
the object does, whatever happens to the rest of the kernel in the meantime. What the objects hand
to the scheduler and to the sleep queue is the list of the accesses that the closure makes.

The priorities do not change during a closure, and the buffers have a capacity in the objects only.
-/

namespace Hopter.Kernel

open Exec Hopter.Task Hopter.Sync

variable {τ W B : Type} [DecidableEq τ] [DecidableEq W] [DecidableEq B] {C : Config} {c c' : Content τ W B}

/-- The accesses that a closure makes. -/
abbrev Log (τ W B : Type) := List (Lock W B × Op τ)

section Spin

variable {V : Type} {fits : Content τ W B → Body τ W B → Choice τ W B → Prop} {view : Content τ W B → V}
  {l : Lock W B} {log : Log τ W B}

/-- The end of a closure. -/
theorem runs_unlockSpin (hspin : ∀ c b, view (c.setSpin l b) = view c)
    (h : Runs (spec C) fits view c [.body (.unlockSpin l)] log c') : log = [] ∧ view c' = view c := by
  obtain ⟨c₁, x, c₂, ds, hview, -, hexec, hruns⟩ := h.of_body
  obtain ⟨rfl, rfl⟩ : c₁.setSpin l false = c₂ ∧ [] = ds := by simpa [spec, exec] using hexec
  obtain ⟨hlog, hend⟩ := hruns.of_nil
  exact ⟨hlog, hend.trans ((hspin c₁ false).trans hview)⟩

end Spin

-- ---------------------------------------------------------------------------
-- The ready queue
-- ---------------------------------------------------------------------------

/-- The ready queue does not hand tasks on. -/
def readyView (c : Content τ W B) (_ : Log τ W B) : DeferredOps.ReadyQueue τ :=
  ⟨c.readyLinkedList, c.state, c.switchDue⟩

def readyOps : Op τ → Option τ
  | .acceptTask t | .acceptNewTask t => some t
  | _ => none

def readyPos : Body τ W B → Option (Option (Option τ))
  | .lockReady | .dequeue => some (some none)
  | .pushPended t => some (some (some t))
  | .unlockSpin .ready => some none
  | _ => none

/-- The tasks that should preempt the current one are those of the object, and so is the capacity of
the buffer. -/
def ReadyFits (C : Config) (preempts : τ → Bool) (capacity : Nat) (c : Content τ W B) (b : Body τ W B)
    (_ : Choice τ W B) : Prop :=
  c.shouldPreempt C = preempts ∧ ((∃ t, b = .enqueue t ∨ b = .enqueueNew t) → c.insertBuffer.length < capacity)

section Ready

variable {preempts : τ → Bool} {capacity : Nat} {t : τ} {log : Log τ W B}

omit [DecidableEq τ] [DecidableEq W] [DecidableEq B] in
theorem readyView_eq : readyView c' = readyView c ↔ c'.readyLinkedList = c.readyLinkedList ∧
    c'.state = c.state ∧ c'.switchDue = c.switchDue := by
  simp [funext_iff, readyView]

/-- `insert_task_to_ready_queue` with full access. -/
theorem runs_checkPreempt (k : Log τ W B)
    (h : Runs (spec C) (ReadyFits C preempts capacity) readyView c [.body (.checkPreempt t)] log c') :
    readyView c' (k ++ log) = (readyView c k).insertTask preempts t := by
  obtain ⟨c₁, x, c₂, ds, hview₁, hfits, hexec, hruns⟩ := h.of_body
  obtain ⟨rfl, rfl⟩ : c₁.request C t = c₂ ∧ [.body (.pushReady t)] = ds := by
    simpa [spec, exec] using hexec
  obtain ⟨c₃, x, c₄, ds, hview₂, -, hexec, hruns⟩ := hruns.of_body
  simp only [spec, exec, Option.bind_eq_some_iff, Content.lockNowOrDie_eq, Option.map_eq_some_iff,
    Content.pushBackReady_eq, Prod.mk.injEq] at hexec
  obtain ⟨_, ⟨-, rfl⟩, _, ⟨-, rfl⟩, rfl, rfl⟩ := hexec
  obtain ⟨-, hend⟩ := runs_unlockSpin (fun _ _ => rfl) hruns
  obtain ⟨hlist₁, hstate₁, hdue₁⟩ := readyView_eq.mp hview₁
  obtain ⟨hlist₂, hstate₂, hdue₂⟩ := readyView_eq.mp hview₂
  refine (congrFun hend (k ++ log)).trans ?_
  simp [readyView, DeferredOps.ReadyQueue.insertTask, hlist₁, hstate₁, hdue₁, hlist₂, hstate₂, hdue₂, hfits.1]

/-- `insert_task_to_ready_queue` without full access. -/
theorem runs_enqueue {b : Body τ W B} (hb : b = .enqueue t ∨ b = .enqueueNew t)
    (h : Runs (spec C) (ReadyFits C preempts capacity) (fun c => (readyView c, c.insertBuffer)) c [.body b] log c') :
    (DeferredOps.readyQueue preempts capacity).pend c.insertBuffer t = some c'.insertBuffer ∧
      ∀ k, readyView c' (k ++ log) = readyView c k := by
  obtain ⟨c₁, x, c₂, ds, hview, hfits, hexec, hruns⟩ := h.of_body
  have hcapacity : c₁.insertBuffer.length < capacity := hfits.2 ⟨t, hb⟩
  have hout : ds = [] ∧ readyView c₂ = readyView c₁ ∧ c₂.insertBuffer = c₁.insertBuffer ++ [t] := by
    rcases hb with rfl | rfl
    · obtain ⟨rfl, rfl⟩ : _ = c₂ ∧ [] = ds := by simpa [spec, exec] using hexec
      exact ⟨rfl, rfl, rfl⟩
    · simp only [spec, exec, Option.map_eq_some_iff, Content.spawn_eq, Prod.mk.injEq] at hexec
      obtain ⟨_, ⟨-, rfl⟩, rfl, rfl⟩ := hexec
      exact ⟨rfl, rfl, rfl⟩
  obtain ⟨rfl, hview₂, hbuffer⟩ := hout
  obtain ⟨rfl, hend⟩ := hruns.of_nil
  simp only [Prod.mk.injEq] at hview hend
  have hlength : c.insertBuffer.length < capacity := hview.2 ▸ hcapacity
  simp [DeferredOps.readyQueue, hend, hview₂, hbuffer, hview, hlength]

/-- A step of `run_pended_op` of the ready queue. -/
theorem readyQueue_drain {b : Body τ W B} {d : Option (Option τ)} {x : Choice τ W B} {cs : List (KCode τ W B)}
    (hpos : readyPos b = some d) (hfits : ReadyFits C preempts capacity c b x)
    (hexec : exec C c b x = some (c', cs)) :
    Tidy readyPos cs ∧ ∀ k, Relation.ReflTransGen (DeferredOps.readyQueue preempts capacity).Drains
      (readyView c k, c.insertBuffer, d)
      (readyView c' (k ++ accesses cs), c'.insertBuffer, position readyPos cs) := by
  unfold readyPos at hpos
  split at hpos
  · obtain rfl := Option.some.inj hpos
    simp only [exec, Option.map_eq_some_iff, Content.lockNowOrDie_eq, Prod.mk.injEq] at hexec
    obtain ⟨_, ⟨-, rfl⟩, rfl, rfl⟩ := hexec
    exact ⟨⟨rfl, rfl⟩, fun k => .refl⟩
  · obtain rfl := Option.some.inj hpos
    simp only [exec] at hexec
    split at hexec
    · rename_i hbuffer
      obtain ⟨rfl, rfl⟩ : c = c' ∧ _ = cs := by simpa using hexec
      refine ⟨⟨rfl, rfl⟩, fun k => .single ⟨none, rfl, ?_⟩⟩
      simp [DeferredOps.readyQueue, hbuffer, readyView, position, readyPos]
    · rename_i t rest hbuffer
      obtain ⟨rfl, rfl⟩ : _ = c' ∧ _ = cs := by simpa using hexec
      refine ⟨⟨rfl, rfl⟩, fun k => .single ⟨none, rfl, ?_⟩⟩
      simp [DeferredOps.readyQueue, hbuffer, readyView, position, readyPos]
  · rename_i t
    obtain rfl := Option.some.inj hpos
    simp only [exec, Option.map_eq_some_iff, Content.pushBackReady_eq, Prod.mk.injEq] at hexec
    obtain ⟨_, ⟨-, rfl⟩, rfl, rfl⟩ := hexec
    refine ⟨⟨rfl, rfl⟩, fun k => .single ⟨some t, rfl, ?_⟩⟩
    simp [DeferredOps.readyQueue, DeferredOps.ReadyQueue.link, readyView, position, readyPos, hfits.1]
  · obtain rfl := Option.some.inj hpos
    obtain ⟨rfl, rfl⟩ : _ = c' ∧ [] = cs := by simpa [exec] using hexec
    exact ⟨trivial, fun k => .refl⟩
  · cases hpos

/-- The kernel's ready queue is the object. -/
theorem readyQueue_implements : Implements (spec (τ := τ) (W := W) (B := B) C) (ReadyFits C preempts capacity) .ready
    readyOps (DeferredOps.readyQueue preempts capacity) readyView Content.insertBuffer readyPos where
  direct := by
    intro op t c log c' hop hruns k
    cases op with
    | acceptTask u =>
      obtain rfl := Option.some.inj hop
      exact runs_checkPreempt k hruns
    | acceptNewTask u =>
      obtain rfl := Option.some.inj hop
      obtain ⟨c₁, x, c₂, ds, hview, -, hexec, hruns⟩ := hruns.of_body
      simp only [spec, exec, Option.map_eq_some_iff, Content.spawn_eq, Prod.mk.injEq] at hexec
      obtain ⟨_, ⟨-, rfl⟩, rfl, rfl⟩ := hexec
      exact (runs_checkPreempt k hruns).trans (congrArg (·.insertTask preempts u) (congrFun hview k))
    | _ => cases hop
  pend := by
    intro op t c log c' hop hruns
    cases op with
    | acceptTask u =>
      obtain rfl := Option.some.inj hop
      exact runs_enqueue (Or.inl rfl) hruns
    | acceptNewTask u =>
      obtain rfl := Option.some.inj hop
      exact runs_enqueue (Or.inr rfl) hruns
    | _ => cases hop
  enter := ⟨_, rfl, rfl⟩
  drain := readyQueue_drain

end Ready

-- ---------------------------------------------------------------------------
-- Wait queues
-- ---------------------------------------------------------------------------

def waitView (w : W) (c : Content τ W B) (k : Log τ W B) : DeferredOps.WaitQueue τ (Log τ W B) := ⟨c.queue w, k⟩

/-- A task goes to the scheduler. -/
def logAccept (k : Log τ W B) (t : τ) : Log τ W B := k ++ [(.ready, .acceptTask t)]

def notifyOps : Op τ → Option Unit
  | .notify => some ()
  | _ => none

def waitPos (w : W) : Body τ W B → Option (Option (Option Nat))
  | .swapNotifyCnt w' => if w' = w then some (some none) else none
  | .popNotified w' cnt => if w' = w then some (some (some cnt)) else none
  | .unlockSpin (.waitQueue w') => if w' = w then some none else none
  | _ => none

/-- The priorities are those of the object. -/
def WaitFits (priority : τ → Nat) (c : Content τ W B) (_ : Body τ W B) (_ : Choice τ W B) : Prop :=
  c.priority = priority

section Wait

variable {priority : τ → Nat} {w : W} {log : Log τ W B}

omit [DecidableEq τ] [DecidableEq W] [DecidableEq B] in
theorem waitView_eq : waitView w c' = waitView w c ↔ c'.queue w = c.queue w := by
  simp [funext_iff, waitView]

/-- `notify_one` with full access. -/
theorem waitQueue_notify (k : Log τ W B)
    (h : Runs (spec C) (WaitFits priority) (waitView w) c (fullAccess (.waitQueue w) .notify) log c') :
    waitView w c' (k ++ log) = (waitView w c k).notifyOne priority logAccept := by
  obtain ⟨c₁, x, c₂, ds, hview₁, hfits, hexec, hruns⟩ := h.of_body
  simp only [spec, exec, Option.map_eq_some_iff, Content.lockNowOrDie_eq] at hexec
  obtain ⟨_, ⟨-, rfl⟩, hexec⟩ := hexec
  have hqueue : c₁.queue w = c.queue w := waitView_eq.mp hview₁
  have hprio : c₁.priority = priority := hfits
  simp only [Content.setSpin, hprio, hqueue] at hexec
  cases hpop : popHighestPriority priority (c.queue w) with
  | some p =>
    obtain ⟨t, rest⟩ := p
    simp only [hpop, Prod.mk.injEq] at hexec
    obtain ⟨rfl, rfl⟩ := hexec
    obtain ⟨c₃, rest', hview₃, rfl, hlast⟩ := hruns.of_access
    obtain ⟨rfl, hend⟩ := runs_unlockSpin (fun _ _ => rfl) hlast
    refine (congrFun (hend.trans hview₃) _).trans ?_
    simp [waitView, DeferredOps.WaitQueue.notifyOne, hpop, logAccept]
  | none =>
    simp only [hpop, Prod.mk.injEq] at hexec
    obtain ⟨rfl, rfl⟩ := hexec
    obtain ⟨rfl, hend⟩ := runs_unlockSpin (fun _ _ => rfl) hruns
    refine (congrFun hend _).trans ?_
    simp [waitView, DeferredOps.WaitQueue.notifyOne, hpop, hqueue]

/-- A step of `run_pended_op` of a wait queue. -/
theorem waitQueue_drain {b : Body τ W B} {d : Option (Option Nat)} {x : Choice τ W B} {cs : List (KCode τ W B)}
    (hpos : waitPos w b = some d) (hfits : WaitFits priority c b x) (hexec : exec C c b x = some (c', cs)) :
    Tidy (waitPos w) cs ∧ ∀ k, Relation.ReflTransGen (DeferredOps.waitQueue priority logAccept).Drains
      (waitView w c k, c.notifyCnt w, d)
      (waitView w c' (k ++ accesses cs), c'.notifyCnt w, position (waitPos w) cs) := by
  unfold waitPos at hpos
  split at hpos
  · simp only [Option.ite_none_right_eq_some, Option.some.injEq] at hpos
    obtain ⟨rfl, rfl⟩ := hpos
    simp only [exec, Option.map_eq_some_iff, Content.lockNowOrDie_eq, Prod.mk.injEq] at hexec
    obtain ⟨_, ⟨-, rfl⟩, rfl, rfl⟩ := hexec
    refine ⟨by simp [Tidy, waitPos], fun k => .single ⟨none, rfl, ?_⟩⟩
    simp [DeferredOps.waitQueue, waitView, position, waitPos, accesses]
  · rename_i cnt
    simp only [Option.ite_none_right_eq_some, Option.some.injEq] at hpos
    obtain ⟨rfl, rfl⟩ := hpos
    have hprio : c.priority = priority := hfits
    cases cnt with
    | zero =>
      obtain ⟨rfl, rfl⟩ : c = c' ∧ _ = cs := by simpa [exec] using hexec
      refine ⟨by simp [Tidy, waitPos], fun k => .single ⟨some 0, rfl, ?_⟩⟩
      simp [DeferredOps.waitQueue, waitView, position, waitPos, accesses]
    | succ cnt =>
      simp only [exec, hprio] at hexec
      split at hexec
      · rename_i t rest hpop
        obtain ⟨rfl, rfl⟩ : _ = c' ∧ _ = cs := by simpa using hexec
        refine ⟨by simp [Tidy, waitPos], fun k => .single ⟨some (cnt + 1), rfl, ?_⟩⟩
        simp [DeferredOps.waitQueue, waitView, position, waitPos, accesses, hpop, logAccept]
      · rename_i hpop
        obtain ⟨rfl, rfl⟩ : c = c' ∧ _ = cs := by simpa using hexec
        refine ⟨by simp [Tidy, waitPos], fun k => .single ⟨some (cnt + 1), rfl, ?_⟩⟩
        simp [DeferredOps.waitQueue, waitView, position, waitPos, accesses, hpop]
  · simp only [Option.ite_none_right_eq_some, Option.some.injEq] at hpos
    obtain ⟨rfl, rfl⟩ := hpos
    obtain ⟨rfl, rfl⟩ : _ = c' ∧ [] = cs := by simpa [exec] using hexec
    exact ⟨trivial, fun k => by rw [accesses, List.append_nil]; exact .refl⟩
  · cases hpos

/-- A wait queue of the kernel is the object. -/
theorem waitQueue_implements : Implements (spec (τ := τ) (W := W) (B := B) C) (WaitFits priority) (.waitQueue w)
    notifyOps (DeferredOps.waitQueue priority logAccept) (waitView w) (fun c => c.notifyCnt w) (waitPos w) where
  direct := by
    intro op u c log c' hop hruns k
    cases op with
    | notify => exact waitQueue_notify k hruns
    | _ => cases hop
  pend := by
    intro op u c log c' hop hruns
    cases op with
    | notify =>
      obtain ⟨c₁, x, c₂, ds, hview, -, hexec, hruns⟩ := hruns.of_body
      obtain ⟨rfl, rfl⟩ : _ = c₂ ∧ [] = ds := by simpa [spec, exec] using hexec
      obtain ⟨rfl, hend⟩ := hruns.of_nil
      simp only [Prod.mk.injEq, waitView_eq] at hview hend
      simp [DeferredOps.waitQueue, waitView, hend, hview]
    | _ => cases hop
  enter := ⟨_, rfl, by simp [waitPos, DeferredOps.waitQueue]⟩
  drain := waitQueue_drain

end Wait

-- ---------------------------------------------------------------------------
-- Mailboxes
-- ---------------------------------------------------------------------------

def WaitTask.deferred : WaitTask τ → DeferredOps.WaitTask τ
  | .withTimeout t => .withTimeout t
  | .withoutTimeout t => .withoutTimeout t
  | .noTask => .noTask

omit [DecidableEq τ] in
@[simp] theorem WaitTask.deferred_withTimeout (t : τ) : (WaitTask.withTimeout t).deferred = .withTimeout t := rfl

omit [DecidableEq τ] in
@[simp] theorem WaitTask.deferred_withoutTimeout (t : τ) :
    (WaitTask.withoutTimeout t).deferred = .withoutTimeout t := rfl

omit [DecidableEq τ] in
@[simp] theorem WaitTask.deferred_noTask : (WaitTask.noTask : WaitTask τ).deferred = .noTask := rfl

def mailboxView (m : B) (c : Content τ W B) (k : Log τ W B) : DeferredOps.Mailbox τ (Log τ W B) :=
  ⟨c.count m, (c.waitTask m).deferred, c.taskNotified m, k⟩

/-- A task is to be removed from the sleep queue. -/
def logRemove (k : Log τ W B) (t : τ) : Log τ W B := k ++ [(.sleep, .removeTask t)]

def mailboxPos (m : B) : Body τ W B → Option (Option (DeferredOps.MailboxDrain τ))
  | .swapPendingCount m' => if m' = m then some (some .swapPendingCount) else none
  | .addCount m' n => if m' = m then some (some (.addCount n)) else none
  | .takePended m' => if m' = m then some (some .takeWaitTask) else none
  | .subCount m' timeout => if m' = m then some (some (.subCount timeout)) else none
  | .setNotified m' => if m' = m then some (some .setNotified) else none
  | .unlockSpin (.mailbox m') => if m' = m then some none else none
  | _ => none

/-- `count` does not wrap around. -/
def MailboxFits (m : B) (c : Content τ W B) (b : Body τ W B) (_ : Choice τ W B) : Prop :=
  ∀ timeout, b = .subCount m timeout → c.count m ≠ 0

section Mailbox

variable {m : B} {log : Log τ W B}

omit [DecidableEq τ] [DecidableEq W] [DecidableEq B] in
theorem mailboxView_eq : mailboxView m c' = mailboxView m c ↔ c'.count m = c.count m ∧
    (c'.waitTask m).deferred = (c.waitTask m).deferred ∧ c'.taskNotified m = c.taskNotified m := by
  simp [funext_iff, mailboxView]

/-- `notify` with full access. -/
theorem mailbox_notify (k : Log τ W B)
    (h : Runs (spec C) (MailboxFits m) (mailboxView m) c (fullAccess (.mailbox m) .notify) log c') :
    mailboxView m c' (k ++ log) = (mailboxView m c k).notify logAccept logRemove := by
  obtain ⟨c₁, x, c₂, ds, hview₁, -, hexec, hruns⟩ := h.of_body
  simp only [spec, exec, Option.map_eq_some_iff, Content.lockNowOrDie_eq] at hexec
  obtain ⟨_, ⟨-, rfl⟩, hexec⟩ := hexec
  rw [← congrFun hview₁ k]
  simp only [Content.setSpin, Content.issue] at hexec
  cases hwait : c₁.waitTask m with
  | withTimeout t =>
    simp only [hwait, Prod.mk.injEq] at hexec
    obtain ⟨rfl, rfl⟩ := hexec
    obtain ⟨c₃, rest, hview₃, rfl, hlast⟩ := hruns.of_access
    obtain ⟨c₄, y, c₅, ds, hview₄, -, hexec, hlast⟩ := hlast.of_body
    obtain ⟨rfl, rfl⟩ : _ = c₅ ∧ _ = ds := by simpa [spec, exec] using hexec
    obtain ⟨rfl, hend⟩ := runs_unlockSpin (fun _ _ => rfl) hlast
    obtain ⟨hcount, htask, -⟩ := mailboxView_eq.mp (hview₄.trans hview₃)
    have htask : (c₄.waitTask m).deferred = .noTask := by simpa using htask
    refine (congrFun hend _).trans ?_
    simp [mailboxView, DeferredOps.Mailbox.notify, hwait, logRemove, hcount, htask]
  | withoutTimeout t =>
    simp only [hwait, Prod.mk.injEq] at hexec
    obtain ⟨rfl, rfl⟩ := hexec
    obtain ⟨c₃, rest, hview₃, rfl, hlast⟩ := hruns.of_access
    obtain ⟨rfl, hend⟩ := runs_unlockSpin (fun _ _ => rfl) hlast
    refine (congrFun (hend.trans hview₃) _).trans ?_
    simp [mailboxView, DeferredOps.Mailbox.notify, hwait, logAccept]
  | noTask =>
    simp only [hwait, Prod.mk.injEq] at hexec
    obtain ⟨rfl, rfl⟩ := hexec
    obtain ⟨rfl, hend⟩ := runs_unlockSpin (fun _ _ => rfl) hruns
    refine (congrFun hend _).trans ?_
    simp [mailboxView, DeferredOps.Mailbox.notify, hwait]

/-- A step of `run_pended_op` of a mailbox. -/
theorem mailbox_drain {b : Body τ W B} {d : Option (DeferredOps.MailboxDrain τ)} {x : Choice τ W B}
    {cs : List (KCode τ W B)} (hpos : mailboxPos m b = some d) (hfits : MailboxFits m c b x)
    (hexec : exec C c b x = some (c', cs)) :
    Tidy (mailboxPos m) cs ∧ ∀ k, Relation.ReflTransGen (DeferredOps.mailbox logAccept logRemove).Drains
      (mailboxView m c k, c.pendingCount m, d)
      (mailboxView m c' (k ++ accesses cs), c'.pendingCount m, position (mailboxPos m) cs) := by
  unfold mailboxPos at hpos
  split at hpos <;> simp only [Option.ite_none_right_eq_some, Option.some.injEq, reduceCtorEq] at hpos <;>
    obtain ⟨rfl, rfl⟩ := hpos
  · obtain ⟨rfl, rfl⟩ : _ = c' ∧ _ = cs := by simpa [exec] using hexec
    refine ⟨by simp [Tidy, mailboxPos], fun k => .single ⟨_, rfl, ?_⟩⟩
    simp [DeferredOps.mailbox, mailboxView, position, mailboxPos, accesses]
  · obtain ⟨rfl, rfl⟩ : _ = c' ∧ _ = cs := by simpa [exec] using hexec
    refine ⟨by simp [Tidy, mailboxPos], fun k => .single ⟨_, rfl, ?_⟩⟩
    simp [DeferredOps.mailbox, mailboxView, position, mailboxPos, accesses]
  · rename_i m
    simp only [exec, Option.map_eq_some_iff, Content.lockNowOrDie_eq] at hexec
    obtain ⟨_, ⟨-, rfl⟩, hexec⟩ := hexec
    simp only [Content.setSpin] at hexec
    cases hwait : c.waitTask m with
    | withTimeout t | withoutTimeout t =>
      -- The task is taken in one step and handed on in the next one.
      simp only [hwait, Prod.mk.injEq] at hexec
      obtain ⟨rfl, rfl⟩ := hexec
      refine ⟨by simp [Tidy, mailboxPos], fun k => .trans (.single ⟨_, rfl, rfl⟩) (.single ?_)⟩
      simp [DeferredOps.mailbox, mailboxView, position, mailboxPos, accesses, hwait, Object.Drains, logAccept,
        logRemove]
    | noTask =>
      simp only [hwait, Prod.mk.injEq] at hexec
      obtain ⟨rfl, rfl⟩ := hexec
      refine ⟨by simp [Tidy, mailboxPos], fun k => .single ⟨_, rfl, ?_⟩⟩
      simp [DeferredOps.mailbox, mailboxView, position, mailboxPos, accesses, hwait]
  · rename_i timeout
    have hne : c.count _ ≠ 0 := hfits timeout rfl
    cases timeout <;>
    · obtain ⟨rfl, rfl⟩ : _ = c' ∧ _ = cs := by simpa [exec, hne] using hexec
      refine ⟨by simp [Tidy, mailboxPos], fun k => .single ⟨_, rfl, ?_⟩⟩
      simp [DeferredOps.mailbox, mailboxView, position, mailboxPos, accesses]
  · obtain ⟨rfl, rfl⟩ : _ = c' ∧ _ = cs := by simpa [exec] using hexec
    refine ⟨by simp [Tidy, mailboxPos], fun k => .single ⟨_, rfl, ?_⟩⟩
    simp [DeferredOps.mailbox, mailboxView, position, mailboxPos, accesses]
  · obtain ⟨rfl, rfl⟩ : _ = c' ∧ [] = cs := by simpa [exec] using hexec
    exact ⟨trivial, fun k => by rw [accesses, List.append_nil]; exact .refl⟩

/-- A mailbox of the kernel is the object. -/
theorem mailbox_implements : Implements (spec (τ := τ) (W := W) (B := B) C) (MailboxFits m) (.mailbox m)
    notifyOps (DeferredOps.mailbox logAccept logRemove) (mailboxView m) (fun c => c.pendingCount m)
    (mailboxPos m) where
  direct := by
    intro op u c log c' hop hruns k
    cases op with
    | notify => exact mailbox_notify k hruns
    | _ => cases hop
  pend := by
    intro op u c log c' hop hruns
    cases op with
    | notify =>
      obtain ⟨c₁, x, c₂, ds, hview, -, hexec, hruns⟩ := hruns.of_body
      obtain ⟨rfl, rfl⟩ : _ = c₂ ∧ [] = ds := by simpa [spec, exec] using hexec
      obtain ⟨rfl, hend⟩ := hruns.of_nil
      simp only [Prod.mk.injEq, mailboxView_eq] at hview hend
      simp [DeferredOps.mailbox, mailboxView, hend, hview]
    | _ => cases hop
  enter := ⟨_, rfl, by simp [mailboxPos, DeferredOps.mailbox]⟩
  drain := mailbox_drain

end Mailbox

-- ---------------------------------------------------------------------------
-- Pended operations
-- ---------------------------------------------------------------------------

variable {log : Log τ W B}

/-- `run_pended_op` of the ready queue inserts the tasks in the buffer, as with full access. -/
theorem readyQueue_pended {preempts : τ → Bool} {capacity : Nat}
    (hruns : Runs (spec C) (ReadyFits C preempts capacity) (fun c => (readyView c, c.insertBuffer)) c
      (runPendedOp .ready) log c') :
    readyView c' log = c.insertBuffer.foldl (DeferredOps.ReadyQueue.insertTask preempts) (readyView c []) ∧
      c'.insertBuffer = [] :=
  readyQueue_implements.pended_direct (DeferredOps.readyQueue_faithful preempts capacity) hruns [] (Or.inr trivial)

/-- `run_pended_op` of a wait queue notifies as often as was counted. -/
theorem waitQueue_pended {priority : τ → Nat} {w : W}
    (hruns : Runs (spec C) (WaitFits priority) (fun c => (waitView w c, c.notifyCnt w)) c
      (runPendedOp (.waitQueue w)) log c') :
    waitView w c' log = (DeferredOps.notifications (c.notifyCnt w)).foldl
        (DeferredOps.waitQueue priority logAccept).direct (waitView w c []) ∧ c'.notifyCnt w = 0 := by
  obtain ⟨hview, hnil⟩ := waitQueue_implements.pended_direct (DeferredOps.waitQueue_faithful priority logAccept)
    hruns [] (Or.inr trivial)
  exact ⟨hview, by simpa [DeferredOps.notifications] using hnil⟩

/-- `run_pended_op` of a mailbox notifies as often as was counted. -/
theorem mailbox_pended {m : B} (hidle : c.pendingCount m ≠ 0 ∨ c.waitTask m = .noTask)
    (hruns : Runs (spec C) (MailboxFits m) (fun c => (mailboxView m c, c.pendingCount m)) c
      (runPendedOp (.mailbox m)) log c') :
    mailboxView m c' log = (DeferredOps.notifications (c.pendingCount m)).foldl
        (DeferredOps.mailbox logAccept logRemove).direct (mailboxView m c []) ∧ c'.pendingCount m = 0 := by
  have hstart : DeferredOps.notifications (c.pendingCount m) ≠ [] ∨ (mailboxView m c []).waitTask = .noTask :=
    hidle.imp (fun hne hnil => hne (by simpa [DeferredOps.notifications] using hnil)) fun htask => by
      simp [mailboxView, htask]
  obtain ⟨hview, hnil⟩ := mailbox_implements.pended_direct (DeferredOps.mailbox_faithful logAccept logRemove)
    hruns [] hstart
  exact ⟨hview, by simpa [DeferredOps.notifications] using hnil⟩

end Hopter.Kernel
