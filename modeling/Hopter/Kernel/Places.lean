-- SUMMARY: Where a task is: what the kernel queues, the task states and the code in progress say about it, and how steps move it.
import Hopter.Kernel.Outcome

/-!
# Places of tasks

A task is in one place at a time: on the CPU, in a list, in the insert buffer, in a mailbox,
or in the hands of code that takes it from one place to another. `At` says what is to be seen
of a task that is in a given place. A step of the kernel queues moves one task at most.
-/

namespace Hopter.Kernel

open Exec Hopter.Task Hopter.Time

variable {τ W B : Type} [DecidableEq τ] [DecidableEq W] [DecidableEq B]

/-- Where a task is. -/
inductive Place (W B : Type) where
  /-- Not made yet. -/
  | fresh
  | cpu
  /-- Chosen by `pick_next`. -/
  | chosen
  /-- In the list of the ready queue, the sleep queue or a wait queue. -/
  | list (l : Lock W B)
  | buffer
  /-- In the variant `WithoutTimeout` of a mailbox. -/
  | slot (m : B)
  /-- In the hands of code that puts it into a queue. -/
  | hand
  | gone
  /-- Thrown away by a mailbox. -/
  | lost
  deriving DecidableEq

def Place.isList : Place W B → Bool
  | .list _ => true
  | _ => false

/-- The states that a task has in a place. (A task in the sleep queue is never `initializing`,
but this is not needed.) -/
def Place.allows : Place W B → TaskState → Bool
  | .fresh, .initializing | .cpu, .running | .chosen, .running | .list .ready, .ready
  | .list .sleep, .blocked | .list .sleep, .initializing | .list (.waitQueue _), .blocked | .buffer, .blocked
  | .buffer, .initializing | .slot _, .blocked | .hand, .blocked | .hand, .initializing
  | .gone, .destructing | .lost, .blocked => true
  | _, _ => false

/-- The places that a task is taken out of in order to be put into a queue. -/
def Place.waits : Place W B → Bool
  | .fresh | .list .sleep | .list (.waitQueue _) | .buffer | .slot _ | .hand => true
  | _ => false

omit [DecidableEq W] [DecidableEq B] in
theorem Place.allows_hand {p : Place W B} {st : TaskState} (hp : p.waits = true) (h : p.allows st = true) :
    (Place.hand : Place W B).allows st = true := by
  rcases p with _ | _ | _ | l | _ | _ | _ | _ | _ <;> try cases l
  all_goals cases st <;> first | rfl | (cases h; done) | cases hp

omit [DecidableEq W] [DecidableEq B] in
theorem Place.allows_buffer {p : Place W B} {st : TaskState} (hp : p = .fresh ∨ p = .hand)
    (h : p.allows st = true) : (Place.buffer : Place W B).allows st = true := by
  rcases hp with rfl | rfl <;> cases st <;> first | rfl | cases h

omit [DecidableEq W] [DecidableEq B] in
theorem Place.allows_sleep {st : TaskState} (h : (Place.hand : Place W B).allows st = true) :
    (Place.list .sleep : Place W B).allows st = true := by
  cases st <;> first | rfl | cases h

omit [DecidableEq W] [DecidableEq B] in
theorem Place.allows_cpu {st : TaskState} (h : (Place.chosen : Place W B).allows st = true) :
    (Place.cpu : Place W B).allows st = true := by
  cases st <;> first | rfl | cases h

omit [DecidableEq W] [DecidableEq B] in
theorem Place.allows_gone {st : TaskState} (h : (Place.gone : Place W B).allows st = true) : st = .destructing := by
  cases st <;> first | rfl | cases h

omit [DecidableEq W] [DecidableEq B] in
theorem Place.allows_ready {p : Place W B} (h : p.allows .ready = true) : p = .list .ready := by
  rcases p with _ | _ | _ | l | _ | _ | _ | _ | _ <;> try cases l
  all_goals first | rfl | cases h

/-- How often a task that is in the place `p` is in the place `q`. -/
def Place.count (p q : Place W B) : Nat := if p = q then 1 else 0

@[simp] theorem Place.count_self (p : Place W B) : p.count p = 1 := if_pos rfl

/-- The linked lists. A mailbox has none. -/
def Content.list (c : Content τ W B) : Lock W B → List τ
  | .ready => c.readyLinkedList
  | .sleep => c.timeSortedQueue
  | .waitQueue w => c.queue w
  | .mailbox _ => []

/-- The task that a step takes to a queue. -/
def Body.carried : Body τ W B → Option τ
  | .checkPreempt t | .pushReady t | .enqueue t | .pushPended t | .pushSorted t _ | .deadline _ t _ => some t
  | _ => none

/-- The task that an access takes to a queue. -/
def Op.carried : Op τ → Option τ
  | .acceptTask t | .addTask t _ => some t
  | _ => none

def carried : Instr (Lock W B) (Op τ) (Body τ W B) → Option τ
  | .code (.body b) => b.carried
  | .code (.access _ _ op) | .guard _ _ op => op.carried
  | _ => none

def Body.picked : Body τ W B → Option τ
  | .updateCurTask t => some t
  | _ => none

/-- The task that `pick_next` has chosen. -/
def picked : Instr (Lock W B) (Op τ) (Body τ W B) → Option τ
  | .code (.body b) => b.picked
  | _ => none

/-- The tasks in the hands of code. -/
def codeCarried (cs : List (KCode τ W B)) : List τ := cs.filterMap fun d => carried (.code d)

def codePicked (cs : List (KCode τ W B)) : List τ := cs.filterMap fun d => picked (.code d)

/-- The task `t` is in the place `p`. The lists `hands` and `picks` are the tasks in the hands
of the code that is in progress. -/
structure At (c : Content τ W B) (hands picks : List τ) (t : τ) (p : Place W B) : Prop where
  list : ∀ l, (c.list l).count t = p.count (.list l)
  buffer : c.insertBuffer.count t = p.count .buffer
  slot : ∀ m, c.waitTask m = .withoutTimeout t ↔ p = .slot m
  hand : hands.count t = p.count .hand
  chosen : picks.count t = p.count .chosen
  spawned : c.spawned t = true ↔ p ≠ .fresh
  linked : c.linked t = p.isList
  state : p.allows (c.state t) = true

section Facts

variable {c : Content τ W B} {hands picks : List τ} {t : τ} {p : Place W B}

theorem Place.count_pos {q : Place W B} : 0 < p.count q ↔ p = q := by
  unfold Place.count
  split <;> simp [*]

theorem At.eq_list {l : Lock W B} (h : At c hands picks t p) (ht : t ∈ c.list l) : p = .list l := by
  rw [← Place.count_pos, ← h.list l]
  exact List.count_pos_iff.mpr ht

theorem At.eq_buffer (h : At c hands picks t p) (ht : t ∈ c.insertBuffer) : p = .buffer := by
  rw [← Place.count_pos, ← h.buffer]
  exact List.count_pos_iff.mpr ht

theorem At.eq_hand (h : At c hands picks t p) (ht : t ∈ hands) : p = .hand := by
  rw [← Place.count_pos, ← h.hand]
  exact List.count_pos_iff.mpr ht

theorem At.eq_chosen (h : At c hands picks t p) (ht : t ∈ picks) : p = .chosen := by
  rw [← Place.count_pos, ← h.chosen]
  exact List.count_pos_iff.mpr ht

theorem At.eq_fresh (h : At c hands picks t p) (ht : c.spawned t = false) : p = .fresh := by
  by_contra hne
  exact absurd (h.spawned.mpr hne) (by simp [ht])

theorem At.eq_slot {m : B} (h : At c hands picks t p) (ht : c.waitTask m = .withoutTimeout t) : p = .slot m :=
  (h.slot m).mp ht

theorem At.eq_cpu (h : At c hands picks t p) (ht : c.state t = .running) (hnot : t ∉ picks) : p = .cpu := by
  have hstate := h.state
  rw [ht] at hstate
  cases p with
  | cpu => rfl
  | chosen =>
    have hcount := h.chosen
    rw [List.count_eq_zero_of_not_mem hnot] at hcount
    exact absurd hcount (by simp)
  | list l => cases l <;> cases hstate
  | _ => cases hstate

end Facts

-- ---------------------------------------------------------------------------
-- Steps
-- ---------------------------------------------------------------------------

section Steps

variable {C : Config} {c c' : Content τ W B} {b : Body τ W B} {cs : List (KCode τ W B)}
  {hands picks : List τ} {t u : τ} {p : Place W B}

omit [DecidableEq τ] [DecidableEq W] [DecidableEq B] in
@[simp] theorem Content.list_ready : c.list .ready = c.readyLinkedList := rfl

omit [DecidableEq τ] [DecidableEq W] [DecidableEq B] in
@[simp] theorem Content.list_sleep : c.list .sleep = c.timeSortedQueue := rfl

omit [DecidableEq τ] [DecidableEq W] [DecidableEq B] in
@[simp] theorem Content.list_waitQueue (w : W) : c.list (.waitQueue w) = c.queue w := rfl

omit [DecidableEq τ] [DecidableEq W] [DecidableEq B] in
@[simp] theorem Content.list_mailbox (m : B) : c.list (.mailbox m) = [] := rfl

omit [DecidableEq τ] in
theorem popHighestPriority_perm {priority : τ → Nat} {l rest : List τ}
    (h : popHighestPriority priority l = some (t, rest)) : l.Perm (t :: rest) := by
  rcases popHighestPriority_cases priority l with ⟨-, hnone⟩ | ⟨u, rest', hpop, hperm⟩
  · rw [hnone] at h
    exact absurd h (by simp)
  · obtain ⟨rfl, rfl⟩ : t = u ∧ rest = rest' := by simpa [h] using hpop
    exact hperm

/-- The step does not move the task. -/
structure Same (c c' : Content τ W B) (b : Body τ W B) (cs : List (KCode τ W B)) (u : τ) : Prop where
  list : ∀ l, (c'.list l).count u = (c.list l).count u
  buffer : c'.insertBuffer.count u = c.insertBuffer.count u
  slot : ∀ m, c'.waitTask m = .withoutTimeout u ↔ c.waitTask m = .withoutTimeout u
  hand : (codeCarried cs).count u = b.carried.toList.count u
  chosen : (codePicked cs).count u = b.picked.toList.count u
  spawned : c'.spawned u = c.spawned u
  linked : c'.linked u = c.linked u
  state : c'.state u = c.state u

theorem Same.at (h : Same c c' b cs u) (hat : At c (b.carried.toList ++ hands) (b.picked.toList ++ picks) u p) :
    At c' (codeCarried cs ++ hands) (codePicked cs ++ picks) u p where
  list l := (h.list l).trans (hat.list l)
  buffer := h.buffer.trans hat.buffer
  slot m := (h.slot m).trans (hat.slot m)
  hand := by
    rw [← hat.hand, List.count_append, List.count_append, h.hand]
  chosen := by
    rw [← hat.chosen, List.count_append, List.count_append, h.chosen]
  spawned := by
    rw [h.spawned]
    exact hat.spawned
  linked := by
    rw [h.linked]
    exact hat.linked
  state := by
    rw [h.state]
    exact hat.state

/-- The task that the step may move. -/
def Content.moved (c : Content τ W B) : Body τ W B → Option τ
  | .cleanUp | .pushWait _ | .checkCondition _ | .checkCount _ | .checkCountTimeout _ _ | .addCurTask _
  | .dropCurrentTask => some c.cur
  | .popNext => (popHighestPriority c.priority c.readyLinkedList).map Prod.fst
  | .updateCurTask t | .acceptNew t | .pushReady t | .enqueue t | .enqueueNew t | .pushPended t
  | .pushSorted t _ | .remove t => some t
  | .dequeue => c.insertBuffer.head?
  | .wakeLoop _ _ => c.timeSortedQueue.head?
  | .deleteLoop _ _ => c.deleteBuffer.head?
  | .popNotify w | .popNotified w _ => (popHighestPriority c.priority (c.queue w)).map Prod.fst
  | .takeResult m | .takeWaiter m | .takePended m =>
    match c.waitTask m with
    | .withoutTimeout t => some t
    | _ => none
  | _ => none

/-- `wait_until_timeout` does not throw away a task that waits without a timeout. -/
def Body.Clears (c : Content τ W B) : Body τ W B → Prop
  | .takeResult m => ∀ t, c.waitTask m ≠ .withoutTimeout t
  | _ => True

theorem Outcome.same (h : Outcome C c b c' cs) (hu : c.moved b ≠ some u) :
    Same c c' b cs u := by
  have hmoved : ∀ t, c.moved b = some t → t ≠ u ∧ u ≠ t := by
    rintro t ht
    rw [ht] at hu
    exact ⟨fun heq => hu (by rw [heq]), fun heq => hu (by rw [heq])⟩
  cases h with
  | cleanUpRunning _ _ _ =>
    obtain ⟨hne, hne'⟩ := hmoved _ rfl
    exact ⟨fun l => by cases l <;> simp [hne], rfl, fun m => Iff.rfl, rfl, rfl, rfl, by simp [hne'],
      by simp [hne']⟩
  | @popNext t rest hpop =>
    obtain ⟨hne, hne'⟩ := hmoved t (by simp only [Content.moved, hpop, Option.map_some])
    have hperm := popHighestPriority_perm hpop
    exact ⟨fun l => by cases l <;> simp [hperm.count_eq, hne], rfl, fun m => Iff.rfl, rfl,
      by simp [codePicked, picked, Body.picked, hne], rfl, by simp [hne'], by simp [hne']⟩
  | updateCurTask =>
    obtain ⟨hne, -⟩ := hmoved _ rfl
    exact ⟨fun l => by cases l <;> rfl, rfl, fun m => Iff.rfl, rfl,
      by simp [codePicked, picked, Body.picked, hne], rfl, rfl, rfl⟩
  | acceptNew _ =>
    obtain ⟨hne, hne'⟩ := hmoved _ rfl
    exact ⟨fun l => by cases l <;> rfl, rfl, fun m => Iff.rfl,
      by simp [codeCarried, carried, Body.carried, hne], rfl, by simp [hne'], rfl, rfl⟩
  | pushReady _ _ =>
    obtain ⟨hne, hne'⟩ := hmoved _ rfl
    exact ⟨fun l => by cases l <;> simp [hne], rfl, fun m => Iff.rfl,
      by simp [codeCarried, carried, Body.carried, hne], rfl, rfl, by simp [hne'], by simp [hne']⟩
  | enqueue =>
    obtain ⟨hne, -⟩ := hmoved _ rfl
    exact ⟨fun l => by cases l <;> rfl, by simp [hne], fun m => Iff.rfl,
      by simp [codeCarried, Body.carried, hne], rfl, rfl, rfl, rfl⟩
  | enqueueNew _ =>
    obtain ⟨hne, hne'⟩ := hmoved _ rfl
    exact ⟨fun l => by cases l <;> rfl, by simp [hne], fun m => Iff.rfl, rfl, rfl, by simp [hne'], rfl, rfl⟩
  | @dequeue t rest hbuffer =>
    obtain ⟨hne, -⟩ := hmoved t (by simp only [Content.moved, hbuffer, List.head?_cons])
    exact ⟨fun l => by cases l <;> rfl, by simp [hbuffer, hne], fun m => Iff.rfl,
      by simp [codeCarried, carried, Body.carried, hne], rfl, rfl, rfl, rfl⟩
  | pushPended _ =>
    obtain ⟨hne, hne'⟩ := hmoved _ rfl
    exact ⟨fun l => by cases l <;> simp [hne], rfl, fun m => Iff.rfl,
      by simp [codeCarried, carried, Body.carried, hne], rfl, rfl, by simp [hne'], by simp [hne']⟩
  | @wake now timeout t rest hqueue _ =>
    obtain ⟨hne, hne'⟩ := hmoved t (by simp only [Content.moved, hqueue, List.head?_cons])
    exact ⟨fun l => by cases l <;> simp [hqueue, hne], rfl, fun m => Iff.rfl,
      by simp [codeCarried, carried, Op.carried, Body.carried, hne], rfl, rfl, by simp [hne'], rfl⟩
  | @delete now timeout t rest hbuffer _ =>
    obtain ⟨hne, hne'⟩ := hmoved t (by simp only [Content.moved, hbuffer, List.head?_cons])
    exact ⟨fun l => by cases l <;> simp [List.count_erase_of_ne hne'], rfl, fun m => Iff.rfl,
      by simp [codeCarried, carried, Op.carried, Body.carried, hne], rfl, rfl, by simp [hne'], rfl⟩
  | @pushSorted t due _ _ =>
    obtain ⟨hne, hne'⟩ := hmoved _ rfl
    have hperm := pushBackTickSorted_perm (fun u => Tick.of (Function.update c.due t due u)) t c.timeSortedQueue
    exact ⟨fun l => by cases l <;> simp [hperm.count_eq, hne], rfl, fun m => Iff.rfl,
      by simp [codeCarried, carried, Body.carried, hne], rfl, rfl, by simp [hne'], rfl⟩
  | remove _ _ =>
    obtain ⟨hne, hne'⟩ := hmoved _ rfl
    exact ⟨fun l => by cases l <;> simp [List.count_erase_of_ne hne'], rfl, fun m => Iff.rfl,
      by simp [codeCarried, carried, Op.carried, Body.carried, hne], rfl, rfl, by simp [hne'], rfl⟩
  | @pushWait w _ _ | @conditionNotMet w _ _ =>
    obtain ⟨hne, hne'⟩ := hmoved _ rfl
    refine ⟨fun l => ?_, by simp, fun m => by simp, rfl, rfl, by simp, by simp [hne'], by simp [hne']⟩
    cases l with
    | waitQueue w' => by_cases hw : w' = w <;> simp [hw, hne]
    | _ => simp
  | @popNotify w t rest _ hpop | @popNotified w n t rest hpop =>
    obtain ⟨hne, hne'⟩ := hmoved t (by simp only [Content.moved, hpop, Option.map_some])
    have hperm := popHighestPriority_perm hpop
    refine ⟨fun l => ?_, by simp, fun m => by simp,
      by simp [codeCarried, carried, Op.carried, Body.carried, hne], rfl, by simp, by simp [hne'], by simp⟩
    cases l with
    | waitQueue w' => by_cases hw : w' = w <;> simp [hw, hperm.count_eq, hne]
    | _ => simp
  | @block m hspin hwait _ =>
    obtain ⟨hne, hne'⟩ := hmoved _ rfl
    refine ⟨fun l => by cases l <;> simp, by simp, fun m' => ?_, rfl, rfl, by simp, by simp, by simp [hne']⟩
    by_cases hm : m' = m <;> simp [hm, hwait, hne]
  | @blockTimeout m ms hspin hwait _ =>
    obtain ⟨hne, hne'⟩ := hmoved _ rfl
    refine ⟨fun l => by cases l <;> simp, by simp, fun m' => ?_,
      by simp [codeCarried, carried, Body.carried, hne], rfl, by simp, by simp, by simp [hne']⟩
    by_cases hm : m' = m <;> simp [hm, hwait]
  | @notifyWaiter m t _ hwait | @pendedWaiter m t _ hwait =>
    obtain ⟨hne, hne'⟩ := hmoved t (by simp only [Content.moved, hwait])
    refine ⟨fun l => by cases l <;> simp, by simp, fun m' => ?_,
      by simp [codeCarried, carried, Op.carried, Body.carried, hne], rfl, by simp, by simp, by simp⟩
    by_cases hm : m' = m <;> simp [hm, hwait, hne]
  | addCurTask =>
    obtain ⟨hne, hne'⟩ := hmoved _ rfl
    exact ⟨fun l => by cases l <;> rfl, rfl, fun m => Iff.rfl,
      by simp [codeCarried, carried, Op.carried, Body.carried, hne], rfl, rfl, rfl, by simp [hne']⟩
  | dropCurrentTask =>
    obtain ⟨hne, hne'⟩ := hmoved _ rfl
    exact ⟨fun l => by cases l <;> rfl, rfl, fun m => Iff.rfl, rfl, rfl, rfl, rfl, by simp [hne']⟩
  | @takeNotified m _ _ | @takeTimeout m _ _ =>
    refine ⟨fun l => by cases l <;> simp, by simp, fun m' => ?_, rfl, rfl, by simp, by simp, by simp⟩
    by_cases hm : m' = m
    · subst hm
      have hwait : c.waitTask m' ≠ .withoutTimeout u := by
        intro hwait
        simp [Content.moved, hwait] at hu
      simp [hwait]
    · simp [hm]
  | @notifyTimeout m t _ hwait | @pendedTimeout m t _ hwait =>
    refine ⟨fun l => by cases l <;> simp, by simp, fun m' => ?_, rfl, rfl, by simp, by simp, by simp⟩
    by_cases hm : m' = m <;> simp [hm, hwait]
  | @subCount m timeout => cases timeout <;> exact ⟨fun l => by cases l <;> rfl, rfl, fun m => Iff.rfl, rfl, rfl, rfl, rfl, rfl⟩
  | app call =>
    cases call <;> exact ⟨fun l => by cases l <;> rfl, rfl, fun m => Iff.rfl, rfl, rfl, rfl, rfl, rfl⟩
  | _ =>
    exact ⟨fun l => by cases l <;> simp, by simp, fun m => by simp, rfl, rfl, by simp, by simp, by simp⟩

theorem At.ready (h : At c hands picks t p) : c.readyLinkedList.count t = p.count (.list .ready) := h.list .ready

theorem At.sleep (h : At c hands picks t p) : c.timeSortedQueue.count t = p.count (.list .sleep) := h.list .sleep

theorem At.queue (h : At c hands picks t p) (w : W) : (c.queue w).count t = p.count (.list (.waitQueue w)) :=
  h.list (.waitQueue w)

/-- The place of a task that runs or may be chosen to. -/
def Place.runs : Place W B → Bool
  | .cpu | .chosen | .list .ready => true
  | _ => false

/-- The step takes the current task off the CPU, but for a context switch. -/
def Body.blocks : Body τ W B → Bool
  | .pushWait _ | .checkCondition _ | .checkCount _ | .checkCountTimeout _ _ | .addCurTask _
  | .dropCurrentTask => true
  | _ => false

theorem Outcome.shouldBlock_eq (h : Outcome C c b c' cs) (hb : b.blocks = false) :
    c'.shouldBlock = c.shouldBlock := by
  cases h with
  | conditionMet | conditionNotMet | count | block | countTimeout | blockTimeout => cases hb
  | _ => simp

/-- Steps that take the current task off the CPU. -/
def Body.leavesCpu (b : Body τ W B) : Bool := b.blocks || b == .cleanUp

/-- Where a task gets by a step. -/
structure Goes (c : Content τ W B) (b : Body τ W B) (u : τ) (p p' : Place W B) : Prop where
  cpu : p' = .cpu → p = .cpu ∨ b = .updateCurTask u
  stays : p = .cpu → p' = .cpu ∨ b.leavesCpu = true
  runs : p.runs = true → p'.runs = true ∨ u = c.cur ∧ b.blocks = true
  lost : p' = .lost → p = .lost ∨ ¬ b.Clears c

/-- A task that the step does not move. -/
theorem Same.goes (h : Same c c' b cs u) (hat : At c (b.carried.toList ++ hands) (b.picked.toList ++ picks) u p) :
    ∃ p', At c' (codeCarried cs ++ hands) (codePicked cs ++ picks) u p' ∧ Goes c b u p p' :=
  ⟨p, h.at hat, Or.inl, Or.inl, Or.inl, Or.inl⟩

/-- A task that is taken out of everything is in the hands of the code that goes on. -/
theorem At.toHand (hat : At c hands picks u p) (hp : p ≠ .hand) (hp' : p ≠ .chosen)
    (hlist : ∀ l, u ∉ c'.list l) (hbuffer : u ∉ c'.insertBuffer)
    (hslot : ∀ m, c'.waitTask m ≠ .withoutTimeout u) (hspawned : c'.spawned u = true)
    (hlinked : c'.linked u = false) (hstate : (Place.hand : Place W B).allows (c'.state u) = true) :
    At c' (u :: hands) picks u .hand where
  list l := List.count_eq_zero_of_not_mem (hlist l)
  buffer := List.count_eq_zero_of_not_mem hbuffer
  slot m := ⟨fun h => absurd h (hslot m), nofun⟩
  hand := by
    have := hat.hand
    simp_all [Place.count]
  chosen := by
    have := hat.chosen
    simp_all [Place.count]
  spawned := by simp [hspawned]
  linked := hlinked
  state := hstate

/-- A task in the hands of code is put into a list. -/
theorem At.toList {l : Lock W B} (hat : At c (u :: hands) picks u .hand) (hl : (c'.list l).count u = 1)
    (hlist : ∀ l', l' ≠ l → c'.list l' = c.list l') (hbuffer : c'.insertBuffer = c.insertBuffer)
    (hwait : c'.waitTask = c.waitTask) (hspawned : c'.spawned = c.spawned) (hlinked : c'.linked u = true)
    (hstate : (Place.list l).allows (c'.state u) = true) : At c' hands picks u (.list l) where
  list l' := by
    by_cases h : l' = l
    · subst h
      simp [hl]
    · have hne : ¬ l = l' := fun heq => h heq.symm
      rw [hlist l' h, hat.list l']
      simp [Place.count, hne]
  buffer := by
    rw [hbuffer, hat.buffer]
    rfl
  slot m := by
    rw [hwait, hat.slot m]
    simp
  hand := by
    have := hat.hand
    simp_all [Place.count]
  chosen := by
    rw [hat.chosen]
    rfl
  spawned := by
    rw [hspawned, hat.spawned]
    simp
  linked := hlinked
  state := hstate

/-- What is to be seen of a task on the CPU. -/
theorem At.cpu_facts (hat : At c hands picks u .cpu) : (∀ l, u ∉ c.list l) ∧ u ∉ c.insertBuffer ∧
    (∀ m, c.waitTask m ≠ .withoutTimeout u) ∧ c.spawned u = true ∧ c.linked u = false :=
  ⟨fun l hu => absurd (hat.eq_list hu) (by simp), fun hu => absurd (hat.eq_buffer hu) (by simp),
    fun m hu => absurd (hat.eq_slot hu) (by simp), hat.spawned.mpr (by simp), hat.linked⟩

/-- A task is taken out of a list, and is in the hands of the code that goes on. -/
theorem At.ofList {l : Lock W B} (hat : At c hands picks u (.list l)) (hl : l ≠ .ready) (hnot : u ∉ c'.list l)
    (hlist : ∀ l', l' ≠ l → c'.list l' = c.list l') (hbuffer : c'.insertBuffer = c.insertBuffer)
    (hwait : c'.waitTask = c.waitTask) (hspawned : c'.spawned = c.spawned) (hlinked : c'.linked u = false)
    (hstate : c'.state = c.state) : At c' (u :: hands) picks u .hand := by
  have hwaits : (Place.list l).waits = true := by
    cases l with
    | ready => exact absurd rfl hl
    | mailbox m => exact absurd hat.state (by simp [Place.allows])
    | _ => rfl
  refine hat.toHand (by simp) (by simp) (fun l' hu => ?_) (fun hu => ?_) (fun m hm => ?_) ?_ hlinked ?_
  · by_cases h : l' = l
    · subst h
      exact hnot hu
    · rw [hlist l' h] at hu
      exact h (by simpa using (hat.eq_list hu).symm)
  · rw [hbuffer] at hu
    exact absurd (hat.eq_buffer hu) (by simp)
  · rw [hwait] at hm
    exact absurd (hat.eq_slot hm) (by simp)
  · rw [hspawned]
    exact hat.spawned.mpr (by simp)
  · rw [hstate]
    exact Place.allows_hand hwaits hat.state

theorem At.not_mem_erase {l : Lock W B} (hat : At c hands picks u (.list l)) : u ∉ (c.list l).erase u := by
  rw [← List.count_eq_zero, List.count_erase_self, hat.list l, Place.count_self]

/-- Steps that leave the current task on the CPU, or switch tasks. -/
theorem Outcome.goes_on (h : Outcome C c b c' cs) (hblocks : b.blocks = false) (hu : c.moved b = some u)
    (hpicks : b.leavesCpu = true → picks = [])
    (hat : At c (b.carried.toList ++ hands) (b.picked.toList ++ picks) u p) :
    ∃ p', At c' (codeCarried cs ++ hands) (codePicked cs ++ picks) u p' ∧ Goes c b u p p' := by
  cases h with
  | cleanUpRunning _ hstate _ =>
    obtain rfl : c.cur = u := Option.some.inj hu
    have hnil := hpicks rfl
    obtain rfl := hat.eq_cpu hstate (by simp [hnil, Body.picked])
    refine ⟨.list .ready, ⟨fun l => ?_, by simp [hat.buffer, Place.count], fun m => by simp [hat.slot],
      ?_, ?_, by simp [hat.spawned], by simp [Place.isList], by simp [Place.allows]⟩, by simp, fun _ => Or.inr rfl,
      by simp [Place.runs], by simp⟩
    · cases l <;> simp [hat.ready, hat.sleep, hat.queue, Place.count]
    · exact hat.hand
    · exact hat.chosen
  | @popNext t rest hpop =>
    obtain rfl : t = u := by simpa [Content.moved, hpop] using hu
    have hperm := popHighestPriority_perm hpop
    obtain rfl : p = .list .ready := hat.eq_list (hperm.mem_iff.mpr (List.mem_cons_self ..))
    have hrest : rest.count t = 0 := by
      have := hat.ready
      rw [hperm.count_eq] at this
      simpa using this
    refine ⟨.chosen, ⟨fun l => ?_, by simp [hat.buffer, Place.count], fun m => by simp [hat.slot],
      ?_, ?_, by simp [hat.spawned], by simp [Place.isList], by simp [Place.allows]⟩, by simp, by simp, by simp [Place.runs], by simp⟩
    · cases l <;> simp [hrest, hat.sleep, hat.queue, Place.count]
    · exact hat.hand
    · have := hat.chosen
      simp [codePicked, picked, Body.picked, Place.count] at this ⊢
      exact this
  | updateCurTask =>
    obtain rfl := Option.some.inj hu
    obtain rfl := hat.eq_chosen (by simp [Body.picked])
    refine ⟨.cpu, ⟨fun l => ?_, by simp [hat.buffer, Place.count], fun m => by simp [hat.slot],
      ?_, ?_, by simp [hat.spawned], by simp [hat.linked, Place.isList], Place.allows_cpu hat.state⟩, by simp, by simp,
      by simp [Place.runs], by simp⟩
    · cases l <;> simp [hat.ready, hat.sleep, hat.queue, Place.count]
    · exact hat.hand
    · have := hat.chosen
      simp [codePicked, picked, Body.picked, Place.count] at this ⊢
      exact this
  | acceptNew hnew =>
    obtain rfl := Option.some.inj hu
    obtain rfl := hat.eq_fresh hnew
    refine ⟨.hand, hat.toHand (by simp) (by simp) (fun l hl => ?_) (fun hbuffer => ?_) (fun m hm => ?_)
      (by simp) hat.linked (Place.allows_hand rfl hat.state), by simp, by simp, by simp [Place.runs], by simp⟩
    · exact absurd (hat.eq_list (l := l) (by cases l <;> exact hl)) (by simp)
    · exact absurd (hat.eq_buffer hbuffer) (by simp)
    · exact absurd (hat.eq_slot hm) (by simp)
  | pushReady _ _ =>
    obtain rfl := Option.some.inj hu
    obtain rfl := hat.eq_hand (by simp [Body.carried])
    refine ⟨_, hat.toList (l := .ready) ?_ (fun l hl => ?_) rfl rfl rfl (by simp) (by simp [Place.allows]),
      by simp, by simp, by simp [Place.runs], by simp⟩
    · simp [hat.ready, Place.count]
    · cases l <;> first | rfl | exact absurd rfl hl
  | enqueue =>
    obtain rfl := Option.some.inj hu
    obtain rfl := hat.eq_hand (by simp [Body.carried])
    refine ⟨.buffer, ⟨fun l => ?_, by simp [hat.buffer, Place.count], fun m => by simp [hat.slot],
      ?_, ?_, by simp [hat.spawned], by simp [hat.linked, Place.isList],
      Place.allows_buffer (Or.inr rfl) hat.state⟩, by simp, by simp, by simp [Place.runs], by simp⟩
    · cases l <;> simp [hat.ready, hat.sleep, hat.queue, Place.count]
    · have := hat.hand
      simp [codeCarried, Body.carried, Place.count] at this ⊢
      exact this
    · exact hat.chosen
  | enqueueNew hnew =>
    obtain rfl := Option.some.inj hu
    obtain rfl := hat.eq_fresh hnew
    refine ⟨.buffer, ⟨fun l => ?_, by simp [hat.buffer, Place.count], fun m => by simp [hat.slot],
      ?_, ?_, by simp, by simp [hat.linked, Place.isList], Place.allows_buffer (Or.inl rfl) hat.state⟩,
      by simp, by simp, by simp [Place.runs], by simp⟩
    · cases l <;> simp [hat.ready, hat.sleep, hat.queue, Place.count]
    · exact hat.hand
    · exact hat.chosen
  | @dequeue t rest hbuffer =>
    obtain rfl : t = u := by simpa [Content.moved, hbuffer] using hu
    obtain rfl : p = .buffer := hat.eq_buffer (by simp [hbuffer])
    have hrest : t ∉ rest := by
      have := hat.buffer
      simpa [hbuffer, Place.count, List.count_eq_zero] using this
    refine ⟨.hand, hat.toHand (by simp) (by simp) (fun l hl => ?_) hrest (fun m hm => ?_)
      (hat.spawned.mpr (by simp)) hat.linked (Place.allows_hand rfl hat.state), by simp, by simp, by simp [Place.runs], by simp⟩
    · exact absurd (hat.eq_list (l := l) (by cases l <;> exact hl)) (by simp)
    · exact absurd (hat.eq_slot hm) (by simp)
  | pushPended _ =>
    obtain rfl := Option.some.inj hu
    obtain rfl := hat.eq_hand (by simp [Body.carried])
    refine ⟨_, hat.toList (l := .ready) ?_ (fun l hl => ?_) rfl rfl rfl (by simp) (by simp [Place.allows]),
      by simp, by simp, by simp [Place.runs], by simp⟩
    · simp [hat.ready, Place.count]
    · cases l <;> first | rfl | exact absurd rfl hl
  | @wake now timeout t rest hqueue _ =>
    obtain rfl : t = u := by simpa [Content.moved, hqueue] using hu
    obtain rfl : p = .list .sleep := hat.eq_list (by simp [hqueue])
    have hrest : t ∉ rest := by
      have := hat.sleep
      simpa [hqueue, Place.count, List.count_eq_zero] using this
    refine ⟨.hand, hat.ofList (by simp) hrest (fun l hl => ?_) rfl rfl rfl (by simp) rfl, by simp, by simp,
      by simp [Place.runs], by simp⟩
    cases l <;> first | rfl | exact absurd rfl hl
  | @delete now timeout t rest hbuffer hmem =>
    obtain rfl : t = u := by simpa [Content.moved, hbuffer] using hu
    obtain rfl : p = .list .sleep := hat.eq_list hmem
    refine ⟨.hand, hat.ofList (by simp) hat.not_mem_erase (fun l hl => ?_) rfl rfl rfl (by simp) rfl, by simp, by simp,
      by simp [Place.runs], by simp⟩
    cases l <;> first | rfl | exact absurd rfl hl
  | @pushSorted t due _ _ =>
    obtain rfl := Option.some.inj hu
    obtain rfl := hat.eq_hand (by simp [Body.carried])
    have hperm := pushBackTickSorted_perm (fun u => Tick.of (Function.update c.due t due u)) t c.timeSortedQueue
    refine ⟨_, hat.toList (l := .sleep) ?_ (fun l hl => ?_) rfl rfl rfl (by simp) (Place.allows_sleep hat.state),
      by simp, by simp, by simp [Place.runs], by simp⟩
    · simp [hperm.count_eq, hat.sleep, Place.count]
    · cases l <;> first | rfl | exact absurd rfl hl
  | @remove t _ hmem =>
    obtain rfl := Option.some.inj hu
    obtain rfl : p = .list .sleep := hat.eq_list hmem
    refine ⟨.hand, hat.ofList (by simp) hat.not_mem_erase (fun l hl => ?_) rfl rfl rfl (by simp) rfl, by simp, by simp,
      by simp [Place.runs], by simp⟩
    cases l <;> first | rfl | exact absurd rfl hl
  | @popNotify w t rest _ hpop | @popNotified w n t rest hpop =>
    obtain rfl : t = u := by simpa [Content.moved, hpop] using hu
    have hperm := popHighestPriority_perm hpop
    obtain rfl : p = .list (.waitQueue w) := hat.eq_list (hperm.mem_iff.mpr (List.mem_cons_self ..))
    have hrest : t ∉ rest := by
      have := hat.queue w
      rw [hperm.count_eq] at this
      simpa [List.count_eq_zero] using this
    refine ⟨.hand, hat.ofList (by simp) (by simpa using hrest) (fun l hl => ?_) (by simp) (by simp) (by simp)
      (by simp) (by simp), by simp, by simp, by simp [Place.runs], by simp⟩
    cases l with
    | waitQueue w' =>
      have hw : w' ≠ w := fun heq => hl (by rw [heq])
      simp [hw]
    | _ => simp
  | @notifyWaiter m t _ hwait | @pendedWaiter m t _ hwait =>
    obtain rfl : t = u := by simpa [Content.moved, hwait] using hu
    obtain rfl := hat.eq_slot hwait
    refine ⟨.hand, hat.toHand (by simp) (by simp) (fun l hl => ?_) (fun hbuffer => ?_) (fun m' hm => ?_)
      (hat.spawned.mpr (by simp)) (by simpa [Place.isList] using hat.linked)
      (Place.allows_hand rfl hat.state), by simp, by simp,
      by simp [Place.runs], by simp⟩
    · exact absurd (hat.eq_list (l := l) (by cases l <;> exact hl)) (by simp)
    · exact absurd (hat.eq_buffer hbuffer) (by simp)
    · by_cases h : m' = m
      · subst h
        simp at hm
      · have := hat.eq_slot (m := m') (by simpa [h] using hm)
        exact h (by simpa using this.symm)
  | @takeNotified m _ _ | @takeTimeout m _ _ =>
    obtain ⟨t, hwait⟩ : ∃ t, c.waitTask m = .withoutTimeout t := by
      cases hwait : c.waitTask m <;> simp [Content.moved, hwait] at hu ⊢
    obtain rfl : t = u := by simpa [Content.moved, hwait] using hu
    obtain rfl := hat.eq_slot hwait
    refine ⟨.lost, ⟨fun l => ?_, by simp [hat.buffer, Place.count], fun m' => ?_, hat.hand, hat.chosen,
      by simp [hat.spawned], by simp [hat.linked, Place.isList], ?_⟩, by simp, by simp, by simp [Place.runs],
      fun _ => Or.inr fun hclears => hclears t hwait⟩
    · cases l <;> simp [hat.ready, hat.sleep, hat.queue, Place.count]
    · by_cases hm : m' = m
      · simp [hm]
      · have hm' : ¬ m = m' := fun heq => hm heq.symm
        simp [hm, hm', hat.slot]
    · have hstate := hat.state
      cases hblocked : c.state t <;> simp [Place.allows, hblocked] at hstate ⊢
  | @notifyTimeout m t _ hwait | @pendedTimeout m t _ hwait => simp [Content.moved, hwait] at hu
  | @notifyCount m _ hwait | @pendedNone m _ hwait => simp [Content.moved, hwait] at hu
  | cleanUp _ _ _ | wakeEnd _ | deleteNone _ _ | deleteEnd _ | removeNone _ _ =>
    refine Same.goes ⟨fun l => ?_, by simp, fun m => by simp, rfl, rfl, by simp, by simp, by simp⟩ hat
    cases l <;> simp
  | popNotifyNone _ | popNotifiedEnd | dequeueNone _ =>
    refine Same.goes ⟨fun l => ?_, by simp, fun m => by simp, rfl, rfl, by simp, by simp, by simp⟩ hat
    cases l <;> simp
  | pushWait | conditionMet | conditionNotMet | count | block | countTimeout | blockTimeout => cases hblocks
  | addCurTask | dropCurrentTask => cases hblocks
  | _ => cases hu

/-- Steps that take the current task off the CPU. -/
theorem Outcome.goes_off (h : Outcome C c b c' cs) (hblocks : b.blocks = true)
    (hat : At c hands picks c.cur .cpu) :
    ∃ p', At c' (codeCarried cs ++ hands) (codePicked cs ++ picks) c.cur p' ∧ Goes c b c.cur .cpu p' := by
  have hgoes : ∀ {p' : Place W B}, p' ≠ .cpu → p' ≠ .lost → Goes c b c.cur .cpu p' :=
    fun hne hne' => ⟨fun h => absurd h hne, fun _ => Or.inr (by simp [Body.leavesCpu, hblocks]),
      fun _ => Or.inr ⟨rfl, hblocks⟩, fun h => absurd h hne'⟩
  have hstay : Goes c b c.cur .cpu .cpu := ⟨Or.inl, Or.inl, fun _ => Or.inl rfl, nofun⟩
  cases h with
  | @pushWait w _ _ | @conditionNotMet w _ _ =>
    refine ⟨.list (.waitQueue w), ⟨fun l => ?_, by simp [hat.buffer, Place.count], fun m => by simp [hat.slot],
      hat.hand, hat.chosen, by simp [hat.spawned], by simp [Place.isList], by simp [Place.allows]⟩, hgoes (by simp) (by simp)⟩
    cases l with
    | waitQueue w' =>
      by_cases hw : w' = w
      · subst hw
        simp [hat.queue, Place.count]
      · have hw' : ¬ w = w' := fun heq => hw heq.symm
        simp [hw, hw', hat.queue, Place.count]
    | _ => simp [hat.ready, hat.sleep, Place.count]
  | @block m _ hwait _ =>
    refine ⟨.slot m, ⟨fun l => ?_, by simp [hat.buffer, Place.count], fun m' => ?_, hat.hand, hat.chosen,
      by simp [hat.spawned], by simp [hat.linked, Place.isList], by simp [Place.allows]⟩, hgoes (by simp) (by simp)⟩
    · cases l <;> simp [hat.ready, hat.sleep, hat.queue, Place.count]
    · by_cases hm : m' = m
      · simp [hm]
      · have hm' : ¬ m = m' := fun heq => hm heq.symm
        simp [hm, hm', hat.slot]
  | @blockTimeout m ms _ hwait _ =>
    obtain ⟨hlist, hbuffer, hslot, hspawned, hlinked⟩ := hat.cpu_facts
    refine ⟨.hand, hat.toHand (by simp) (by simp) (fun l hl => ?_) (by simpa using hbuffer) (fun m' => ?_)
      (by simpa using hspawned) (by simpa using hlinked) (by simp [Place.allows]), hgoes (by simp) (by simp)⟩
    · cases l with
      | mailbox m' => simp at hl
      | ready => exact hlist .ready (by simpa using hl)
      | sleep => exact hlist .sleep (by simpa using hl)
      | waitQueue w => exact hlist (.waitQueue w) (by simpa using hl)
    · by_cases hm : m' = m <;> simp [hm, hslot]
  | addCurTask =>
    obtain ⟨hlist, hbuffer, hslot, hspawned, hlinked⟩ := hat.cpu_facts
    refine ⟨.hand, hat.toHand (by simp) (by simp) (fun l hl => ?_) hbuffer hslot hspawned hlinked
      (by simp [Place.allows]), hgoes (by simp) (by simp)⟩
    exact hlist l (by cases l <;> exact hl)
  | dropCurrentTask =>
    refine ⟨.gone, ⟨fun l => ?_, by simp [hat.buffer, Place.count], fun m => by simp [hat.slot],
      hat.hand, hat.chosen, by simp [hat.spawned], by simp [hat.linked, Place.isList],
      by simp [Place.allows]⟩, hgoes (by simp) (by simp)⟩
    cases l <;> simp [hat.ready, hat.sleep, hat.queue, Place.count]
  | @conditionMet w _ =>
    refine ⟨.cpu, Same.at (c := c) (b := .checkCondition w) ⟨fun l => ?_, by simp, fun m => by simp, rfl, rfl,
      by simp, by simp, by simp⟩ hat, hstay⟩
    cases l <;> simp
  | @count m _ _ _ =>
    refine ⟨.cpu, Same.at (c := c) (b := .checkCount m) ⟨fun l => ?_, by simp, fun m => by simp, rfl, rfl,
      by simp, by simp, by simp⟩ hat, hstay⟩
    cases l <;> simp
  | @countTimeout m ms _ _ _ =>
    refine ⟨.cpu, Same.at (c := c) (b := .checkCountTimeout m ms) ⟨fun l => ?_, by simp, fun m => by simp, rfl, rfl,
      by simp, by simp, by simp⟩ hat, hstay⟩
    cases l <;> simp
  | _ => cases hblocks

/-- Where a task gets by a step. -/
theorem Outcome.goes (h : Outcome C c b c' cs)
    (hpicks : b.leavesCpu = true → picks = []) (hrun : b.blocks = true → c.state c.cur = .running)
    (hat : At c (b.carried.toList ++ hands) (b.picked.toList ++ picks) u p) :
    ∃ p', At c' (codeCarried cs ++ hands) (codePicked cs ++ picks) u p' ∧ Goes c b u p p' := by
  by_cases hu : c.moved b = some u
  · by_cases hblocks : b.blocks = true
    · obtain rfl : c.cur = u := by cases b <;> first | exact Option.some.inj hu | cases hblocks
      have hnil := hpicks (by simp [Body.leavesCpu, hblocks])
      have hcarried : b.carried = none ∧ b.picked = none := by cases b <;> first | exact ⟨rfl, rfl⟩ | cases hblocks
      rw [hcarried.1, hcarried.2] at hat
      obtain rfl := hat.eq_cpu (hrun hblocks) (by simp [hnil])
      exact h.goes_off hblocks hat
    · exact h.goes_on (by simpa using hblocks) hu hpicks hat
  · exact (h.same hu).goes hat

end Steps

end Hopter.Kernel
