-- SUMMARY: Channels: every element is delivered once, in order, and no `unwrap_or_die` is reached.
import Hopter.Sync.SemaphoreInvariant

/-!
# Channels

`src/sync/channel.rs`. A channel is a bounded buffer and two semaphores, which count the
empty and the occupied slots. An operation takes a slot from one semaphore, works on the
buffer, and gives the slot to the other semaphore. The buffer comes from another crate; its
operations are atomic here, and it is a FIFO queue of the capacity `N`.

The operations in progress are counted by what they have left to do (`Stage`). A channel
with these counts is a small transition system (`Flow`) which knows nothing of tasks,
interrupts and wait queues; the machine refines it.
-/

namespace Hopter.Sync.Channel

open Exec

-- ---------------------------------------------------------------------------
-- Flow of slots
-- ---------------------------------------------------------------------------

/-- What an operation has left to do between its two updates of semaphores. -/
inductive Stage where
  /-- A slot is reserved, and the element is to be put into the buffer. -/
  | enqueue
  /-- The element is in the buffer, and `sem_occupied` is to be incremented. -/
  | publish
  /-- An element is to be taken out of the buffer. -/
  | dequeue
  /-- A slot of the buffer is free again, and `sem_empty` is to be incremented. -/
  | release
  deriving DecidableEq

/-- A channel with the number of operations in each stage. -/
structure Flow (T : Type) where
  empty : Nat
  occupied : Nat
  buffer : List T
  enqueued : List T
  dequeued : List T
  stage : Stage → Nat

namespace Flow

variable {T : Type} {f f' : Flow T} {capacity : Nat}

/-- One operation leaves the stage `src` and enters the stage `dst`. -/
def Moves (f f' : Flow T) (src dst : Option Stage) : Prop :=
  ∀ st, f'.stage st + (if src = some st then 1 else 0) = f.stage st + (if dst = some st then 1 else 0)

structure SameBuffer (f f' : Flow T) : Prop where
  buffer : f'.buffer = f.buffer
  enqueued : f'.enqueued = f.enqueued
  dequeued : f'.dequeued = f.dequeued

inductive Step (f f' : Flow T) : Prop where
  | idle (hmove : Moves f f' none none) (hempty : f'.empty = f.empty)
      (hoccupied : f'.occupied = f.occupied) (hbuffer : SameBuffer f f')
  | reserve (hmove : Moves f f' none (some .enqueue)) (hempty : f'.empty + 1 = f.empty)
      (hoccupied : f'.occupied = f.occupied) (hbuffer : SameBuffer f f')
  | enqueue (data : T) (hmove : Moves f f' (some .enqueue) (some .publish))
      (hempty : f'.empty = f.empty) (hoccupied : f'.occupied = f.occupied)
      (hbuffer : f'.buffer = f.buffer ++ [data]) (henqueued : f'.enqueued = f.enqueued ++ [data])
      (hdequeued : f'.dequeued = f.dequeued)
  | publish (hmove : Moves f f' (some .publish) none) (hempty : f'.empty = f.empty)
      (hoccupied : f'.occupied = f.occupied + 1) (hbuffer : SameBuffer f f')
  | take (hmove : Moves f f' none (some .dequeue)) (hempty : f'.empty = f.empty)
      (hoccupied : f'.occupied + 1 = f.occupied) (hbuffer : SameBuffer f f')
  | dequeue (data : T) (hmove : Moves f f' (some .dequeue) (some .release))
      (hempty : f'.empty = f.empty) (hoccupied : f'.occupied = f.occupied)
      (hbuffer : f.buffer = data :: f'.buffer) (henqueued : f'.enqueued = f.enqueued)
      (hdequeued : f'.dequeued = f.dequeued ++ [data])
  | release (hmove : Moves f f' (some .release) none) (hempty : f'.empty = f.empty + 1)
      (hoccupied : f'.occupied = f.occupied) (hbuffer : SameBuffer f f')

/-- The number of operations between their two updates of semaphores. -/
def inFlight (f : Flow T) : Nat :=
  f.stage .enqueue + f.stage .publish + f.stage .dequeue + f.stage .release

/-- Every slot is accounted for, and the elements in the buffer are those that have been
put into it and not taken out. -/
structure Ok (capacity : Nat) (f : Flow T) : Prop where
  slots : f.empty + f.occupied + f.inFlight = capacity
  fill : f.buffer.length = f.occupied + f.stage .publish + f.stage .dequeue
  fifo : f.enqueued = f.dequeued ++ f.buffer

theorem Moves.counts {src dst : Option Stage} (h : Moves f f' src dst) :
    f'.stage .enqueue + (if src = some .enqueue then 1 else 0) =
        f.stage .enqueue + (if dst = some .enqueue then 1 else 0) ∧
      f'.stage .publish + (if src = some .publish then 1 else 0) =
        f.stage .publish + (if dst = some .publish then 1 else 0) ∧
      f'.stage .dequeue + (if src = some .dequeue then 1 else 0) =
        f.stage .dequeue + (if dst = some .dequeue then 1 else 0) ∧
      f'.stage .release + (if src = some .release then 1 else 0) =
        f.stage .release + (if dst = some .release then 1 else 0) :=
  ⟨h _, h _, h _, h _⟩

theorem Ok.step (h : Ok capacity f) (hstep : Step f f') : Ok capacity f' := by
  obtain ⟨hslots, hfill, hfifo⟩ := h
  unfold inFlight at hslots
  cases hstep with
  | idle hmove hempty hoccupied hbuffer | reserve hmove hempty hoccupied hbuffer
  | publish hmove hempty hoccupied hbuffer | take hmove hempty hoccupied hbuffer
  | release hmove hempty hoccupied hbuffer =>
    have := hmove.counts
    simp only [reduceCtorEq, if_false, if_true, Option.some.injEq] at this
    refine ⟨by unfold inFlight; omega, by rw [hbuffer.buffer]; omega, ?_⟩
    rw [hbuffer.enqueued, hbuffer.dequeued, hbuffer.buffer, hfifo]
  | enqueue data hmove hempty hoccupied hbuffer henqueued hdequeued =>
    have := hmove.counts
    simp only [reduceCtorEq, if_false, if_true, Option.some.injEq] at this
    refine ⟨by unfold inFlight; omega, ?_, ?_⟩
    · rw [hbuffer, List.length_append, List.length_singleton]
      omega
    · rw [henqueued, hdequeued, hbuffer, hfifo, List.append_assoc]
  | dequeue data hmove hempty hoccupied hbuffer henqueued hdequeued =>
    have := hmove.counts
    simp only [reduceCtorEq, if_false, if_true, Option.some.injEq] at this
    rw [hbuffer, List.length_cons] at hfill
    refine ⟨by unfold inFlight; omega, by omega, ?_⟩
    rw [henqueued, hdequeued, hfifo, hbuffer, List.append_assoc, List.singleton_append]

/-- `enqueue` finds room. -/
theorem Ok.room (h : Ok capacity f) (hst : 0 < f.stage .enqueue) : f.buffer.length < capacity := by
  have hslots := h.slots
  have hfill := h.fill
  unfold inFlight at hslots
  omega

/-- `dequeue` finds an element. -/
theorem Ok.nonempty (h : Ok capacity f) (hst : 0 < f.stage .dequeue) : f.buffer ≠ [] := by
  have hfill := h.fill
  intro hnil
  rw [hnil, List.length_nil] at hfill
  omega

end Flow

-- ---------------------------------------------------------------------------
-- Users of channels
-- ---------------------------------------------------------------------------

/-- The semaphores of a channel, `sem_empty` and `sem_occupied`. -/
inductive Sem where
  | empty
  | occupied
  deriving DecidableEq

/-- What a user does. `N` names the channels, `T` is the type of their elements, `κ` names
what to do after an operation, and `γ` the atomic steps of the user itself. -/
inductive Use (N T κ γ : Type) where
  | push (n : N) (data : T) (k : κ)
  | pop (n : N) (k : κ)
  | tryPopAllowIsr (n : N) (k : κ)
  | tryPushAllowIsr (n : N) (data : T) (k : κ)
  | own (g : γ)
  | yield

/-- A user with the state `ρ`: the code after each operation, which gets what the operation
returns, the steps of the user itself, and its interrupt handlers. -/
structure User (N T κ γ ρ ι ξ : Type) where
  pushed : κ → List (Use N T κ γ)
  /-- `try_push_allow_isr` has returned the element. -/
  rejected : κ → T → List (Use N T κ γ)
  popped : κ → T → List (Use N T κ γ)
  /-- `try_pop_allow_isr` has returned `None`. -/
  nothing : κ → List (Use N T κ γ)
  exec : ρ → γ → ξ → Option (ρ × List (Use N T κ γ))
  handler : ι → List (Use N T κ γ)

/-- What a channel does after a call of a semaphore. With `block` the operation may block,
and otherwise it is one of the variants for interrupt handlers. -/
inductive Cont (N T κ : Type) where
  | enqueue (block : Bool) (n : N) (data : T) (k : κ)
  | dequeue (block : Bool) (n : N) (k : κ)
  | pushed (k : κ)
  | popped (data : T) (k : κ)

inductive Work (N T κ γ : Type) where
  /-- `self.buffer.enqueue(data).ok().unwrap_or_die()`. -/
  | enqueue (block : Bool) (n : N) (data : T) (k : κ)
  /-- `self.buffer.dequeue().unwrap_or_die()`. -/
  | dequeue (block : Bool) (n : N) (k : κ)
  /-- An `unwrap_or_die` has found nothing. -/
  | die
  | own (g : γ)

/-- The buffers of the channels, and what went through them. -/
structure Store (N T ρ : Type) where
  buffer : N → List T
  user : ρ
  /-- History: the elements that were put into the buffer. -/
  enqueued : N → List T
  /-- History: the elements that were taken out of the buffer. -/
  dequeued : N → List T

section Code

variable {N T κ γ ρ τ ι ξ : Type} [DecidableEq N]

/-- `Semaphore::up`, or `try_up_allow_isr` followed by `unwrap_or_die`. -/
def upOrDie (block : Bool) (n : N) (sem : Sem) (k : Cont N T κ) :
    Call (N × Sem) (Cont N T κ) (Work N T κ γ) :=
  if block = true then .up (n, sem) k else .tryUpAllowIsr (n, sem) k

/-- The operations of `Channel` up to their first semaphore. -/
def Use.call : Use N T κ γ → Call (N × Sem) (Cont N T κ) (Work N T κ γ)
  | .push n data k => .down (n, .empty) (.enqueue true n data k)
  | .pop n k => .down (n, .occupied) (.dequeue true n k)
  | .tryPopAllowIsr n k => .tryDownAllowIsr (n, .occupied) (.dequeue false n k)
  | .tryPushAllowIsr n data k => .tryDownAllowIsr (n, .empty) (.enqueue false n data k)
  | .own g => .own (.own g)
  | .yield => .yield

def calls (uses : List (Use N T κ γ)) : List (Call (N × Sem) (Cont N T κ) (Work N T κ γ)) :=
  uses.map Use.call

/-- The steps between the semaphores. -/
def Store.exec (capacity : N → Nat) (U : User N T κ γ ρ ι ξ) (c : Store N T ρ) (x : ξ) :
    Work N T κ γ → Option (Store N T ρ × List (Call (N × Sem) (Cont N T κ) (Work N T κ γ)))
  | .enqueue block n data k =>
    if (c.buffer n).length < capacity n then some
      ({ c with
        buffer := Function.update c.buffer n (c.buffer n ++ [data])
        enqueued := Function.update c.enqueued n (c.enqueued n ++ [data]) },
        [upOrDie block n .occupied (.pushed k)])
    else some (c, [.own .die])
  | .dequeue block n k =>
    match c.buffer n with
    | data :: rest => some
      ({ c with
        buffer := Function.update c.buffer n rest
        dequeued := Function.update c.dequeued n (c.dequeued n ++ [data]) },
        [upOrDie block n .empty (.popped data k)])
    | [] => some (c, [.own .die])
  | .die => none
  | .own g => (U.exec c.user g x).map fun (r, uses) => ({ c with user := r }, calls uses)

/-- Channels as a client of the semaphores. -/
def client (capacity : N → Nat) (U : User N T κ γ ρ ι ξ) :
    Client (N × Sem) (Cont N T κ) (Work N T κ γ) (Store N T ρ) ι ξ where
  ok
    | .enqueue block n data k => [.own (.enqueue block n data k)]
    | .dequeue block n k => [.own (.dequeue block n k)]
    | .pushed k => calls (U.pushed k)
    | .popped data k => calls (U.popped k data)
  err
    | .enqueue _ _ data k => calls (U.rejected k data)
    | .dequeue _ _ k => calls (U.nothing k)
    -- `try_up_allow_isr().unwrap_or_die()`
    | .pushed _ => [.own .die]
    | .popped _ _ => [.own .die]
  exec c g x := c.exec capacity U x g
  handler i := calls (U.handler i)

/-- `Channel::new`: the maximal counts of the semaphores. -/
def maxCount (capacity : N → Nat) : N × Sem → Nat := fun sem => capacity sem.1

/-- `Channel::new`: the initial counts of the semaphores. -/
def initCount (capacity : N → Nat) : N × Sem → Nat
  | (n, .empty) => capacity n
  | (_, .occupied) => 0

def Store.new (user : ρ) : Store N T ρ where
  buffer _ := []
  user := user
  enqueued _ := []
  dequeued _ := []

end Code

-- ---------------------------------------------------------------------------
-- Operations in progress
-- ---------------------------------------------------------------------------

section Stages

variable {N T κ γ ρ τ ι ξ : Type} [DecidableEq N] [DecidableEq τ]

abbrev ChannelBody (N T κ γ τ : Type) := Body (N × Sem) (Cont N T κ) (Work N T κ γ) τ
abbrev ChannelCode (N T κ γ τ : Type) := Code (Queue (N × Sem)) QueueOp (ChannelBody N T κ γ τ)
abbrev ChannelInstr (N T κ γ τ : Type) := Instr (Queue (N × Sem)) QueueOp (ChannelBody N T κ γ τ)
abbrev ChannelContent (N T ρ τ : Type) := Content (N × Sem) (Store N T ρ) τ

abbrev ChannelState (N T κ γ ρ τ : Type) :=
  State (Queue (N × Sem)) QueueOp (ChannelBody N T κ γ τ) (ChannelContent N T ρ τ) τ

/-- The stage of an operation that is to update a semaphore. -/
def semStage : Dir → N × Sem → Option (N × Stage)
  | .up, (n, .occupied) => some (n, .publish)
  | .up, (n, .empty) => some (n, .release)
  | .down, _ => none

def stageOf : ChannelBody N T κ γ τ → Option (N × Stage)
  | .own (.enqueue _ n _ _) => some (n, .enqueue)
  | .own (.dequeue _ n _) => some (n, .dequeue)
  | .wait d sem _ | .afterWait d sem _ | .load d sem _ | .exchange d sem _ _ | .tryLoad d sem _
  | .tryExchange d sem _ _ => semStage d sem
  | _ => none

def tally (o : Option (N × Stage)) (n : N) (st : Stage) : Nat := if o = some (n, st) then 1 else 0

/-- An operation in the stage is in progress. -/
def inStage (n : N) (st : Stage) :
    ChannelInstr N T κ γ τ → Nat
  | .code (.body b) | .code (.suspended b) => tally (stageOf b) n st
  | _ => 0

/-- The code after the update of a semaphore is the one of the operation. -/
inductive Cont.Fits : Dir → N × Sem → Cont N T κ → Prop where
  | reserve {n block data k} : Cont.Fits .down (n, .empty) (.enqueue block n data k)
  | take {n block k} : Cont.Fits .down (n, .occupied) (.dequeue block n k)
  | publish {n k} : Cont.Fits .up (n, .occupied) (.pushed k)
  | release {n data k} : Cont.Fits .up (n, .empty) (.popped data k)

/-- The instruction belongs to an operation of a channel or to the user, and it is not the
end of an `unwrap_or_die` that has failed. -/
def Fits : ChannelInstr N T κ γ τ → Prop
  | .code (.body (.wait d sem k)) | .code (.body (.afterWait d sem k))
  | .code (.body (.load d sem k)) | .code (.body (.exchange d sem _ k))
  | .code (.body (.tryLoad d sem k)) | .code (.body (.tryExchange d sem _ k)) => k.Fits d sem
  | .code (.body (.own .die)) => False
  | .code (.suspended _) => False
  | _ => True

omit [DecidableEq N] [DecidableEq τ] in
theorem fits_calls (uses : List (Use N T κ γ)) :
    ∀ d ∈ (codes (calls uses) : List (ChannelCode N T κ γ τ)), Fits (.code d) := by
  intro d hd
  obtain ⟨call, hcall, rfl⟩ := List.mem_map.mp hd
  obtain ⟨use, -, rfl⟩ := List.mem_map.mp hcall
  cases use with
  | push n data k => exact Cont.Fits.reserve
  | pop n k => exact Cont.Fits.take
  | tryPopAllowIsr n k => exact Cont.Fits.take
  | tryPushAllowIsr n data k => exact Cont.Fits.reserve
  | own g => trivial
  | yield => trivial

omit [DecidableEq τ] in
theorem weigh_calls (n : N) (st : Stage) (uses : List (Use N T κ γ)) :
    weigh (inStage n st) (push (codes (calls uses) : List (ChannelCode N T κ γ τ)) []) = 0 := by
  induction uses with
  | nil => rfl
  | cons use uses ih =>
    have huse : inStage n st (.code (use.call.code : ChannelCode N T κ γ τ)) = 0 := by
      cases use <;> rfl
    simpa [push, codes, calls, huse] using ih

/-- The channel as it is in the state of the machine. -/
def flow (c : ChannelContent N T ρ τ) (n : N) (stage : Stage → Nat) : Flow T where
  empty := c.count (n, .empty)
  occupied := c.count (n, .occupied)
  buffer := c.client.buffer n
  enqueued := c.client.enqueued n
  dequeued := c.client.dequeued n
  stage := stage

variable {capacity : N → Nat} {U : User N T κ γ ρ ι ξ} {c c' : ChannelContent N T ρ τ}
  {b : ChannelBody N T κ γ τ}
  {cs : List (ChannelCode N T κ γ τ)}
  {n : N} {w w' : Stage → Nat}

omit [DecidableEq N] [DecidableEq τ] in
/-- A step that changes neither the semaphores nor the buffer of a channel. -/
theorem flow_idle (hw : ∀ st, w' st = w st) (hempty : c'.count (n, .empty) = c.count (n, .empty))
    (hoccupied : c'.count (n, .occupied) = c.count (n, .occupied))
    (hbuffer : c'.client.buffer n = c.client.buffer n)
    (henqueued : c'.client.enqueued n = c.client.enqueued n)
    (hdequeued : c'.client.dequeued n = c.client.dequeued n) :
    (flow c n w).Step (flow c' n w') := by
  refine .idle (fun st => ?_) hempty hoccupied ⟨hbuffer, henqueued, hdequeued⟩
  simpa [flow] using hw st

omit [DecidableEq τ] in
/-- A compare-exchange of an operation. -/
theorem flow_change {d : Dir} {sem : N × Sem} {k : Cont N T κ} (hk : k.Fits d sem)
    (hsem : d.exhausted (maxCount capacity sem) (c.count sem) = false)
    (hw : ∀ st, w' st + tally (semStage d sem) n st =
      w st + weigh (inStage n st) (push (codes ((client capacity U).ok k) : List (ChannelCode N T κ γ τ)) [])) :
    (flow c n w).Step (flow (c.change d sem) n w') := by
  obtain ⟨m, sem⟩ := sem
  by_cases hn : m = n
  · subst hn
    cases hk with
    | reserve =>
      simp only [Dir.exhausted, decide_eq_false_iff_not] at hsem
      refine .reserve (fun st => ?_) ?_ (by simp [flow, Content.change]) ⟨rfl, rfl, rfl⟩
      · simpa [flow, semStage, client, push, codes, Call.code, inStage, stageOf, tally] using hw st
      · simp only [flow, Content.change, Dir.next, Function.update_self]
        omega
    | take =>
      simp only [Dir.exhausted, decide_eq_false_iff_not] at hsem
      refine .take (fun st => ?_) (by simp [flow, Content.change]) ?_ ⟨rfl, rfl, rfl⟩
      · simpa [flow, semStage, client, push, codes, Call.code, inStage, stageOf, tally] using hw st
      · simp only [flow, Content.change, Dir.next, Function.update_self]
        omega
    | publish =>
      refine .publish (fun st => ?_) (by simp [flow, Content.change])
        (by simp [flow, Content.change, Dir.next]) ⟨rfl, rfl, rfl⟩
      simpa [flow, semStage, client, weigh_calls, tally] using hw st
    | release =>
      refine .release (fun st => ?_) (by simp [flow, Content.change, Dir.next])
        (by simp [flow, Content.change]) ⟨rfl, rfl, rfl⟩
      simpa [flow, semStage, client, weigh_calls, tally] using hw st
  · have hn' : ¬ n = m := fun h => hn h.symm
    refine flow_idle (fun st => ?_) (by simp [Content.change, hn']) (by simp [Content.change, hn'])
      rfl rfl rfl
    have hst := hw st
    cases hk with
    | reserve | take =>
      simpa [semStage, hn, client, push, codes, Call.code, inStage, stageOf, tally] using hst
    | publish | release => simpa [semStage, hn, client, weigh_calls, tally] using hst

omit [DecidableEq τ] in
theorem weigh_upOrDie (n m : N) (st : Stage) (block : Bool) (sem : Sem) (k : Cont N T κ) :
    weigh (inStage n st) (push (codes [upOrDie block m sem k] : List (ChannelCode N T κ γ τ)) []) =
      tally (semStage .up (m, sem)) n st := by
  cases block <;> rfl

omit [DecidableEq N] [DecidableEq τ] in
theorem fits_upOrDie {block : Bool} {m : N} {sem : Sem} {k : Cont N T κ} (hk : k.Fits .up (m, sem)) :
    ∀ d ∈ (codes [upOrDie block m sem k] : List (ChannelCode N T κ γ τ)), Fits (.code d) := by
  intro d hd
  obtain rfl := List.mem_singleton.mp hd
  cases block <;> exact hk

omit [DecidableEq τ] in
/-- A step between the semaphores. The buffer is as the stage of the operation promises. -/
theorem flow_work {g : Work N T κ γ} {x : ξ} {r : Store N T ρ}
    {cs : List (Call (N × Sem) (Cont N T κ) (Work N T κ γ))}
    (hexec : c.client.exec capacity U x g = some (r, cs))
    (henqueue : ∀ block m data k, g = .enqueue block m data k →
      (c.client.buffer m).length < capacity m)
    (hdequeue : ∀ block m k, g = .dequeue block m k → c.client.buffer m ≠ []) :
    (∀ d ∈ (codes cs : List (ChannelCode N T κ γ τ)), Fits (.code d)) ∧
    ∀ n (w w' : Stage → Nat), (∀ st, w' st + inStage n st (.code (.body (.own g)) : ChannelInstr N T κ γ τ) =
      w st + weigh (inStage n st) (push (codes cs : List (ChannelCode N T κ γ τ)) [])) →
      (flow c n w).Step (flow { c with client := r } n w') := by
  cases g with
  | enqueue block m data k =>
    simp only [Store.exec, if_pos (henqueue block m data k rfl), Option.some.injEq,
      Prod.mk.injEq] at hexec
    obtain ⟨rfl, rfl⟩ := hexec
    refine ⟨fits_upOrDie .publish, fun n w w' hw => ?_⟩
    simp only [weigh_upOrDie, semStage, inStage, stageOf, tally] at hw
    by_cases hn : m = n
    · subst hn
      refine .enqueue data (fun st => ?_) rfl rfl (by simp [flow]) (by simp [flow]) rfl
      simpa [flow] using hw st
    · have hn' : ¬ n = m := fun h => hn h.symm
      exact flow_idle (fun st => by simpa [hn] using hw st) rfl rfl (by simp [hn']) (by simp [hn']) rfl
  | dequeue block m k =>
    simp only [Store.exec] at hexec
    split at hexec
    · rename_i data rest hbuffer
      simp only [Option.some.injEq, Prod.mk.injEq] at hexec
      obtain ⟨rfl, rfl⟩ := hexec
      refine ⟨fits_upOrDie .release, fun n w w' hw => ?_⟩
      simp only [weigh_upOrDie, semStage, inStage, stageOf, tally] at hw
      by_cases hn : m = n
      · subst hn
        refine .dequeue data (fun st => ?_) rfl rfl (by simp [flow, hbuffer]) rfl (by simp [flow])
        simpa [flow] using hw st
      · have hn' : ¬ n = m := fun h => hn h.symm
        exact flow_idle (fun st => by simpa [hn] using hw st) rfl rfl (by simp [hn']) rfl
          (by simp [hn'])
    · rename_i hbuffer
      exact absurd hbuffer (hdequeue block m k rfl)
  | die => exact absurd hexec (by simp [Store.exec])
  | own g =>
    simp only [Store.exec, Option.map_eq_some_iff, Prod.mk.injEq] at hexec
    obtain ⟨⟨r', uses⟩, -, rfl, rfl⟩ := hexec
    refine ⟨fits_calls uses, fun n w w' hw => ?_⟩
    exact flow_idle (fun st => by simpa [weigh_calls, inStage, stageOf, tally] using hw st) rfl rfl rfl rfl rfl

/-- The slots are accounted for, and the step `b` is one of the operations that count. -/
def Accounted (capacity : N → Nat) (c : ChannelContent N T ρ τ)
    (b : ChannelBody N T κ γ τ) : Prop :=
  ∀ n, ∃ w, (flow c n w).Ok (capacity n) ∧
    ∀ st, inStage n st (.code (.body b) : ChannelInstr N T κ γ τ) ≤ w st

omit [DecidableEq τ] in
/-- An increment never finds the semaphore at its maximum. -/
theorem Accounted.up_ne_max (h : Accounted capacity c b) (sem : N × Sem)
    (hb : stageOf b = semStage .up sem) : Dir.up.exhausted (maxCount capacity sem) (c.count sem) = false := by
  obtain ⟨n, sem⟩ := sem
  obtain ⟨w, hok, hle⟩ := h n
  have hslots := hok.slots
  simp only [Flow.inFlight, flow] at hslots
  have hlt : c.count (n, sem) < capacity n := by
    cases sem with
    | empty =>
      have := hle .release
      simp only [inStage, hb, semStage, tally, if_true] at this
      omega
    | occupied =>
      have := hle .publish
      simp only [inStage, hb, semStage, tally, if_true] at this
      omega
  exact decide_eq_false (Nat.ne_of_lt hlt)

/-- Every step of the machine is a step of each channel, and `unwrap_or_die` always finds
something. -/
theorem refines (hok : Accounted capacity c b) (hfits : Fits (.code (.body b)))
    (hready : Ready (maxCount capacity) c (.code (.body b)))
    (hstep : Outcome (maxCount capacity) (client capacity U) c b c' cs) :
    (∀ d ∈ cs, Fits (.code d)) ∧ ∀ n (w w' : Stage → Nat),
      (∀ st, w' st + inStage n st (.code (.body b) : ChannelInstr N T κ γ τ) =
        w st + weigh (inStage n st) (push cs [])) → (flow c n w).Step (flow c' n w') := by
  have hidle : ∀ {c' : ChannelContent N T ρ τ}, c'.count = c.count → c'.client = c.client →
      (∀ n st, weigh (inStage n st) (push cs []) =
        inStage n st (.code (.body b) : ChannelInstr N T κ γ τ)) →
      ∀ n (w w' : Stage → Nat),
        (∀ st, w' st + inStage n st (.code (.body b) : ChannelInstr N T κ γ τ) =
          w st + weigh (inStage n st) (push cs [])) → (flow c n w).Step (flow c' n w') := by
    intro c' hcount hclient hcs n w w' hw
    refine flow_idle (fun st => ?_) (by rw [hcount]) (by rw [hcount]) (by rw [hclient])
      (by rw [hclient]) (by rw [hclient])
    have hst := hw st
    rw [hcs] at hst
    omega
  cases hstep with
  | @own g x r calls hexec =>
    refine flow_work hexec (fun block m data k hg => ?_) fun block m k hg => ?_
    · subst hg
      obtain ⟨w, hok, hle⟩ := hok m
      exact hok.room (Nat.lt_of_lt_of_le (by simp [inStage, stageOf, tally]) (hle .enqueue))
    · subst hg
      obtain ⟨w, hok, hle⟩ := hok m
      exact hok.nonempty (Nat.lt_of_lt_of_le (by simp [inStage, stageOf, tally]) (hle .dequeue))
  | @exchanged d sem k | @ok d sem k =>
    have hok' : ∀ d' ∈ (codes ((client capacity U).ok k) : List (ChannelCode N T κ γ τ)), Fits (.code d') := by
      cases hfits with
      | reserve | take => simp [client, codes, Call.code, Fits]
      | publish | release => exact fits_calls _
    refine ⟨List.forall_mem_cons.mpr ⟨trivial, hok'⟩, fun n w w' hw => ?_⟩
    -- the notification is in no stage
    exact flow_change (U := U) hfits hready fun st =>
      (hw st).trans (congrArg (w st + ·) (Nat.zero_add _))
  | @err d sem k hfull =>
    cases hfits with
    | reserve | take =>
      exact ⟨fits_calls _, hidle rfl rfl fun n st => (weigh_calls n st _).trans rfl⟩
    | @publish m k => exact absurd hfull (by simp [hok.up_ne_max (m, .occupied) rfl])
    | @release m data k => exact absurd hfull (by simp [hok.up_ne_max (m, .empty) rfl])
  | wait | goOn | block | waitAgain | stolen | tryStolen =>
    exact ⟨by simpa [Fits] using hfits, hidle rfl rfl fun n st => by simp [push, inStage, stageOf]⟩
  | loaded _ | tryLoaded _ =>
    exact ⟨by simpa [Fits] using hfits, hidle rfl rfl fun n st => by simp [push, inStage, stageOf]⟩
  | popDone | addNotify | met | pickNext | swapNotifyCnt =>
    exact ⟨by simp [Fits], hidle rfl rfl fun n st => by simp [push, inStage, stageOf, tally]⟩
  | unmet _ | pushBack _ | nobody _ | popBreak _ =>
    exact ⟨by simp [Fits], hidle rfl rfl fun n st => by simp [push, inStage, stageOf, tally]⟩
  | notified urgent _ | popNext urgent _ =>
    exact ⟨by simp [Fits], hidle rfl rfl fun n st => by simp [push, inStage, stageOf, tally]⟩

theorem fits_hereditary :
    Hereditary (spec (τ := τ) (maxCount capacity) (client capacity U)) Fits where
  control i hi := by
    cases i with
    | code d => cases d <;> trivial
    | _ => trivial
  guard l must op _ := trivial
  suspended b h := h.elim
  full q must op _ := by cases op <;> simp [spec, Fits]
  pend q must op _ := by cases op <;> simp [spec, Fits]
  pended q := by simp [spec, Fits]
  handler i := fits_calls _
  pickNext := by simp [spec, Fits]

theorem inStage_balanced (n : N) (st : Stage) :
    Balanced (inStage n st) (spec (τ := τ) (maxCount capacity) (client capacity U)) where
  control i hi := by
    cases i with
    | code d => cases d <;> first | rfl | exact absurd hi (by simp [Instr.isControl])
    | _ => rfl
  guard q' must op := rfl
  suspended b := rfl
  full q' must op := by cases op <;> simp [spec, push, inStage, stageOf, tally]
  pend q' op := by cases op <;> simp [spec, push, inStage, stageOf, tally]
  pended q' := by simp [spec, push, inStage, stageOf, tally]
  handler i := weigh_calls n st _
  pickNext := by simp [spec, push, inStage, stageOf, tally]

end Stages

-- ---------------------------------------------------------------------------
-- Runs
-- ---------------------------------------------------------------------------

section Runs

variable {N T κ γ ρ τ ι ξ : Type} [DecidableEq N] [DecidableEq τ] [Fintype τ] {capacity : N → Nat}
  {U : User N T κ γ ρ ι ξ} {cur : τ} {user : ρ} {tasks : τ → List (Use N T κ γ)}
  {s s' : ChannelState N T κ γ ρ τ}

/-- The channel `n` with the operations in progress, on the stack and in the saved contexts. -/
def view (s : ChannelState N T κ γ ρ τ) (n : N) : Flow T :=
  flow s.content n fun st => s.weight (inStage n st)

/-- The invariant of the machine with channels. -/
structure Inv (capacity : N → Nat) (s : ChannelState N T κ γ ρ τ) : Prop where
  semaphores : Sync.Inv (maxCount capacity) (initCount capacity) s
  fits : Everywhere Fits s
  flow : ∀ n, (view s n).Ok (capacity n)

theorem Inv.step {a : Action ι (Choice τ ξ)} (h : Inv capacity s)
    (hstep : Exec.step (spec (maxCount capacity) (client capacity U)) s a = some s') :
    Inv capacity s' := by
  have hsem := h.semaphores.step hstep
  rcases step_cases hstep with ⟨x, b, k, c, cs, hk, hexec, rfl⟩ | hcontrol
  · have htop : .code (.body b) ∈ s.stack := by rw [hk]; exact List.mem_cons_self
    have hok : Accounted capacity s.content b := by
      refine fun n => ⟨_, h.flow n, fun st => ?_⟩
      rw [State.weight, hk, weigh_cons]
      omega
    obtain ⟨hfits, hflow⟩ := refines hok (h.fits.1 _ htop) (h.semaphores.ready.1 _ htop)
      (exec_outcome hexec)
    refine ⟨hsem, h.fits.body hk (fun _ => hfits) fun i _ hi => hi, fun n => ?_⟩
    exact (h.flow n).step (hflow n _ _ fun st => State.weight_body hk c cs)
  · refine ⟨hsem, h.fits.control fits_hereditary hcontrol, fun n => ?_⟩
    have hsame : view s' n = view s n := by
      simp only [view, hcontrol.content_eq, hcontrol.weight_eq (inStage_balanced n _) h.semaphores.sound]
    rw [hsame]
    exact h.flow n

theorem start_inv : Inv capacity (init (start (initCount capacity) cur (Store.new user)) cur
    fun t => codes (calls (tasks t)) : ChannelState N T κ γ ρ τ) := by
  have hinit : ∀ sem, initCount capacity sem ≤ maxCount capacity sem := by
    rintro ⟨n, sem⟩
    cases sem with
    | empty => exact Nat.le_refl _
    | occupied => exact Nat.zero_le _
  refine ⟨Sync.start_inv hinit, Everywhere.init fun t => fits_calls _, fun n => ?_⟩
  have hzero : ∀ st, (view (init (start (initCount capacity) cur (Store.new user)) cur
      fun t => codes (calls (tasks t)) : ChannelState N T κ γ ρ τ) n).stage st = 0 :=
    fun st => State.weight_init fun t => weigh_calls n st _
  refine ⟨?_, ?_, rfl⟩
  · simp only [Flow.inFlight, hzero]
    rfl
  · simp only [hzero]
    rfl

/-- What a channel guarantees in every state. -/
structure ChannelOk (capacity : N → Nat) (s : ChannelState N T κ γ ρ τ) (n : N) :
    Prop where
  /-- No `unwrap_or_die` has failed. -/
  alive : Everywhere (· ≠ .code (.body (.own .die))) s
  /-- No element is lost, duplicated or overtaken. -/
  delivered : s.content.client.dequeued n <+: s.content.client.enqueued n
  /-- Every slot is counted by one of the semaphores, or an operation has it. -/
  slots : s.content.count (n, .empty) + s.content.count (n, .occupied) +
    (s.weight (inStage n .enqueue) + s.weight (inStage n .publish) + s.weight (inStage n .dequeue) +
      s.weight (inStage n .release)) = capacity n
  /-- `try_push_allow_isr` is about to fail. Each slot holds an element, is reserved for
  one, or was emptied by an operation that has not given it back. -/
  rejected : ∀ data k rest,
    s.stack = .code (.body (.tryLoad .down (n, .empty) (.enqueue false n data k))) :: rest →
    s.content.count (n, .empty) = 0 → (s.content.client.buffer n).length +
      s.weight (inStage n .enqueue) + s.weight (inStage n .release) = capacity n

/-- Channels deliver every element once and in order and never die, in every run, whatever
the producers and consumers are, in tasks and in interrupt handlers. -/
theorem exec_channelOk {actions : List (Action ι (Choice τ ξ))}
    (hrun : Run.exec (Exec.step (spec (maxCount capacity) (client capacity U)))
      (init (start (initCount capacity) cur (Store.new user)) cur fun t => codes (calls (tasks t)))
      actions = some s) (n : N) : ChannelOk capacity s n := by
  have hinv : Inv capacity s :=
    Run.exec_inv (Inv capacity) (fun h hstep => h.step hstep) start_inv hrun
  have hflow := hinv.flow n
  have hdie : ∀ {i : ChannelInstr N T κ γ τ}, Fits i → i ≠ .code (.body (.own .die)) := by
    rintro i hi rfl
    exact hi
  refine ⟨⟨fun i hi => hdie (hinv.fits.1 i hi), fun t i hi => hdie (hinv.fits.2 t i hi)⟩, ?_,
    hflow.slots, fun data k rest _ hzero => ?_⟩
  · exact ⟨_, hflow.fifo.symm⟩
  · have hslots := hflow.slots
    have hfill := hflow.fill
    simp only [Flow.inFlight, view, Channel.flow, hzero] at hslots hfill
    omega

/-- One channel: a task pushes two elements, and every interrupt tries to push one. -/
def oneChannel : User Unit Nat Unit Empty Unit Unit Unit where
  pushed _ := []
  rejected _ _ := []
  popped _ _ := []
  nothing _ := []
  exec _ g _ := g.elim
  handler _ := [.tryPushAllowIsr () 3 ()]

/-- An interrupt finds the second slot reserved while only the first one is occupied. -/
theorem exec_channelOk_oneChannel :
    ∃ s, Run.exec (Exec.step (spec (maxCount fun _ => 2) (client (fun _ => 2) oneChannel)))
        (init (start (initCount fun _ => 2) true (Store.new ())) true fun t =>
          codes (calls (if t = true then [.push () 1 (), .push () 2 ()] else [])))
        (List.replicate 56 go ++ [.preempt ()]) = some s ∧
      s.content.count ((), .empty) = 0 ∧ s.content.client.buffer () = [1] ∧
      ChannelOk (fun _ => 2) s () := by
  obtain ⟨s, hrun, hfacts⟩ :
      ∃ s, Run.exec (Exec.step (spec (maxCount fun _ => 2) (client (fun _ => 2) oneChannel)))
        (init (start (initCount fun _ => 2) true (Store.new ())) true fun t =>
          codes (calls (if t = true then [.push () 1 (), .push () 2 ()] else [])))
        (List.replicate 56 go ++ [.preempt ()]) = some s ∧
      s.content.count ((), .empty) = 0 ∧ s.content.client.buffer () = [1] := ⟨_, rfl, rfl, rfl⟩
  exact ⟨s, hrun, hfacts.1, hfacts.2, exec_channelOk hrun ()⟩

end Runs

end Hopter.Sync.Channel
