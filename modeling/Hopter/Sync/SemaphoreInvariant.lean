-- SUMMARY: The invariant of semaphores: counters stay in range, and no wake-up is lost.
import Hopter.Sync.Semaphore

/-!
# The invariant of semaphores

A task may only wait when the counter is at the end of its range. What keeps this true
is an inequality: as long as a queue is not empty, what is available to its waiters is
at most the number of tasks on their way from the queue to the counter, plus the number
of notifications on their way to the queue. The inequality also holds in the window
between the evaluation of the condition and the insertion into the queue; there the
task that is about to wait must not count as on its way.
-/

namespace Hopter.Sync

open Exec Hopter.Task

variable {S κ γ ρ τ ι ξ : Type} [DecidableEq S] [DecidableEq τ]

-- ---------------------------------------------------------------------------
-- What a step can do
-- ---------------------------------------------------------------------------

/-- Everything that a step can do. -/
inductive Outcome (maxCount : S → Nat) (C : Client S κ γ ρ ι ξ) (c : Content S ρ τ) :
    Body S κ γ τ → Content S ρ τ → List (Code (Queue S) QueueOp (Body S κ γ τ)) → Prop where
  | own {g x r calls} (h : C.exec c.client g x = some (r, calls)) :
    Outcome maxCount C c (.own g) { c with client := r } (codes calls)
  | wait {d s k} : Outcome maxCount C c (.wait d s k) c
      [.mayBlock, .access (s, d.waits) true .waitUntil, .body (.afterWait d s k)]
  | goOn {d s k} : Outcome maxCount C c (.afterWait d s k) c [.body (.load d s k)]
  | block {d s k} : Outcome maxCount C c (.afterWait d s k) c [.yield, .body (.wait d s k)]
  | waitAgain {d s k} : Outcome maxCount C c (.load d s k) c [.body (.wait d s k)]
  | loaded {d s k} (h : d.exhausted (maxCount s) (c.count s) = false) :
    Outcome maxCount C c (.load d s k) c [.body (.exchange d s (c.count s) k)]
  | exchanged {d s k} : Outcome maxCount C c (.exchange d s (c.count s) k)
      ((c.change d s).complete (s, d.waits)) (notifyOneAllowIsr (s, d.signals) :: codes (C.ok k))
  | stolen {d s curCnt k} : Outcome maxCount C c (.exchange d s curCnt k) c [.body (.wait d s k)]
  | err {d s k} (h : d.exhausted (maxCount s) (c.count s) = true) :
    Outcome maxCount C c (.tryLoad d s k) c (codes (C.err k))
  | tryLoaded {d s k} (h : d.exhausted (maxCount s) (c.count s) = false) :
    Outcome maxCount C c (.tryLoad d s k) c [.body (.tryExchange d s (c.count s) k)]
  | ok {d s k} : Outcome maxCount C c (.tryExchange d s (c.count s) k) (c.change d s)
      (notifyOneAllowIsr (s, d.signals) :: codes (C.ok k))
  | tryStolen {d s curCnt k} :
    Outcome maxCount C c (.tryExchange d s curCnt k) c [.body (.tryLoad d s k)]
  | met {q} : Outcome maxCount C c (.checkCondition q)
      { c with met := Function.update c.met c.cur true } []
  | unmet {q} (h : q.2.waiter.condition (maxCount q.1) (c.count q.1) = false) :
    Outcome maxCount C c (.checkCondition q)
      { c with met := Function.update c.met c.cur false } [.body (.pushBack q c.cur)]
  | pushBack {q t} (h : c.linked t = false) : Outcome maxCount C c (.pushBack q t)
      { c with
        queue := Function.update c.queue q (c.queue q ++ [t])
        linked := Function.update c.linked t true
        awake := Function.update c.awake q ((c.awake q).erase t) } []
  | notified {q t rest} (urgent : Bool) (h : (c.queue q).Perm (t :: rest)) :
    Outcome maxCount C c (.popNotify q) (c.wake q t rest urgent) []
  | nobody {q} (h : c.queue q = []) : Outcome maxCount C c (.popNotify q) (c.apply q 1) []
  | addNotify {q} : Outcome maxCount C c (.addNotify q)
      { c with notifyCnt := Function.update c.notifyCnt q (c.notifyCnt q + 1) } []
  | swapNotifyCnt {q} : Outcome maxCount C c (.swapNotifyCnt q)
      { c with notifyCnt := Function.update c.notifyCnt q 0 }
      [.body (.popNotified q (c.notifyCnt q))]
  | popDone {q} : Outcome maxCount C c (.popNotified q 0) c []
  | popNext {q n t rest} (urgent : Bool) (h : (c.queue q).Perm (t :: rest)) :
    Outcome maxCount C c (.popNotified q (n + 1)) (c.wake q t rest urgent) [.body (.popNotified q n)]
  | popBreak {q n} (h : c.queue q = []) :
    Outcome maxCount C c (.popNotified q (n + 1)) (c.apply q (n + 1)) []
  | pickNext {t} : Outcome maxCount C c .pickNext { c with cur := t, switchDue := false } []

variable {maxCount : S → Nat} {C : Client S κ γ ρ ι ξ} {c c' : Content S ρ τ} {b : Body S κ γ τ}
  {cs : List (Code (Queue S) QueueOp (Body S κ γ τ))}

theorem exec_outcome {x : Choice τ ξ} (h : exec maxCount C c b x = some (c', cs)) :
    Outcome maxCount C c b c' cs := by
  cases b with
  | own g =>
    simp only [exec, Option.map_eq_some_iff, Prod.mk.injEq] at h
    obtain ⟨⟨r, calls⟩, hexec, rfl, rfl⟩ := h
    exact .own hexec
  | wait d s k =>
    simp only [exec, Option.some.injEq, Prod.mk.injEq] at h
    obtain ⟨rfl, rfl⟩ := h
    exact .wait
  | afterWait d s k =>
    simp only [exec, Option.some.injEq, Prod.mk.injEq] at h
    obtain ⟨rfl, rfl⟩ := h
    split
    · exact .goOn
    · exact .block
  | load d s k =>
    simp only [exec, Option.some.injEq, Prod.mk.injEq] at h
    obtain ⟨rfl, rfl⟩ := h
    split
    · exact .waitAgain
    · rename_i hno
      exact .loaded (by simpa using hno)
  | exchange d s curCnt k =>
    simp only [exec] at h
    split at h <;> simp only [Option.some.injEq, Prod.mk.injEq] at h <;> obtain ⟨rfl, rfl⟩ := h
    · subst curCnt
      exact .exchanged
    · exact .stolen
  | tryLoad d s k =>
    simp only [exec, Option.some.injEq, Prod.mk.injEq] at h
    obtain ⟨rfl, rfl⟩ := h
    split
    · exact .err ‹_›
    · rename_i hno
      exact .tryLoaded (by simpa using hno)
  | tryExchange d s curCnt k =>
    simp only [exec] at h
    split at h <;> simp only [Option.some.injEq, Prod.mk.injEq] at h <;> obtain ⟨rfl, rfl⟩ := h
    · subst curCnt
      exact .ok
    · exact .tryStolen
  | checkCondition q =>
    simp only [exec] at h
    split at h <;> simp only [Option.some.injEq, Prod.mk.injEq] at h <;> obtain ⟨rfl, rfl⟩ := h
    · exact .met
    · rename_i hno
      exact .unmet (by simpa using hno)
  | pushBack q t =>
    simp only [exec] at h
    split at h
    · exact absurd h (by simp)
    · simp only [Option.some.injEq, Prod.mk.injEq] at h
      obtain ⟨rfl, rfl⟩ := h
      rename_i hno
      exact .pushBack (by simpa using hno)
  | popNotify q =>
    simp only [exec] at h
    rcases popHighestPriority_cases x.priority (c.queue q) with ⟨hq, hpop⟩ | ⟨t, rest, hpop, hperm⟩ <;>
      simp only [hpop, Option.some.injEq, Prod.mk.injEq] at h <;> obtain ⟨rfl, rfl⟩ := h
    · exact .nobody hq
    · exact .notified _ hperm
  | addNotify q =>
    simp only [exec, Option.some.injEq, Prod.mk.injEq] at h
    obtain ⟨rfl, rfl⟩ := h
    exact .addNotify
  | swapNotifyCnt q =>
    simp only [exec, Option.some.injEq, Prod.mk.injEq] at h
    obtain ⟨rfl, rfl⟩ := h
    exact .swapNotifyCnt
  | popNotified q n =>
    cases n with
    | zero =>
      simp only [exec, Option.some.injEq, Prod.mk.injEq] at h
      obtain ⟨rfl, rfl⟩ := h
      exact .popDone
    | succ n =>
      simp only [exec] at h
      rcases popHighestPriority_cases x.priority (c.queue q) with ⟨hq, hpop⟩ | ⟨t, rest, hpop, hperm⟩ <;>
        simp only [hpop, Option.some.injEq, Prod.mk.injEq] at h <;> obtain ⟨rfl, rfl⟩ := h
      · exact .popBreak hq
      · exact .popNext _ hperm
  | pickNext =>
    simp only [exec] at h
    split at h
    · exact absurd h (by simp)
    · simp only [Option.some.injEq, Prod.mk.injEq] at h
      obtain ⟨rfl, rfl⟩ := h
      exact .pickNext

-- ---------------------------------------------------------------------------
-- Owners of steps
-- ---------------------------------------------------------------------------

/-- The access that a step is part of. -/
def own : Body S κ γ τ → Option (Queue S × Access)
  | .checkCondition q | .pushBack q _ | .popNotify q | .swapNotifyCnt q | .popNotified q _ =>
    some (q, .full)
  | .addNotify q => some (q, .pend)
  | _ => none

omit [DecidableEq S] [DecidableEq τ] in
theorem inner_codes (calls : List (Call S κ γ)) :
    ∀ c ∈ (codes calls : List (Code (Queue S) QueueOp (Body S κ γ τ))),
      (Instr.code c).inner own = false := by
  intro c hc
  obtain ⟨call, -, rfl⟩ := List.mem_map.mp hc
  cases call <;> rfl

theorem discipline : Discipline own (spec (τ := τ) maxCount C) where
  full q op := by
    cases op with
    | waitUntil => exact atMostOne_singleton rfl
    | notifyOne => exact atMostOne_singleton rfl
  pended q := atMostOne_singleton rfl
  pend q op := by
    cases op with
    | waitUntil => exact atMostOne_nil q .pend
    | notifyOne => exact atMostOne_singleton rfl
  handler i := inner_codes _
  pickNext c hc := by
    obtain rfl := List.mem_singleton.mp hc
    rfl
  exec := by
    intro c b x c' cs hexec
    cases exec_outcome hexec with
    | own h => exact inner_codes _
    | err h => exact inner_codes _
    | exchanged | ok => exact List.forall_mem_cons.mpr ⟨rfl, inner_codes _⟩
    | wait | goOn | block | waitAgain | stolen | tryStolen =>
      simp [own, Instr.inner]
    | loaded h | tryLoaded h => simp [own, Instr.inner]
    | pickNext => simp [own]
    | unmet h => exact atMostOne_singleton rfl
    | swapNotifyCnt => exact atMostOne_singleton rfl
    | popNext urgent h => exact atMostOne_singleton rfl
    | met | popDone | addNotify => exact atMostOne_nil _ _
    | pushBack h | nobody h | popBreak h => exact atMostOne_nil _ _
    | notified urgent h => exact atMostOne_nil _ _

-- ---------------------------------------------------------------------------
-- Counters and queues
-- ---------------------------------------------------------------------------

/-- What is available to those who wait in the queue. -/
def Content.avail (c : Content S ρ τ) (maxCount : S → Nat) (q : Queue S) : Nat :=
  match q.2 with
  | .incremented => c.count q.1
  | .decremented => maxCount q.1 - c.count q.1

structure Counts (maxCount initCount : S → Nat) (c : Content S ρ τ) : Prop where
  range : ∀ s, c.count s ≤ maxCount s
  counted : ∀ s, c.count s + c.downs s = initCount s + c.ups s

/-- A task is in at most one queue, and not on its way from a queue that it is in. -/
structure Queues (c : Content S ρ τ) : Prop where
  nodup : ∀ q, (c.queue q).Nodup
  linked : ∀ q, ∀ t ∈ c.queue q, c.linked t = true
  apart : ∀ q q' t, t ∈ c.queue q → t ∈ c.queue q' → q = q'
  awake : ∀ q, (c.awake q).Nodup
  asleep : ∀ q, ∀ t ∈ c.queue q, t ∉ c.awake q

/-- What is available is covered by the tasks and the notifications on their way. -/
def Enough (maxCount : S → Nat) (c : Content S ρ τ) (q : Queue S) (awake : List τ) : Prop :=
  c.avail maxCount q ≤ awake.length + c.unapplied q

/-- What the operands of a step promise. -/
def Ready (maxCount : S → Nat) (c : Content S ρ τ) : Instr (Queue S) QueueOp (Body S κ γ τ) → Prop
  | .code (.body (.exchange d s curCnt _)) | .code (.body (.tryExchange d s curCnt _)) =>
    d.exhausted (maxCount s) curCnt = false
  -- the task no longer counts as on its way
  | .code (.body (.pushBack q t)) => Enough maxCount c q ((c.awake q).erase t)
  | .code (.suspended _) => False
  | _ => True

omit [DecidableEq τ] in
/-- A compare-exchange takes something from one queue, and it gives something to the other
one together with a notification. -/
theorem Counts.avail_change {initCount : S → Nat} {d : Dir} {s : S} (h : Counts maxCount initCount c)
    (hs : d.exhausted (maxCount s) (c.count s) = false) (q : Queue S) :
    (c.change d s).avail maxCount q + c.unapplied q + (if q = (s, d.waits) then 1 else 0) =
      c.avail maxCount q + (c.change d s).unapplied q := by
  obtain ⟨s', side⟩ := q
  have hrange := h.range s
  by_cases hne : s' = s
  · subst hne
    cases d <;> cases side <;>
      simp_all [Dir.exhausted, Dir.waits, Dir.signals, Dir.next, Content.avail, Content.change] <;> omega
  · cases side <;> simp [hne, Content.avail, Content.change]

omit [DecidableEq τ] in
theorem Counts.change {initCount : S → Nat} {d : Dir} {s : S} (h : Counts maxCount initCount c)
    (hs : d.exhausted (maxCount s) (c.count s) = false) :
    Counts maxCount initCount (c.change d s) := by
  refine ⟨fun s' => ?_, fun s' => ?_⟩
  · by_cases hne : s' = s
    · subst hne
      have hrange := h.range s'
      cases d <;> simp_all [Content.change, Dir.next, Dir.exhausted] <;> omega
    · simpa [Content.change, hne] using h.range s'
  · have hcounted := h.counted s'
    by_cases hne : s' = s
    · subst hne
      cases d with
      | up =>
        simp only [Content.change, Dir.next, Function.update_self, if_true, reduceCtorEq, if_false]
        omega
      | down =>
        simp only [Dir.exhausted, decide_eq_false_iff_not] at hs
        simp only [Content.change, Dir.next, Function.update_self, if_true, reduceCtorEq, if_false]
        omega
    · cases d <;> simpa [Content.change, hne] using hcounted

theorem Counts.step {initCount : S → Nat} (h : Counts maxCount initCount c)
    (hready : Ready maxCount c (.code (.body b))) (hstep : Outcome maxCount C c b c' cs) :
    Counts maxCount initCount c' := by
  cases hstep with
  | exchanged =>
    have hc := h.change hready
    exact ⟨hc.range, hc.counted⟩
  | ok => exact h.change hready
  | wait | goOn | block | waitAgain | stolen | tryStolen | met | popDone | addNotify
  | swapNotifyCnt | pickNext => exact ⟨h.range, h.counted⟩
  | own hexec => exact ⟨h.range, h.counted⟩
  | loaded _ | err _ | tryLoaded _ | unmet _ | pushBack _ | nobody _ | popBreak _ =>
    exact ⟨h.range, h.counted⟩
  | notified urgent _ | popNext urgent _ => exact ⟨h.range, h.counted⟩

-- Queues

/-- Taking tasks out of the way keeps the queues in order. -/
theorem Queues.complete {q : Queue S} (h : Queues c) : Queues (c.complete q) := by
  refine ⟨h.nodup, h.linked, h.apart, fun q' => ?_, fun q' t ht => ?_⟩
  · by_cases hq : q' = q
    · subst hq
      simpa [Content.complete] using (h.awake q').erase c.cur
    · simpa [Content.complete, hq] using h.awake q'
  · by_cases hq : q' = q
    · subst hq
      simp only [Content.complete, Function.update_self]
      exact fun hmem => h.asleep q' t ht (List.mem_of_mem_erase hmem)
    · simpa [Content.complete, hq] using h.asleep q' t ht

theorem Queues.wake {q : Queue S} {t : τ} {rest : List τ} {urgent : Bool} (h : Queues c)
    (hperm : (c.queue q).Perm (t :: rest)) : Queues (c.wake q t rest urgent) := by
  have hsub : ∀ q', ∀ u ∈ (c.wake q t rest urgent).queue q', u ∈ c.queue q' ∧ u ≠ t := by
    intro q' u hu
    have hnodup := hperm.nodup_iff.mp (h.nodup q)
    by_cases hq : q' = q
    · subst hq
      simp only [Content.wake, Function.update_self] at hu
      exact ⟨hperm.mem_iff.mpr (List.mem_cons_of_mem _ hu),
        fun heq => (List.nodup_cons.mp hnodup).1 (heq ▸ hu)⟩
    · simp only [Content.wake, Function.update_of_ne hq] at hu
      exact ⟨hu, fun heq => hq (h.apart q' q t (heq ▸ hu) (hperm.mem_iff.mpr (by simp)))⟩
  refine ⟨fun q' => ?_, fun q' u hu => ?_, fun q₁ q₂ u h₁ h₂ => ?_, fun q' => ?_, fun q' u hu => ?_⟩
  · by_cases hq : q' = q
    · subst hq
      simpa [Content.wake] using (List.nodup_cons.mp (hperm.nodup_iff.mp (h.nodup q'))).2
    · simpa [Content.wake, hq] using h.nodup q'
  · obtain ⟨hmem, hne⟩ := hsub q' u hu
    simpa [Content.wake, hne] using h.linked q' u hmem
  · exact h.apart q₁ q₂ u (hsub q₁ u h₁).1 (hsub q₂ u h₂).1
  · by_cases hq : q' = q
    · subst hq
      simp only [Content.wake, Function.update_self, List.nodup_cons]
      exact ⟨h.asleep q' t (hperm.mem_iff.mpr (by simp)), h.awake q'⟩
    · simpa [Content.wake, hq] using h.awake q'
  · obtain ⟨hmem, hne⟩ := hsub q' u hu
    by_cases hq : q' = q
    · subst hq
      simpa [Content.wake, hne] using h.asleep q' u hmem
    · simpa [Content.wake, hq] using h.asleep q' u hmem

/-- The task `t` goes into the queue. -/
theorem Queues.pushBack {q : Queue S} {t : τ} (h : Queues c) (ht : c.linked t = false) :
    Queues { c with
      queue := Function.update c.queue q (c.queue q ++ [t])
      linked := Function.update c.linked t true
      awake := Function.update c.awake q ((c.awake q).erase t) } := by
  have hout : ∀ q', t ∉ c.queue q' := fun q' hmem => by
    simp [h.linked q' t hmem] at ht
  have hmem : ∀ q' u, u ∈ Function.update c.queue q (c.queue q ++ [t]) q' →
      u ∈ c.queue q' ∨ u = t ∧ q' = q := by
    intro q' u hu
    by_cases hq : q' = q
    · subst hq
      simpa using hu
    · exact Or.inl (by simpa [hq] using hu)
  refine ⟨fun q' => ?_, fun q' u hu => ?_, fun q₁ q₂ u h₁ h₂ => ?_, fun q' => ?_, fun q' u hu => ?_⟩
  · by_cases hq : q' = q
    · subst hq
      simpa [List.nodup_append] using ⟨h.nodup q', fun u hu heq => hout q' (heq ▸ hu)⟩
    · simpa [hq] using h.nodup q'
  · rcases hmem q' u hu with hu | ⟨rfl, -⟩
    · have hne : u ≠ t := fun heq => hout q' (heq ▸ hu)
      simpa [hne] using h.linked q' u hu
    · simp
  · rcases hmem q₁ u h₁ with hu₁ | ⟨rfl, rfl⟩
    · rcases hmem q₂ u h₂ with hu₂ | ⟨rfl, -⟩
      · exact h.apart q₁ q₂ u hu₁ hu₂
      · exact absurd hu₁ (hout q₁)
    · rcases hmem q₂ u h₂ with hu₂ | ⟨-, rfl⟩
      · exact absurd hu₂ (hout q₂)
      · rfl
  · by_cases hq : q' = q
    · subst hq
      simpa using (h.awake q').erase t
    · simpa [hq] using h.awake q'
  · by_cases hq : q' = q
    · subst hq
      simp only [Function.update_self]
      rcases hmem q' u hu with hu | ⟨rfl, -⟩
      · exact fun hw => h.asleep q' u hu (List.mem_of_mem_erase hw)
      · exact (h.awake q').not_mem_erase
    · rcases hmem q' u hu with hu | ⟨-, heq⟩
      · simpa [hq] using h.asleep q' u hu
      · exact absurd heq hq

theorem Queues.step (h : Queues c) (hstep : Outcome maxCount C c b c' cs) : Queues c' := by
  have hsame : ∀ {c'' : Content S ρ τ}, c''.queue = c.queue → c''.linked = c.linked →
      c''.awake = c.awake → Queues c'' := by
    intro c'' hq hl ha
    exact ⟨hq ▸ h.nodup, hq ▸ hl ▸ h.linked, hq ▸ h.apart, ha ▸ h.awake, hq ▸ ha ▸ h.asleep⟩
  cases hstep with
  | @exchanged d s k =>
    have hc : Queues (c.change d s) := hsame rfl rfl rfl
    exact hc.complete
  | pushBack ht => exact h.pushBack ht
  | notified urgent hperm | popNext urgent hperm => exact h.wake hperm
  | wait | goOn | block | waitAgain | stolen | tryStolen | popDone | ok => exact hsame rfl rfl rfl
  | met | addNotify | swapNotifyCnt | pickNext => exact hsame rfl rfl rfl
  | own hexec => exact hsame rfl rfl rfl
  | loaded _ | err _ | tryLoaded _ | unmet _ | nobody _ | popBreak _ => exact hsame rfl rfl rfl

-- ---------------------------------------------------------------------------
-- No lost wake-up
-- ---------------------------------------------------------------------------

theorem length_le_length_erase (l : List τ) (t : τ) : l.length ≤ (l.erase t).length + 1 := by
  have := List.length_erase_add_one (a := t) (l := l)
  grind

omit [DecidableEq S] in
theorem ne_of_not_owner {p q : Queue S} (h : some (p, Access.full) ≠ some (q, .full)) : q ≠ p := by
  rintro rfl
  exact h rfl

/-- A step that is not part of a full access to the queue keeps the inequality. The list of
the tasks on their way is filtered by `f`, which does not see more than one task leave. -/
theorem Enough.outside {initCount : S → Nat} {q : Queue S} {f : List τ → List τ}
    (hf : ∀ l t, (f l).length ≤ (f (l.erase t)).length + 1) (hcounts : Counts maxCount initCount c)
    (hready : Ready maxCount c (.code (.body b))) (hstep : Outcome maxCount C c b c' cs)
    (hown : own b ≠ some (q, .full)) (h : Enough maxCount c q (f (c.awake q))) :
    Enough maxCount c' q (f (c'.awake q)) := by
  have hsame : ∀ {c'' : Content S ρ τ}, c''.count = c.count → c''.awake q = c.awake q →
      c''.unapplied q = c.unapplied q → Enough maxCount c'' q (f (c''.awake q)) := by
    intro c'' hcount hawake hunapplied
    simpa only [Enough, Content.avail, hcount, hawake, hunapplied] using h
  cases hstep with
  | @exchanged d s k =>
    have hchange := hcounts.avail_change hready q
    have hlen := hf (c.awake q) c.cur
    unfold Enough at h ⊢
    change (c.change d s).avail maxCount q ≤ _ + (c.change d s).unapplied q
    by_cases hq : q = (s, d.waits)
    · simp only [← hq, Content.complete, Content.change, Function.update_self, if_true] at hchange ⊢
      omega
    · simp only [hq, Content.complete, Content.change, if_false, ne_eq, not_false_eq_true,
        Function.update_of_ne] at hchange ⊢
      omega
  | @ok d s k =>
    have hchange := hcounts.avail_change hready q
    unfold Enough at h ⊢
    change _ ≤ (f (c.awake q)).length + _
    omega
  | pushBack _ | nobody _ | popBreak _ =>
    have hne := ne_of_not_owner hown
    exact hsame rfl (by simp [Content.apply, hne]) (by simp [Content.apply, hne])
  | notified urgent _ | popNext urgent _ =>
    have hne := ne_of_not_owner hown
    exact hsame rfl (by simp [Content.wake, hne]) (by simp [Content.wake, Content.apply, hne])
  | wait | goOn | block | waitAgain | stolen | tryStolen | popDone => exact h
  | met | addNotify | swapNotifyCnt | pickNext => exact h
  | own _ | loaded _ | err _ | tryLoaded _ | unmet _ => exact h

/-- As long as a queue is not empty, the inequality holds. -/
def NoLostWakeup (maxCount : S → Nat) (c : Content S ρ τ) : Prop :=
  ∀ q, c.queue q ≠ [] → Enough maxCount c q (c.awake q)

theorem NoLostWakeup.step {initCount : S → Nat} (hcounts : Counts maxCount initCount c)
    (hready : Ready maxCount c (.code (.body b))) (h : NoLostWakeup maxCount c)
    (hstep : Outcome maxCount C c b c' cs) : NoLostWakeup maxCount c' := by
  intro q hq
  by_cases hown : own b = some (q, .full)
  · -- A full access to this queue. Nothing else can change its inequality.
    cases hstep with
    | met | swapNotifyCnt | popDone =>
      obtain rfl : _ = q := congrArg Prod.fst (Option.some.inj hown)
      exact h _ hq
    | unmet _ =>
      obtain rfl : _ = q := congrArg Prod.fst (Option.some.inj hown)
      exact h _ hq
    | pushBack _ =>
      obtain rfl : _ = q := congrArg Prod.fst (Option.some.inj hown)
      simpa [Enough, Content.avail, Ready] using hready
    | notified urgent hperm | popNext urgent hperm =>
      obtain rfl : _ = q := congrArg Prod.fst (Option.some.inj hown)
      have henough := h _ (List.ne_nil_of_mem (hperm.mem_iff.mpr List.mem_cons_self))
      simp only [Enough, Content.avail, Content.wake, Content.apply, Function.update_self,
        List.length_cons] at henough ⊢
      omega
    | nobody hnil | popBreak hnil =>
      obtain rfl : _ = q := congrArg Prod.fst (Option.some.inj hown)
      exact absurd hnil hq
    | addNotify => simp [own] at hown
    | wait | goOn | block | waitAgain | stolen | tryStolen | exchanged | ok | pickNext =>
      simp [own] at hown
    | own _ | loaded _ | err _ | tryLoaded _ => simp [own] at hown
  · have hqueue : c'.queue q = c.queue q := by
      cases hstep with
      | pushBack _ =>
        have hne := ne_of_not_owner hown
        simp [hne]
      | notified urgent _ | popNext urgent _ =>
        have hne := ne_of_not_owner hown
        simp [Content.wake, hne]
      | wait | goOn | block | waitAgain | stolen | tryStolen | popDone | exchanged | ok => rfl
      | met | addNotify | swapNotifyCnt | pickNext => rfl
      | own _ | loaded _ | err _ | tryLoaded _ | unmet _ | nobody _ | popBreak _ => rfl
    rw [hqueue] at hq
    exact Enough.outside (f := id) length_le_length_erase hcounts hready hstep hown (h q hq)

/-- The operands of the steps in progress keep their promises. -/
theorem Ready.keep {initCount : S → Nat} {i : Instr (Queue S) QueueOp (Body S κ γ τ)}
    (hcounts : Counts maxCount initCount c) (hready : Ready maxCount c (.code (.body b)))
    (hstep : Outcome maxCount C c b c' cs)
    (hexclusive : ∀ q t, i = .code (.body (.pushBack q t)) → own b ≠ some (q, .full))
    (h : Ready maxCount c i) : Ready maxCount c' i := by
  cases i with
  | code d =>
    cases d with
    | body b' =>
      cases b' with
      | pushBack q t =>
        refine Enough.outside (f := (·.erase t)) (fun l u => ?_) hcounts hready hstep
          (hexclusive q t rfl) h
        rw [List.erase_comm]
        exact length_le_length_erase _ u
      | _ => exact h
    | _ => exact h
  | _ => exact h

omit [DecidableEq S] in
theorem ready_codes (calls : List (Call S κ γ)) :
    ∀ d ∈ (codes calls : List (Code (Queue S) QueueOp (Body S κ γ τ))),
      Ready maxCount c (.code d) := by
  intro d hd
  obtain ⟨call, -, rfl⟩ := List.mem_map.mp hd
  cases call <;> trivial

/-- So do the operands of the steps that a step goes on with. -/
theorem Ready.next (hstep : Outcome maxCount C c b c' cs) : ∀ d ∈ cs, Ready maxCount c' (.code d) := by
  cases hstep with
  | own _ | err _ => exact ready_codes _
  | exchanged | ok => exact List.forall_mem_cons.mpr ⟨trivial, ready_codes _⟩
  | wait | goOn | block | waitAgain | stolen | tryStolen => simp [Ready]
  | loaded hs | tryLoaded hs => simpa [Ready] using hs
  | @unmet q hcond =>
    have hzero : c.avail maxCount q = 0 := by
      obtain ⟨s, side⟩ := q
      cases side <;> simp_all [Side.waiter, Dir.condition, Content.avail]
    simp only [List.forall_mem_singleton, Ready, Enough]
    exact Nat.le_trans (Nat.le_of_eq hzero) (Nat.zero_le _)
  | swapNotifyCnt => simp [Ready]
  | popNext urgent _ => simp [Ready]
  | met | popDone | addNotify | pickNext => simp
  | pushBack _ | nobody _ | popBreak _ => simp
  | notified urgent _ => simp

theorem ready_hereditary : Hereditary (spec (τ := τ) maxCount C) (Ready maxCount c) where
  control i hi := by
    cases i with
    | code d => cases d <;> trivial
    | _ => trivial
  guard l must op _ := trivial
  suspended b h := h.elim
  full q must op _ := by cases op <;> simp [spec, Ready]
  pend q must op _ := by cases op <;> simp [spec, Ready]
  pended q := by simp [spec, Ready]
  handler i := ready_codes _
  pickNext := by simp [spec, Ready]

-- ---------------------------------------------------------------------------
-- Notifications on their way
-- ---------------------------------------------------------------------------

def Body.notifications (q : Queue S) : Body S κ γ τ → Nat
  | .popNotify q' | .addNotify q' => if q' = q then 1 else 0
  | .popNotified q' cnt => if q' = q then cnt else 0
  | _ => 0

/-- The number of notifications of the queue that the instruction is about to apply, or to
add to `notify_cnt`. -/
def notifications (q : Queue S) : Instr (Queue S) QueueOp (Body S κ γ τ) → Nat
  | .code (.body b) | .code (.suspended b) => b.notifications q
  | .code (.access q' _ .notifyOne) | .guard q' _ .notifyOne => if q' = q then 1 else 0
  | _ => 0

omit [DecidableEq τ] in
theorem weigh_codes (q : Queue S) (calls : List (Call S κ γ)) :
    weigh (notifications q)
      (push (codes calls : List (Code (Queue S) QueueOp (Body S κ γ τ))) []) = 0 := by
  induction calls with
  | nil => rfl
  | cons call calls ih =>
    have hcall : notifications q (.code (call.code : Code (Queue S) QueueOp (Body S κ γ τ))) = 0 := by
      cases call <;> rfl
    simpa [push, codes, hcall] using ih

theorem notifications_balanced (q : Queue S) :
    Balanced (notifications q) (spec (τ := τ) maxCount C) where
  control i hi := by
    cases i with
    | code d => cases d <;> first | rfl | exact absurd hi (by simp [Instr.isControl])
    | guard q' must op => exact absurd hi (by simp [Instr.isControl])
    | _ => rfl
  guard q' must op := by cases op <;> rfl
  suspended b := rfl
  full q' must op := by cases op <;> simp [spec, push, notifications, Body.notifications]
  pend q' op := by cases op <;> simp [spec, push, notifications, Body.notifications]
  pended q' := by simp [spec, push, notifications, Body.notifications]
  handler i := weigh_codes q _
  pickNext := by simp [spec, push, notifications, Body.notifications]

omit [DecidableEq τ] in
theorem weigh_notifyOne (q p : Queue S) (calls : List (Call S κ γ)) :
    weigh (notifications q)
      (push (notifyOneAllowIsr p :: codes calls : List (Code (Queue S) QueueOp (Body S κ γ τ))) []) =
      if p = q then 1 else 0 := by
  rw [show ∀ d : Code (Queue S) QueueOp (Body S κ γ τ), push (d :: codes calls) [] =
    .code d :: push (codes calls) [] from fun _ => rfl, weigh_cons, weigh_codes]
  rfl

omit [DecidableEq τ] in
theorem change_unapplied (c : Content S ρ τ) (d : Dir) (s : S) (q : Queue S) :
    (c.change d s).unapplied q = c.unapplied q + if (s, d.signals) = q then 1 else 0 := by
  by_cases hq : (s, d.signals) = q
  · subst hq
    simp [Content.change]
  · have hq' : ¬ q = (s, d.signals) := fun h => hq h.symm
    simp [Content.change, hq, hq']

/-- Every notification that is not applied is on its way, or in `notify_cnt`. -/
theorem Outcome.notifications (hstep : Outcome maxCount C c b c' cs) (q : Queue S)
    (hle : b.notifications q ≤ c.unapplied q) :
    c'.unapplied q + b.notifications q + c.notifyCnt q =
      c.unapplied q + weigh (notifications q) (push cs []) + c'.notifyCnt q := by
  cases hstep with
  | own _ | err _ => simp [Body.notifications, weigh_codes]
  | @exchanged d s k | @ok d s k =>
    rw [weigh_notifyOne]
    exact congrArg (· + c.notifyCnt q) (change_unapplied c d s q)
  | wait | goOn | block | waitAgain | stolen | tryStolen | popDone | met | pickNext =>
    simp [Body.notifications, push, Sync.notifications]
  | loaded _ | tryLoaded _ | unmet _ | pushBack _ =>
    simp [Body.notifications, push, Sync.notifications]
  | @nobody p _ | @notified p _ _ _ _ | @popBreak p _ _ | @popNext p _ _ _ _ _ =>
    by_cases hq : p = q
    · subst hq
      simp only [Body.notifications, if_true] at hle
      simp only [Body.notifications, push, Sync.notifications, Content.apply, Content.wake, if_true,
        Function.update_self, List.map_nil, List.map_cons, List.append_nil, weigh_nil, weigh_cons]
      omega
    · have hq' : ¬ q = p := fun h => hq h.symm
      simp [Body.notifications, push, Sync.notifications, Content.apply, Content.wake, hq, hq']
  | @addNotify p =>
    by_cases hq : p = q
    · subst hq
      simp only [Body.notifications, push, if_true, Function.update_self, List.map_nil,
        List.append_nil, weigh_nil]
      omega
    · have hq' : ¬ q = p := fun h => hq h.symm
      simp [Body.notifications, push, hq, hq']
  | @swapNotifyCnt p =>
    by_cases hq : p = q
    · subst hq
      simp [Body.notifications, push, Sync.notifications]
    · have hq' : ¬ q = p := fun h => hq h.symm
      simp [Body.notifications, push, Sync.notifications, hq, hq']

/-- A `run_pended_op` is due while `notify_cnt` is not zero. -/
def due (c : Content S ρ τ) (q : Queue S) : Prop := 0 < c.notifyCnt q

def settles : Body S κ γ τ → Option (Queue S)
  | .swapNotifyCnt q => some q
  | _ => none

theorem deferral : Deferral own (spec (τ := τ) maxCount C) due settles where
  grow := by
    intro c b x c' cs q hexec hdue
    cases exec_outcome hexec with
    | @addNotify p =>
      by_cases hq : p = q
      · subst hq
        exact Or.inr rfl
      · have hq' : ¬ q = p := fun h => hq h.symm
        exact Or.inl (by simpa [due, hq'] using hdue)
    | @swapNotifyCnt p =>
      by_cases hq : q = p
      · subst hq
        simp [due] at hdue
      · exact Or.inl (by simpa [due, hq] using hdue)
    | wait | goOn | block | waitAgain | stolen | tryStolen | popDone | exchanged | ok | met
    | pickNext => exact Or.inl hdue
    | own _ | loaded _ | err _ | tryLoaded _ | unmet _ | pushBack _ | nobody _ | popBreak _ =>
      exact Or.inl hdue
    | notified urgent _ | popNext urgent _ => exact Or.inl hdue
  settle := by
    intro c b x c' cs q hexec hb
    cases b with
    | swapNotifyCnt p =>
      obtain rfl := Option.some.inj hb
      obtain ⟨rfl, -⟩ := Prod.mk.inj (Option.some.inj hexec)
      simp [due]
    | _ => exact absurd hb (by simp [settles])
  owned := by
    intro b q hb
    cases b with
    | swapNotifyCnt p =>
      obtain rfl := Option.some.inj hb
      rfl
    | _ => exact absurd hb (by simp [settles])
  pended q := ⟨.swapNotifyCnt q, rfl, List.mem_singleton_self _⟩

-- ---------------------------------------------------------------------------
-- Runs
-- ---------------------------------------------------------------------------

/-- The invariant of the machine with semaphores. -/
structure Inv [Fintype τ] (maxCount initCount : S → Nat)
    (s : State (Queue S) QueueOp (Body S κ γ τ) (Content S ρ τ) τ) : Prop where
  sound : Sound own s
  announced : Announced due settles s
  counts : Counts maxCount initCount s.content
  queues : Queues s.content
  wakeup : NoLostWakeup maxCount s.content
  ready : Everywhere (Ready maxCount s.content) s
  applied : ∀ q, s.content.unapplied q = s.weight (notifications q) + s.content.notifyCnt q

variable [Fintype τ] {initCount : S → Nat} {cur : τ} {client : ρ} {tasks : τ → List (Call S κ γ)}
  {s s' : State (Queue S) QueueOp (Body S κ γ τ) (Content S ρ τ) τ}

theorem Inv.step {a : Action ι (Choice τ ξ)} (h : Inv maxCount initCount s)
    (hstep : Exec.step (spec maxCount C) s a = some s') : Inv maxCount initCount s' := by
  have hsound := h.sound.step discipline hstep
  rcases step_cases hstep with ⟨x, b, k, c, cs, hk, hexec, rfl⟩ | hcontrol
  · have hout := exec_outcome hexec
    have hready : Ready maxCount s.content (.code (.body b)) := h.ready.1 _ (by rw [hk]; simp)
    refine ⟨hsound, h.announced.body deferral.draining h.sound hk hexec, h.counts.step hready hout,
      h.queues.step hout, h.wakeup.step h.counts hready hout, ?_, fun q => ?_⟩
    · refine h.ready.body hk (fun _ => Ready.next hout) fun i hi hi' => ?_
      refine Ready.keep h.counts hready hout (fun q t heq hown => ?_) hi'
      subst heq
      exact h.sound.exclusive hk hown hi rfl
    · have hw := State.weight_body (w := notifications q) hk c cs
      have happlied := h.applied q
      have hle : b.notifications q ≤ s.content.unapplied q := by
        rw [happlied, State.weight, hk, weigh_cons]
        simp only [notifications]
        omega
      have hnew := hout.notifications q hle
      simp only [notifications] at hw
      change c.unapplied q = _ + c.notifyCnt q
      omega
  · have hcontent := hcontrol.content_eq
    refine ⟨hsound, h.announced.control deferral.draining.toLooking h.sound hcontrol, hcontent ▸ h.counts,
      hcontent ▸ h.queues, hcontent ▸ h.wakeup, ?_, fun q => ?_⟩
    · rw [hcontent]
      exact h.ready.control ready_hereditary hcontrol
    · rw [hcontent, hcontrol.weight_eq (notifications_balanced q) h.sound]
      exact h.applied q

theorem start_inv (hinit : ∀ sem, initCount sem ≤ maxCount sem) :
    Inv maxCount initCount (init (start initCount cur client) cur fun t => codes (tasks t) :
      State (Queue S) QueueOp (Body S κ γ τ) (Content S ρ τ) τ) := by
  refine ⟨init_sound fun t => inner_codes _, fun q hdue => absurd hdue (by simp [due, init, start]),
    ⟨hinit, fun _ => rfl⟩, ⟨?_, ?_, ?_, ?_, ?_⟩, fun q hq => absurd rfl hq,
    Everywhere.init fun t => ready_codes _, fun q => ?_⟩
  · exact fun _ => List.nodup_nil
  · exact fun q t ht => absurd ht (by simp [init, start])
  · exact fun q q' t ht => absurd ht (by simp [init, start])
  · exact fun _ => List.nodup_nil
  · exact fun q t ht => absurd ht (by simp [init, start])
  · rw [State.weight_init fun t => weigh_codes q _]
    rfl

/-- The instruction is part of an access to the queue, or will notify it. -/
def Instr.concerns (q : Queue S) (i : Instr (Queue S) QueueOp (Body S κ γ τ)) : Bool :=
  Instr.guardOf q i || notifications q i != 0

/-- No notification of the queue is in progress. A blocked task is not in the way. -/
def Quiet (s : State (Queue S) QueueOp (Body S κ γ τ) (Content S ρ τ) τ) (q : Queue S) : Prop :=
  (∀ i ∈ s.stack, Instr.concerns q i = false) ∧ ∀ t, ∀ i ∈ s.saved t, Instr.concerns q i = false

/-- What a semaphore guarantees in every state. -/
structure SemaphoreOk (maxCount initCount : S → Nat)
    (s : State (Queue S) QueueOp (Body S κ γ τ) (Content S ρ τ) τ) (sem : S) : Prop where
  range : s.content.count sem ≤ maxCount sem
  counted : s.content.count sem + s.content.downs sem = initCount sem + s.content.ups sem
  /-- A task waits for an increment. -/
  incremented : s.content.queue (sem, .incremented) ≠ [] → s.content.count sem ≤
    (s.content.awake (sem, .incremented)).length + s.content.unapplied (sem, .incremented)
  /-- A task waits for a decrement. -/
  decremented : s.content.queue (sem, .decremented) ≠ [] → maxCount sem - s.content.count sem ≤
    (s.content.awake (sem, .decremented)).length + s.content.unapplied (sem, .decremented)
  awake : ∀ side, (s.content.awake (sem, side)).Nodup
  /-- Where the notifications are that have not been applied. -/
  unapplied : ∀ side, s.content.unapplied (sem, side) =
    s.weight (notifications (sem, side)) + s.content.notifyCnt (sem, side)
  blockedDown : Quiet s (sem, .incremented) → s.content.awake (sem, .incremented) = [] →
    s.content.queue (sem, .incremented) ≠ [] → s.content.count sem = 0
  blockedUp : Quiet s (sem, .decremented) → s.content.awake (sem, .decremented) = [] →
    s.content.queue (sem, .decremented) ≠ [] → s.content.count sem = maxCount sem

omit [DecidableEq τ] [Fintype τ] in
theorem notifications_eq_zero {q : Queue S} {i : Instr (Queue S) QueueOp (Body S κ γ τ)}
    (h : Instr.concerns q i = false) : notifications q i = 0 := by
  simp only [Instr.concerns, Bool.or_eq_false_iff, bne_eq_false_iff_eq] at h
  exact h.2

/-- When no notification is in progress, none is waiting to be applied. -/
theorem Inv.unapplied_eq_zero (h : Inv maxCount initCount s) {q : Queue S} (hquiet : Quiet s q)
    (hd : Deferral own (spec (τ := τ) maxCount C) due settles) : s.content.unapplied q = 0 := by
  have hcnt : ¬ 0 < s.content.notifyCnt q := h.announced.idle hd.draining.toLooking h.sound fun i hi => by
    have := hquiet.1 i hi
    simp only [Instr.concerns, Bool.or_eq_false_iff] at this
    exact this.1
  rw [h.applied q, State.weight_eq_zero (fun i hi => notifications_eq_zero (hquiet.1 i hi))
    fun t i hi => notifications_eq_zero (hquiet.2 t i hi)]
  omega

/-- Semaphores count correctly and lose no wake-up, in every run, whatever tasks and
interrupt handlers do with them. -/
theorem exec_semaphoreOk (hinit : ∀ sem, initCount sem ≤ maxCount sem)
    {actions : List (Action ι (Choice τ ξ))}
    (hrun : Run.exec (Exec.step (spec maxCount C))
      (init (start initCount cur client) cur fun t => codes (tasks t)) actions = some s) (sem : S) :
    SemaphoreOk maxCount initCount s sem := by
  have hinv : Inv maxCount initCount s :=
    Run.exec_inv (Inv maxCount initCount) (fun h hstep => h.step hstep) (start_inv hinit) hrun
  have hrange := hinv.counts.range sem
  have hinc := hinv.wakeup (sem, .incremented)
  have hdec := hinv.wakeup (sem, .decremented)
  refine ⟨hrange, hinv.counts.counted sem, hinc, hdec, fun _ => hinv.queues.awake _,
    fun _ => hinv.applied _, fun hquiet hawake hqueue => ?_, fun hquiet hawake hqueue => ?_⟩
  · have hzero := hinv.unapplied_eq_zero hquiet (deferral (C := C))
    have hle := hinc hqueue
    simp only [Enough, Content.avail, hawake, hzero, List.length_nil] at hle
    omega
  · have hzero := hinv.unapplied_eq_zero hquiet (deferral (C := C))
    have hle := hdec hqueue
    simp only [Enough, Content.avail, hawake, hzero, List.length_nil] at hle
    omega

/-- One semaphore: a task waits for it, and every interrupt increments it. -/
def oneSemaphore : Client Unit Unit Empty Unit Unit Unit where
  ok _ := []
  err _ := []
  exec _ g _ := g.elim
  handler _ := [.tryUpAllowIsr () ()]

def go : Action Unit (Choice Bool Unit) := .run ⟨false, fun _ => 0, false, ()⟩

/-- The counter is incremented right before the task goes into the queue. -/
theorem exec_semaphoreOk_oneSemaphore :
    ∃ s, Run.exec (Exec.step (spec (fun _ => 1) oneSemaphore))
        (init (start (fun _ => 0) true ()) true fun t =>
          codes (if t = true then [.down () ()] else []))
        ([go, go, go, go, go, .preempt ()] ++ List.replicate 10 go) = some s ∧
      s.content.queue ((), .incremented) = [true] ∧ s.content.count () = 1 ∧
      s.content.notifyCnt ((), .incremented) = 1 ∧ SemaphoreOk (fun _ => 1) (fun _ => 0) s () := by
  obtain ⟨s, hrun, hfacts⟩ : ∃ s, Run.exec (Exec.step (spec (fun _ => 1) oneSemaphore))
      (init (start (fun _ => 0) true ()) true fun t =>
        codes (if t = true then [.down () ()] else []))
      ([go, go, go, go, go, .preempt ()] ++ List.replicate 10 go) = some s ∧
      s.content.queue ((), .incremented) = [true] ∧ s.content.count () = 1 ∧
      s.content.notifyCnt ((), .incremented) = 1 := ⟨_, rfl, rfl, rfl, rfl⟩
  exact ⟨s, hrun, hfacts.1, hfacts.2.1, hfacts.2.2,
    exec_semaphoreOk (fun _ => Nat.zero_le 1) hrun ()⟩

end Hopter.Sync
