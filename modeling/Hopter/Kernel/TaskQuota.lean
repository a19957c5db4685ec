-- SUMMARY: Task quotas: the number of existing tasks is the number of live quotas, and so the lock-free buffers have room for every task.
import Hopter.Kernel.Removals

/-!
# Task quotas

`TaskQuota` of `src/schedule/scheduler.rs`, over the kernel queues. A task holds its quota from when
it is made until its struct is dropped, and that is when the last reference to it is gone. The
lock-free buffers have the capacity `MAX_TASK_NUMBER`, and `enqueue` fails when a buffer is full.
A task is in each buffer once at most, and so there is room for all of them.
-/

namespace Hopter.Kernel

open Exec Hopter.Task

variable {τ W B : Type} [DecidableEq τ] [DecidableEq W] [DecidableEq B]

-- ---------------------------------------------------------------------------
-- Quotas
-- ---------------------------------------------------------------------------

/-- Where a call of `TaskQuota::new` is. -/
inductive Attempt where
  | load
  /-- The number that has been loaded is below the limit. -/
  | exchange (existTaskNum : Nat)
  deriving DecidableEq

/-- The kernel with the quotas. -/
structure Quotas (τ W B : Type) where
  kernel : State (Lock W B) (Op τ) (Body τ W B) (Content τ W B) τ
  /-- `EXIST_TASK_NUM`. -/
  existTaskNum : Nat
  /-- The calls of `TaskQuota::new` that are in progress. -/
  attempts : List Attempt
  /-- The live quotas that no task holds. -/
  spare : Nat
  /-- The tasks that exist. Each holds a quota. -/
  holders : List τ
  /-- History: what the calls of `TaskQuota::new` that have failed had loaded. -/
  failed : List Nat

inductive QuotaAction (τ W B : Type) where
  | kernel (a : Action (List (HandlerCall τ W B)) (Choice τ W B))
  /-- `TaskQuota::new` is called. -/
  | request
  /-- One of the calls goes on. The compare-exchange may fail for no reason. -/
  | attempt (n : Nat) (spurious : Bool)
  | dropQuota
  | dropTask (t : τ)

/-- The task that the step makes. -/
def Body.makes : Body τ W B → Option τ
  | .acceptNew t | .enqueueNew t => some t
  | _ => none

namespace Quotas

/-- The loop of `TaskQuota::new`. -/
def attempt (max : Nat) (q : Quotas τ W B) (n : Nat) (spurious : Bool) : Attempt → Quotas τ W B
  | .load =>
    if q.existTaskNum < max then { q with attempts := q.attempts.set n (.exchange q.existTaskNum) }
    else { q with attempts := q.attempts.eraseIdx n, failed := q.failed ++ [q.existTaskNum] }
  | .exchange existTaskNum =>
    if q.existTaskNum = existTaskNum ∧ spurious = false then
      { q with existTaskNum := existTaskNum + 1, attempts := q.attempts.eraseIdx n, spare := q.spare + 1 }
    else { q with attempts := q.attempts.set n .load }

/-- `fetch_sub` of the destructor, which wraps around. -/
def release (q : Quotas τ W B) : Quotas τ W B :=
  { q with existTaskNum := if q.existTaskNum = 0 then 2 ^ 32 - 1 else q.existTaskNum - 1 }

/-- One step. A task is made with a quota. -/
def step (C : Config) (max : Nat) (q : Quotas τ W B) : QuotaAction τ W B → Option (Quotas τ W B)
  | .kernel a => (Exec.step (spec C) q.kernel a).bind fun s =>
    match (takes q.kernel a).bind Body.makes with
    | none => some { q with kernel := s }
    | some t =>
      if q.spare = 0 then none
      else some { q with kernel := s, spare := q.spare - 1, holders := t :: q.holders }
  | .request => some { q with attempts := q.attempts ++ [.load] }
  | .attempt n spurious => q.attempts[n]?.map (q.attempt max n spurious)
  | .dropQuota => if q.spare = 0 then none else some { q.release with spare := q.spare - 1 }
  | .dropTask t => if t ∈ q.holders then some { q.release with holders := q.holders.erase t } else none

/-- The scheduler has been started: the idle task and the main task exist. -/
def boot (idle main : τ) (priority : τ → Nat) (clock : Nat) : Quotas τ W B where
  kernel := Kernel.boot idle main priority clock
  existTaskNum := 2
  attempts := []
  spare := 0
  holders := [idle, main]
  failed := []

end Quotas

/-- There is a reference to the task. -/
def Refers (s : State (Lock W B) (Op τ) (Body τ W B) (Content τ W B) τ) (t : τ) : Prop :=
  t = s.content.cur ∨ (∃ l, t ∈ s.content.list l) ∨ t ∈ s.content.insertBuffer ∨
    (∃ m, s.content.waitTask m = .withTimeout t ∨ s.content.waitTask m = .withoutTimeout t) ∨
    t ∈ hands s ∨ t ∈ picks s ∨ t ∈ removals s

/-- A task is dropped when there is no reference to it. -/
def QuotaAction.Unreferenced (q : Quotas τ W B) : QuotaAction τ W B → Prop
  | .dropTask t => ¬ Refers q.kernel t
  | _ => True

/-- A task blocks with a timeout only when no removal of it is left in the delete buffer. -/
def QuotaAction.NoneLeft (q : Quotas τ W B) : QuotaAction τ W B → Prop
  | .kernel a => ∀ b ∈ takes q.kernel a, b.NoneLeft q.kernel.content
  | _ => True

instance (q : Quotas τ W B) (a : QuotaAction τ W B) : Decidable (a.NoneLeft q) := by
  cases a with
  | kernel a => exact inferInstanceAs (Decidable (∀ b ∈ takes q.kernel a, b.NoneLeft q.kernel.content))
  | _ => exact isTrue trivial

/-- The buffer is not full when the step puts a task into it. -/
def Body.Fits (max : Nat) (c : Content τ W B) : Body τ W B → Prop
  | .enqueue _ | .enqueueNew _ => c.insertBuffer.length < max
  | .enqueueDelete _ => c.deleteBuffer.length < max
  | _ => True

/-- The quotas are counted, and the buffers have room. -/
structure QuotasSound (C : Config) (max : Nat) (q : Quotas τ W B) : Prop where
  count : q.existTaskNum = q.spare + q.holders.length
  limit : q.existTaskNum ≤ max
  /-- A call of `TaskQuota::new` has failed because the limit was reached. -/
  failed : ∀ n ∈ q.failed, n = max
  fits : ∀ a q', q.step C max (.kernel a) = some q' → ∀ b ∈ takes q.kernel a, b.Fits max q.kernel.content

-- ---------------------------------------------------------------------------
-- Tasks that are out of the system
-- ---------------------------------------------------------------------------

variable {C : Config} {c c' : Content τ W B} {b : Body τ W B} {cs : List (KCode τ W B)}
  {s s' : State (Lock W B) (Op τ) (Body τ W B) (Content τ W B) τ}
  {k : List (Instr (Lock W B) (Op τ) (Body τ W B))}
  {a : Action (List (HandlerCall τ W B)) (Choice τ W B)}
  {hands picks : List τ} {u : τ} {p p' : Place W B}

/-- The task has ended, or a mailbox has thrown it away. -/
def Place.out : Place W B → Bool
  | .gone | .lost => true
  | _ => false

omit [DecidableEq W] [DecidableEq B] in
theorem Place.ne_of_out {q : Place W B} (hp : p.out = true) (hq : q.out = false) : p ≠ q := by
  rintro rfl
  simp [hp] at hq

theorem At.not_running (h : At c hands picks u p) (hp : p.out = true) : c.state u ≠ .running := by
  intro hstate
  have hallows := h.state
  rw [hstate] at hallows
  cases p <;> first | cases hp; done | cases hallows

/-- A task that is out of the system is not moved. -/
theorem Outcome.out (h : Outcome C c b c' cs) (hrun : b.blocks = true → c.state c.cur = .running)
    (hat : At c (b.carried.toList ++ hands) (b.picked.toList ++ picks) u p) (hp : p.out = true) :
    At c' (codeCarried cs ++ hands) (codePicked cs ++ picks) u p := by
  by_cases hu : c.moved b = some u
  · have hrunning := hat.not_running hp
    have hplace : ∀ {q : Place W B}, q.out = false → p ≠ q := Place.ne_of_out hp
    have hblocks : b.blocks = false := by
      by_contra hb
      have hb : b.blocks = true := by simpa using hb
      obtain rfl : c.cur = u := by cases b <;> first | exact Option.some.inj hu | cases hb
      exact hrunning (hrun hb)
    refine Same.at ?_ hat
    cases h with
    | cleanUpRunning _ hstate _ =>
      obtain rfl : c.cur = u := Option.some.inj hu
      exact absurd hstate hrunning
    | @popNext t rest hpop =>
      obtain rfl : t = u := by simpa [Content.moved, hpop] using hu
      exact absurd (hat.eq_list (l := .ready) ((popHighestPriority_perm hpop).mem_iff.mpr (List.mem_cons_self ..)))
        (hplace rfl)
    | updateCurTask =>
      obtain rfl := Option.some.inj hu
      exact absurd (hat.eq_chosen (by simp [Body.picked])) (hplace rfl)
    | acceptNew hnew | enqueueNew hnew =>
      obtain rfl := Option.some.inj hu
      exact absurd (hat.eq_fresh hnew) (hplace rfl)
    | pushReady | enqueue | pushPended | pushSorted =>
      obtain rfl := Option.some.inj hu
      exact absurd (hat.eq_hand (by simp [Body.carried])) (hplace rfl)
    | @dequeue t rest hbuffer =>
      obtain rfl : t = u := by simpa [Content.moved, hbuffer] using hu
      exact absurd (hat.eq_buffer (by simp [hbuffer])) (hplace rfl)
    | @wake now p t rest hqueue _ =>
      obtain rfl : t = u := by simpa [Content.moved, hqueue] using hu
      exact absurd (hat.eq_list (l := .sleep) (by simp [hqueue])) (hplace rfl)
    | @delete now p t rest hbuffer hmem =>
      obtain rfl : t = u := by simpa [Content.moved, hbuffer] using hu
      exact absurd (hat.eq_list (l := .sleep) hmem) (hplace rfl)
    | remove _ hmem =>
      obtain rfl := Option.some.inj hu
      exact absurd (hat.eq_list (l := .sleep) hmem) (hplace rfl)
    | @popNotify w t rest _ hpop | @popNotified w n t rest hpop =>
      obtain rfl : t = u := by simpa [Content.moved, hpop] using hu
      exact absurd (hat.eq_list (l := .waitQueue w)
        ((popHighestPriority_perm hpop).mem_iff.mpr (List.mem_cons_self ..))) (hplace rfl)
    | @notifyWaiter m t _ hwait | @pendedWaiter m t _ hwait =>
      obtain rfl : t = u := by simpa [Content.moved, hwait] using hu
      exact absurd (hat.eq_slot hwait) (hplace rfl)
    | @takeNotified m _ _ | @takeTimeout m _ _ =>
      obtain ⟨t, hwait⟩ : ∃ t, c.waitTask m = .withoutTimeout t := by
        cases hwait : c.waitTask m <;> simp [Content.moved, hwait] at hu ⊢
      obtain rfl : t = u := by simpa [Content.moved, hwait] using hu
      exact absurd (hat.eq_slot hwait) (hplace rfl)
    | @notifyTimeout m t _ hwait | @pendedTimeout m t _ hwait => simp [Content.moved, hwait] at hu
    | @notifyCount m _ hwait | @pendedNone m _ hwait => simp [Content.moved, hwait] at hu
    | cleanUp _ _ _ | wakeEnd _ | deleteNone _ _ | deleteEnd _ | removeNone _ _ | popNotifyNone _ | popNotifiedEnd
    | dequeueNone _ =>
      exact ⟨fun l => by cases l <;> simp, by simp, fun m => by simp, rfl, rfl, by simp, by simp, by simp⟩
    | pushWait | conditionMet | conditionNotMet | count | block | countTimeout | blockTimeout => cases hblocks
    | addCurTask | dropCurrentTask => cases hblocks
    | _ => cases hu
  · exact (h.same hu).at hat

theorem Place.mem_of_count {l : List τ} {q : Place W B} (h : l.count u = q.count q) : u ∈ l := by
  rw [Place.count_self] at h
  exact List.count_pos_iff.mp (by omega)

/-- What is to be seen of a task tells whether it is out of the system. -/
theorem At.out_unique (h : At c hands picks u p) (h' : At c hands picks u p') (hp : p.out = true) :
    p'.out = true := by
  cases p' with
  | fresh => exact absurd rfl (h'.spawned.mp (h.spawned.mpr (Place.ne_of_out hp rfl)))
  | cpu => exact absurd (h'.running (Or.inl rfl)) (h.not_running hp)
  | chosen => exact absurd (h'.running (Or.inr rfl)) (h.not_running hp)
  | list l => exact absurd (h.eq_list (Place.mem_of_count (h'.list l))) (Place.ne_of_out hp rfl)
  | buffer => exact absurd (h.eq_buffer (Place.mem_of_count h'.buffer)) (Place.ne_of_out hp rfl)
  | slot m => exact absurd (h.eq_slot ((h'.slot m).mpr rfl)) (Place.ne_of_out hp rfl)
  | hand => exact absurd (h.eq_hand (Place.mem_of_count h'.hand)) (Place.ne_of_out hp rfl)
  | gone | lost => rfl

/-- A task that is out of the system stays out of it. -/
theorem PlaceInv.out_step {idle : τ} {place place' : τ → Place W B} (h : PlaceInv idle place s)
    (h' : PlaceInv idle place' s') (hstep : Exec.step (spec C) s a = some s') (hu : (place u).out = true) :
    (place' u).out = true := by
  refine At.out_unique ?_ (h'.placed.seen u) hu
  rcases step_takes hstep with ⟨x, b, k, c', cs, htakes, hk, hexec, rfl⟩ | hcontrol
  · have hready := step_takes_pendsv hstep htakes
    obtain ⟨hhands, hpicks⟩ := hands_body hk
    have hseen := h.placed.seen u
    rw [hhands, hpicks] at hseen
    simp only [Kernel.hands, Kernel.picks, filterMap_push]
    exact (exec_outcome hexec).out
      (fun hb => h.active.running h.code.kept h.code.alone h.code.under hready hk hb) hseen hu
  · obtain ⟨hhands, hpicks⟩ := Control.hands_eq h.code.locks h.code.kept hcontrol
    rw [hhands, hpicks, hcontrol.content_eq]
    exact h.placed.seen u

/-- A task that there is no reference to is out of the system. -/
theorem PlaceInv.out_of_not_refers {idle : τ} {place : τ → Place W B} (h : PlaceInv idle place s)
    (hspawned : s.content.spawned u = true) (hrefers : ¬ Refers s u) : (place u).out = true := by
  have hseen := h.placed.seen u
  simp only [Refers, not_or] at hrefers
  obtain ⟨hcur, hlist, hbuffer, hwait, hhands, hpicks, -⟩ := hrefers
  cases hp : place u with
  | fresh => exact absurd hp (hseen.spawned.mp hspawned)
  | cpu => exact absurd (h.placed.cpu u hp).1 hcur
  | chosen => exact absurd (Place.mem_of_count (hp ▸ hseen.chosen)) hpicks
  | list l => exact absurd ⟨l, Place.mem_of_count (hp ▸ hseen.list l)⟩ hlist
  | buffer => exact absurd (Place.mem_of_count (hp ▸ hseen.buffer)) hbuffer
  | slot m => exact absurd ⟨m, Or.inr ((hseen.slot m).mpr hp)⟩ hwait
  | hand => exact absurd (Place.mem_of_count (hp ▸ hseen.hand)) hhands
  | gone | lost => rfl

/-- Every step but the one that makes a task. -/
theorem Outcome.spawned_cases (h : Outcome C c b c' cs) : b.makes = none ∧ c'.spawned = c.spawned ∨
    ∃ t, b.makes = some t ∧ c.spawned t = false ∧ c'.spawned = Function.update c.spawned t true := by
  cases h with
  | acceptNew hnew | enqueueNew hnew => exact Or.inr ⟨_, rfl, hnew, rfl⟩
  | _ => exact Or.inl ⟨rfl, by simp⟩

-- ---------------------------------------------------------------------------
-- Runs
-- ---------------------------------------------------------------------------

/-- A task that has been made holds a quota, unless it is out of the system. -/
structure QuotaInv (idle : τ) (max : Nat) (q : Quotas τ W B) : Prop where
  places : ∃ place, PlaceInv idle place q.kernel ∧
    ∀ t, q.kernel.content.spawned t = true → t ∈ q.holders ∨ (place t).out = true
  calls : CallInv q.kernel
  removal : RemovalInv q.kernel
  nodup : q.holders.Nodup
  spawned : ∀ t ∈ q.holders, q.kernel.content.spawned t = true
  removed : ∀ t ∈ removals q.kernel, t ∈ q.holders
  waits : ∀ m t, q.kernel.content.waitTask m = .withTimeout t → t ∈ q.holders
  count : q.existTaskNum = q.spare + q.holders.length
  limit : q.existTaskNum ≤ max
  attempts : ∀ n, .exchange n ∈ q.attempts → n < max
  failed : ∀ n ∈ q.failed, n = max

variable {q q' : Quotas τ W B} {idle : τ} {max : Nat} {t : τ}

theorem PlaceInv.holds {place : τ → Place W B} (h : PlaceInv idle place q.kernel)
    (hholds : ∀ t, q.kernel.content.spawned t = true → t ∈ q.holders ∨ (place t).out = true)
    (hfresh : place t ≠ .fresh) (hout : (place t).out = false) : t ∈ q.holders := by
  rcases hholds t ((h.placed.seen t).spawned.mpr hfresh) with hmem | hplace
  · exact hmem
  · simp [hout] at hplace

/-- A task that is blocked by the step exists. -/
theorem PlaceInv.cur_holds {place : τ → Place W B} (h : PlaceInv idle place q.kernel)
    (hholds : ∀ t, q.kernel.content.spawned t = true → t ∈ q.holders ∨ (place t).out = true)
    (hrunning : q.kernel.content.state q.kernel.content.cur = .running) : q.kernel.content.cur ∈ q.holders := by
  have hseen := h.placed.seen q.kernel.content.cur
  refine h.holds hholds (fun hp => ?_) ?_
  · have hallows := hseen.state
    rw [hp, hrunning] at hallows
    cases hallows
  · by_contra hp
    exact hseen.not_running (by simpa using hp) hrunning

/-- What is to be removed from the sleep queue, and who waits with a timeout, exists. -/
theorem QuotaInv.live_step (h : QuotaInv idle max q) (hstep : Exec.step (spec C) q.kernel a = some s') :
    (∀ t ∈ removals s', t ∈ q.holders) ∧ ∀ m t, s'.content.waitTask m = .withTimeout t → t ∈ q.holders := by
  obtain ⟨place, hplace, hholds⟩ := h.places
  rcases step_takes hstep with ⟨x, b, k, c', cs, htakes, hk, hexec, rfl⟩ | hcontrol
  · obtain ⟨hbefore, hafter⟩ : _ ∧ removals { q.kernel with content := c', stack := push cs k } = _ :=
      removals_body hk
    have hremoved := h.removed
    rw [hbefore] at hremoved
    rw [hafter]
    cases (exec_outcome hexec).removes with
    | keeps hwait hremovals =>
      exact ⟨fun t ht => hremoved t ((hremovals.append_right _).subset ht), fun m t ht => h.waits m t (hwait m t ht).1⟩
    | @takes m t hwait hwait' hb hremovals =>
      refine ⟨fun u hu => ?_, fun m' u hu => ?_⟩
      · rw [hremovals.1] at hu
        rw [hremovals.2, Option.toList_none, List.append_nil] at hremoved
        simp only [List.mem_append, List.mem_singleton] at hu hremoved
        rcases hu with (hu | rfl) | hu
        · exact hremoved u (Or.inl hu)
        · exact h.waits m u hwait
        · exact hremoved u (Or.inr hu)
      · by_cases hm : m' = m
        · simp [hwait', hm] at hu
        · exact h.waits m' u (by simpa [hwait', hm] using hu)
    | @blocks m ms hb hcount hwait' hremovals =>
      subst hb
      refine ⟨fun u hu => hremoved u (by simpa [hremovals, Body.removal] using hu), fun m' u hu => ?_⟩
      by_cases hm : m' = m
      · obtain rfl : q.kernel.content.cur = u := by simpa [hwait', hm] using hu
        have hready := step_takes_pendsv hstep htakes
        exact hplace.cur_holds hholds
          (hplace.active.running hplace.code.kept hplace.code.alone hplace.code.under hready hk rfl)
      · exact h.waits m' u (by simpa [hwait', hm] using hu)
  · refine ⟨fun u hu => ?_, fun m u hu => ?_⟩
    · rw [removals, h.calls.removals_eq hplace.code.locks hcontrol, hcontrol.content_eq] at hu
      exact h.removed u hu
    · rw [hcontrol.content_eq] at hu
      exact h.waits m u hu

theorem Quotas.step_kernel (h : q.step C max (.kernel a) = some q') :
    ∃ s, Exec.step (spec C) q.kernel a = some s ∧
      (((takes q.kernel a).bind Body.makes = none ∧ q' = { q with kernel := s }) ∨
        ∃ t, (takes q.kernel a).bind Body.makes = some t ∧ q.spare ≠ 0 ∧
          q' = { q with kernel := s, spare := q.spare - 1, holders := t :: q.holders }) := by
  obtain ⟨s, hstep, h⟩ := Option.bind_eq_some_iff.mp h
  refine ⟨s, hstep, ?_⟩
  cases hmakes : (takes q.kernel a).bind Body.makes with
  | none =>
    rw [hmakes] at h
    exact Or.inl ⟨rfl, (Option.some.inj h).symm⟩
  | some t =>
    rw [hmakes] at h
    by_cases hspare : q.spare = 0
    · simp [hspare] at h
    · exact Or.inr ⟨t, rfl, hspare, by simpa [hspare] using h.symm⟩

/-- The tasks that have been made, after a step of the kernel. -/
theorem spawned_step (hstep : Exec.step (spec C) s a = some s') :
    ((takes s a).bind Body.makes = none ∧ s'.content.spawned = s.content.spawned) ∨
      ∃ t, (takes s a).bind Body.makes = some t ∧ s.content.spawned t = false ∧
        s'.content.spawned = Function.update s.content.spawned t true := by
  cases htakes : takes s a with
  | some b =>
    obtain ⟨x, k, c', cs, hk, hexec, rfl⟩ := step_of_takes hstep htakes
    exact (exec_outcome hexec).spawned_cases
  | none =>
    rcases step_takes hstep with ⟨x, b, k, c', cs, hsome, -⟩ | hcontrol
    · rw [htakes] at hsome
      cases hsome
    · exact Or.inl ⟨rfl, by rw [hcontrol.content_eq]⟩

/-- A step of the kernel keeps the invariant, whoever holds the quotas that it uses. -/
theorem QuotaInv.kernel_step (h : QuotaInv idle max q) (hok : QuotaAction.NoneLeft q (.kernel a))
    (hstep : q.step C max (.kernel a) = some q') : QuotaInv idle max q' := by
  obtain ⟨s', hkernel, hmakes⟩ := Quotas.step_kernel hstep
  obtain ⟨place, hplace, hholds⟩ := h.places
  obtain ⟨place', hplace', -⟩ := hplace.step hkernel
  obtain ⟨hremoved, hwaits⟩ := h.live_step hkernel
  have hcalls := h.calls.step hplace.code.locks hkernel
  have hremoval := h.removal.step hplace.code h.calls hok hkernel
  have hout : ∀ t, (place t).out = true → (place' t).out = true := fun t => hplace.out_step hplace' hkernel
  rcases spawned_step hkernel with ⟨hnone, hspawned⟩ | ⟨t, hsome, hnew, hspawned⟩
  · obtain ⟨-, rfl⟩ | ⟨t, hsome, -⟩ := hmakes
    · exact {
        places := ⟨place', hplace', fun t ht => (hholds t (hspawned ▸ ht)).imp_right (hout t)⟩
        calls := hcalls
        removal := hremoval
        nodup := h.nodup
        spawned := fun t ht => hspawned ▸ h.spawned t ht
        removed := hremoved
        waits := hwaits
        count := h.count
        limit := h.limit
        attempts := h.attempts
        failed := h.failed }
    · rw [hnone] at hsome
      cases hsome
  · obtain ⟨hnone, -⟩ | ⟨t', hsome', hspare, rfl⟩ := hmakes
    · rw [hnone] at hsome
      cases hsome
    · obtain rfl : t = t' := Option.some.inj (hsome.symm.trans hsome')
      have hcount := h.count
      exact {
        places := by
          refine ⟨place', hplace', fun u hu => ?_⟩
          by_cases hut : u = t
          · exact Or.inl (by simp [hut])
          · rw [hspawned, Function.update_of_ne hut] at hu
            exact (hholds u hu).imp (List.mem_cons_of_mem t) (hout u)
        calls := hcalls
        removal := hremoval
        nodup := List.nodup_cons.mpr ⟨fun ht => by simp [h.spawned t ht] at hnew, h.nodup⟩
        spawned := fun u hu => by
          rw [hspawned]
          by_cases hut : u = t
          · rw [hut, Function.update_self]
          · rw [Function.update_of_ne hut]
            exact h.spawned u ((List.mem_cons.mp hu).resolve_left hut)
        removed := fun u hu => List.mem_cons_of_mem t (hremoved u hu)
        waits := fun m u hu => List.mem_cons_of_mem t (hwaits m u hu)
        count := by
          show q.existTaskNum = q.spare - 1 + (t :: q.holders).length
          rw [List.length_cons]
          omega
        limit := h.limit
        attempts := h.attempts
        failed := h.failed }

/-- `TaskQuota::new` counts a quota when it makes one, and it fails at the limit. -/
theorem QuotaInv.attempt_step (h : QuotaInv idle max q) {n : Nat} {spurious : Bool} {at' : Attempt}
    (hat : q.attempts[n]? = some at') : QuotaInv idle max (q.attempt max n spurious at') := by
  have hmem : at' ∈ q.attempts := List.mem_of_getElem? hat
  have hset : ∀ {v : Attempt}, (∀ e, v = .exchange e → e < max) → ∀ e, .exchange e ∈ q.attempts.set n v → e < max := by
    intro v hv e he
    rcases List.mem_or_eq_of_mem_set he with he | he
    · exact h.attempts e he
    · exact hv e he.symm
  have herase : ∀ e, .exchange e ∈ q.attempts.eraseIdx n → e < max :=
    fun e he => h.attempts e (List.mem_of_mem_eraseIdx he)
  cases at' with
  | load =>
    by_cases hbelow : q.existTaskNum < max
    · simp only [Quotas.attempt, if_pos hbelow]
      refine ⟨h.places, h.calls, h.removal, h.nodup, h.spawned, h.removed, h.waits, h.count, h.limit, ?_, h.failed⟩
      exact hset fun e he => by cases he; exact hbelow
    · simp only [Quotas.attempt, if_neg hbelow]
      refine ⟨h.places, h.calls, h.removal, h.nodup, h.spawned, h.removed, h.waits, h.count, h.limit, herase, ?_⟩
      intro e he
      rcases List.mem_append.mp he with he | he
      · exact h.failed e he
      · exact (List.mem_singleton.mp he).trans (le_antisymm h.limit (not_lt.mp hbelow))
  | exchange e =>
    by_cases hequal : q.existTaskNum = e ∧ spurious = false
    · simp only [Quotas.attempt, if_pos hequal]
      have hcount := h.count
      have hlimit := h.attempts e hmem
      refine ⟨h.places, h.calls, h.removal, h.nodup, h.spawned, h.removed, h.waits, ?_, hlimit, herase, h.failed⟩
      show e + 1 = q.spare + 1 + q.holders.length
      omega
    · simp only [Quotas.attempt, if_neg hequal]
      refine ⟨h.places, h.calls, h.removal, h.nodup, h.spawned, h.removed, h.waits, h.count, h.limit, ?_, h.failed⟩
      exact hset fun e he => by cases he

theorem QuotaInv.step (h : QuotaInv idle max q) {a : QuotaAction τ W B} (hok : a.Unreferenced q)
    (hleft : a.NoneLeft q) (hstep : q.step C max a = some q') : QuotaInv idle max q' := by
  have hcount := h.count
  have hlimit := h.limit
  cases a with
  | kernel a => exact h.kernel_step hleft hstep
  | request =>
    obtain rfl := Option.some.inj hstep
    refine ⟨h.places, h.calls, h.removal, h.nodup, h.spawned, h.removed, h.waits, h.count, h.limit, ?_, h.failed⟩
    intro e he
    exact h.attempts e (by simpa using he)
  | attempt n spurious =>
    obtain ⟨at', hat, rfl⟩ := Option.map_eq_some_iff.mp hstep
    exact h.attempt_step hat
  | dropQuota =>
    simp only [Quotas.step] at hstep
    split at hstep
    · cases hstep
    · rename_i hspare
      obtain rfl := Option.some.inj hstep
      have hexist : q.existTaskNum ≠ 0 := by omega
      refine ⟨h.places, h.calls, h.removal, h.nodup, h.spawned, h.removed, h.waits, ?_, ?_, h.attempts, h.failed⟩
      · simp only [Quotas.release, if_neg hexist]
        omega
      · simp only [Quotas.release, if_neg hexist]
        omega
  | dropTask t =>
    simp only [Quotas.step] at hstep
    split at hstep
    · rename_i hmem
      obtain rfl := Option.some.inj hstep
      have hpos := List.length_pos_of_mem hmem
      have hexist : q.existTaskNum ≠ 0 := by omega
      have herase := List.length_erase_of_mem hmem
      have hkeep : ∀ u, u ≠ t → u ∈ q.holders → u ∈ q.holders.erase t :=
        fun u hne hu => (List.mem_erase_of_ne hne).mpr hu
      obtain ⟨place, hplace, hholds⟩ := h.places
      refine ⟨⟨place, hplace, fun u hu => ?_⟩, h.calls, h.removal, h.nodup.erase t,
        fun u hu => h.spawned u (List.mem_of_mem_erase hu), fun u hu => ?_, fun m u hu => ?_, ?_, ?_, h.attempts,
        h.failed⟩
      · by_cases hut : u = t
        · subst hut
          exact Or.inr (hplace.out_of_not_refers hu hok)
        · exact (hholds u hu).imp_left (hkeep u hut)
      · refine hkeep u ?_ (h.removed u hu)
        rintro rfl
        exact hok (by simp only [Refers]; tauto)
      · refine hkeep u ?_ (h.waits m u hu)
        rintro rfl
        exact hok (Or.inr (Or.inr (Or.inr (Or.inl ⟨m, Or.inl hu⟩))))
      · simp only [Quotas.release, if_neg hexist]
        omega
      · simp only [Quotas.release, if_neg hexist]
        omega
    · cases hstep

/-- The buffers have room for every step of the kernel. -/
theorem QuotaInv.fits (h : QuotaInv idle max q) (hstep : q.step C max (.kernel a) = some q')
    (hb : b ∈ takes q.kernel a) : b.Fits max q.kernel.content := by
  obtain ⟨s', hkernel, hmakes⟩ := Quotas.step_kernel hstep
  obtain ⟨x, k, c', cs, hk, hexec, rfl⟩ := step_of_takes hkernel hb
  obtain ⟨place, hplace, hholds⟩ := h.places
  have hcount := h.count
  have hlimit := h.limit
  have hbuffered : ∀ t ∈ q.kernel.content.insertBuffer, place t = .buffer :=
    fun t ht => (hplace.placed.seen t).eq_buffer ht
  have hlive : ∀ t ∈ q.kernel.content.insertBuffer, t ∈ q.holders := by
    intro t ht
    refine hplace.holds hholds ?_ ?_ <;> simp [hbuffered t ht, Place.out]
  have hnodup : q.kernel.content.insertBuffer.Nodup := by
    refine List.nodup_iff_count_le_one.mpr fun t => ?_
    rw [(hplace.placed.seen t).buffer, Place.count]
    split <;> omega
  cases b with
  | enqueue t =>
    have hhand : place t = .hand := by
      refine (hplace.placed.seen t).eq_hand ?_
      rw [hands_body hk |>.1]
      simp [Body.carried]
    have hnot : t ∉ q.kernel.content.insertBuffer := fun ht => by simp [hbuffered t ht] at hhand
    have hexists : t ∈ q.holders := by
      refine hplace.holds hholds ?_ ?_ <;> simp [hhand, Place.out]
    have hlength := (List.subperm_of_subset (List.nodup_cons.mpr ⟨hnot, hnodup⟩)
      (List.cons_subset.mpr ⟨hexists, hlive⟩)).length_le
    rw [List.length_cons] at hlength
    show q.kernel.content.insertBuffer.length < max
    omega
  | enqueueNew t =>
    obtain ⟨hnone, -⟩ | ⟨t', hsome', hspare, -⟩ := hmakes
    · rw [Option.mem_def.mp hb] at hnone
      cases hnone
    · have hlength := (List.subperm_of_subset hnodup hlive).length_le
      show q.kernel.content.insertBuffer.length < max
      omega
  | enqueueDelete t =>
    obtain ⟨hremovals, -⟩ : _ ∧ removals { q.kernel with content := c', stack := push cs k } = _ :=
      removals_body hk
    have hlength := (List.subperm_of_subset h.removal.nodup h.removed).length_le
    simp only [hremovals, Body.removal, Option.toList_some, List.length_append, List.length_singleton] at hlength
    show q.kernel.content.deleteBuffer.length < max
    omega
  | _ => trivial

theorem QuotaInv.sound (h : QuotaInv idle max q) : QuotasSound C max q where
  count := h.count
  limit := h.limit
  failed := h.failed
  fits _ _ hstep _ hb := h.fits hstep hb

section Runs

variable {main : τ} {priority : τ → Nat} {clock : Nat}

theorem boot_quotaInv (hne : idle ≠ main) (hmax : 2 ≤ max) :
    QuotaInv idle max (Quotas.boot idle main priority clock : Quotas τ W B) where
  places := ⟨_, boot_placeInv hne, fun t ht => Or.inl (by simpa [Quotas.boot, boot, init, start] using ht)⟩
  calls := boot_callInv
  removal := boot_removalInv
  nodup := by simp [Quotas.boot, hne]
  spawned t ht := by simpa [Quotas.boot, boot, init, start] using ht
  removed t ht := by
    rw [Quotas.boot, boot_removals] at ht
    cases ht
  waits m t ht := by simp [Quotas.boot, boot, init, start] at ht
  count := rfl
  limit := hmax
  attempts e he := by cases he
  failed e he := by cases he

/-- The quotas are counted, and the lock-free buffers always have room, as long as no task blocks with a timeout
while the delete buffer still has a removal of it. -/
theorem exec_quotasSound {actions : List (QuotaAction τ W B)} (hne : idle ≠ main) (hmax : 2 ≤ max)
    (hok : Run.Allowed (Quotas.step C max) (fun q a => a.Unreferenced q ∧ a.NoneLeft q)
      (Quotas.boot idle main priority clock) actions)
    (hrun : Run.exec (Quotas.step C max) (Quotas.boot idle main priority clock) actions = some q) :
    QuotasSound C max q :=
  (Run.exec_inv_of_allowed (QuotaInv idle max) (fun h hok hstep => h.step hok.1 hok.2 hstep)
    (boot_quotaInv hne hmax) hok hrun).sound

section Example

/-- A step of the innermost context. -/
def quotaRun (call : Call Nat Unit Nat) :
    Action (List (HandlerCall Nat Unit Nat)) (Choice Nat Unit Nat) :=
  .run ⟨call, false⟩

def quotaRuns (n : Nat) : List (Action (List (HandlerCall Nat Unit Nat)) (Choice Nat Unit Nat)) :=
  List.replicate n (quotaRun .yieldCurrent)

/-- Each task waits on a mailbox of its own for a tick. -/
def threeWaits : List (Action (List (HandlerCall Nat Unit Nat)) (Choice Nat Unit Nat)) :=
  quotaRuns 1 ++ [.pendsv] ++ quotaRuns 13 ++ [quotaRun (.spawn 2)] ++ quotaRuns 11 ++ [quotaRun (.spawn 3)] ++
    quotaRuns 11 ++ [quotaRun (.mailWaitUntilTimeout 0 1)] ++ quotaRuns 22 ++ [.pendsv] ++
    quotaRuns 13 ++ [quotaRun (.mailWaitUntilTimeout 1 1)] ++ quotaRuns 22 ++ [.pendsv] ++
    quotaRuns 13 ++ [quotaRun (.mailWaitUntilTimeout 2 1)] ++ quotaRuns 22 ++ [.pendsv] ++ quotaRuns 13

/-- SysTick wakes the tasks, and before it releases the sleep queue the mailboxes are notified. -/
def lateNotifies : List (Action (List (HandlerCall Nat Unit Nat)) (Choice Nat Unit Nat)) :=
  [.preempt [.sysTick]] ++ quotaRuns 39 ++ [.preempt [.mailNotify 0, .mailNotify 1, .mailNotify 2]] ++ quotaRuns 49

/-- The tasks wait again, and the mailboxes are notified while SysTick holds the sleep queue. -/
def secondWaits : List (Action (List (HandlerCall Nat Unit Nat)) (Choice Nat Unit Nat)) :=
  quotaRuns 8 ++ [.pendsv] ++ quotaRuns 22 ++ [quotaRun (.mailWaitUntilTimeout 0 5)] ++ quotaRuns 22 ++ [.pendsv] ++
    quotaRuns 22 ++ [quotaRun (.mailWaitUntilTimeout 1 5)] ++ quotaRuns 22 ++ [.pendsv] ++
    quotaRuns 22 ++ [quotaRun (.mailWaitUntilTimeout 2 5)] ++ quotaRuns 22 ++ [.pendsv] ++ quotaRuns 13 ++
    [.preempt [.sysTick]] ++ quotaRuns 3 ++ [.preempt [.mailNotify 0, .mailNotify 1, .mailNotify 2]] ++ quotaRuns 21

/-- A quota is made for each of the tasks that are spawned. The second call finds that the first one has changed
`EXIST_TASK_NUM`, and then its compare-exchange fails for no reason. -/
def withQuotas (actions : List (Action (List (HandlerCall Nat Unit Nat)) (Choice Nat Unit Nat))) :
    List (QuotaAction Nat Unit Nat) :=
  [.request, .request, .attempt 0 false, .attempt 1 false, .attempt 0 false, .attempt 0 false, .attempt 0 false,
    .attempt 0 true, .attempt 0 false, .attempt 0 false] ++ actions.map .kernel

theorem withQuotas_unreferenced
    {actions : List (Action (List (HandlerCall Nat Unit Nat)) (Choice Nat Unit Nat))}
    {q : Quotas Nat Unit Nat} :
    Run.Allowed (Quotas.step C max) (fun q a => a.Unreferenced q) q (withQuotas actions) := by
  refine Run.Allowed.of_forall fun a ha q => ?_
  cases a with
  | dropTask t => simp [withQuotas] at ha
  | _ => trivial

/-- Three removals are left in the delete buffer, of tasks that are ready. -/
theorem exec_quotasSound_lateNotifies : ∃ q, Run.exec (Quotas.step ⟨true, 16⟩ 4)
      (Quotas.boot 0 1 (fun t => if t = 0 then 15 else 5) 0) (withQuotas (threeWaits ++ lateNotifies)) = some q ∧
    q.existTaskNum = 4 ∧ q.kernel.content.deleteBuffer = [1, 2, 3] ∧ QuotasSound ⟨true, 16⟩ 4 q := by
  have hrun : (Run.exec (Quotas.step ⟨true, 16⟩ 4) (Quotas.boot 0 1 (fun t => if t = 0 then 15 else 5) 0)
      (withQuotas (threeWaits ++ lateNotifies))).map (fun q => (q.existTaskNum, q.kernel.content.deleteBuffer)) =
      some (4, [1, 2, 3]) := by decide +kernel
  obtain ⟨q, hrun, hq⟩ := Option.map_eq_some_iff.mp hrun
  obtain ⟨hexist, hbuffer⟩ := Prod.mk.inj hq
  exact ⟨q, hrun, hexist, hbuffer,
    exec_quotasSound (by decide) (by decide) (withQuotas_unreferenced.and (by decide +kernel)) hrun⟩

/-- There are four quotas, and the fifth removal does not fit into the delete buffer. -/
theorem exec_deleteBufferFull : ∃ q, Run.exec (Quotas.step ⟨true, 16⟩ 4)
      (Quotas.boot 0 1 (fun t => if t = 0 then 15 else 5) 0)
      (withQuotas (threeWaits ++ lateNotifies ++ secondWaits)) = some q ∧
    Run.Allowed (Quotas.step ⟨true, 16⟩ 4) (fun q a => a.Unreferenced q)
      (Quotas.boot 0 1 (fun t => if t = 0 then 15 else 5) 0)
      (withQuotas (threeWaits ++ lateNotifies ++ secondWaits)) ∧
    takes q.kernel (quotaRun .yieldCurrent) = some (.enqueueDelete 2) ∧
    q.kernel.content.deleteBuffer = [1, 2, 3, 1] ∧ ¬ QuotasSound ⟨true, 16⟩ 4 q := by
  have hrun : (Run.exec (Quotas.step ⟨true, 16⟩ 4) (Quotas.boot 0 1 (fun t => if t = 0 then 15 else 5) 0)
      (withQuotas (threeWaits ++ lateNotifies ++ secondWaits))).map (fun q =>
        (takes q.kernel (quotaRun .yieldCurrent), q.kernel.content.deleteBuffer,
          (Quotas.step ⟨true, 16⟩ 4 q (.kernel (quotaRun .yieldCurrent))).isSome)) =
      some (some (.enqueueDelete 2), [1, 2, 3, 1], true) := by decide +kernel
  obtain ⟨q, hrun, hq⟩ := Option.map_eq_some_iff.mp hrun
  simp only [Prod.mk.injEq] at hq
  obtain ⟨htakes, hbuffer, hsome⟩ := hq
  obtain ⟨q', hstep⟩ := Option.isSome_iff_exists.mp hsome
  refine ⟨q, hrun, withQuotas_unreferenced, htakes, hbuffer, fun hsound => ?_⟩
  have hfits : q.kernel.content.deleteBuffer.length < 4 := hsound.fits _ q' hstep _ htakes
  rw [hbuffer] at hfits
  exact absurd hfits (by decide)

end Example

end Runs

end Hopter.Kernel
