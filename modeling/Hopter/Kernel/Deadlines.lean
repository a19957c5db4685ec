-- SUMMARY: Waits with a timeout: a mailbox returns the right result, and not before the deadline unless it was notified.
import Hopter.Kernel.Notifications
import Hopter.Kernel.SleepQueue

/-!
# Deadlines of mailboxes

A task that waits with a timeout is in the mailbox and in the sleep queue. It leaves the sleep
queue when its deadline has been reached, or when a notification takes it out, and then it is
in the mailbox no longer. The times that are compared are less than `2^31` apart, and so the
wrapping ticks compare as the times do.
-/

namespace Hopter.Kernel

open Exec Hopter.Task Hopter.Time

variable {τ W B : Type} [DecidableEq τ] [DecidableEq W] [DecidableEq B]
  {C : Config} {c c' : Content τ W B} {b : Body τ W B} {cs : List (KCode τ W B)} {m : B} {t : τ}
  {s s' : State (Lock W B) (Op τ) (Body τ W B) (Content τ W B) τ}
  {k : List (Instr (Lock W B) (Op τ) (Body τ W B))} {i : Instr (Lock W B) (Op τ) (Body τ W B)}
  {a : Action (List (HandlerCall τ W B)) (Choice τ W B)} {waiter : B → τ}

-- ---------------------------------------------------------------------------
-- Times that are compared
-- ---------------------------------------------------------------------------

/-- The time that the step is to wait for is less than `2^31` ticks ahead, and so are those that
`wake_expired_tasks` compares with `now`. -/
def Body.Soon (c : Content τ W B) : Body τ W B → Prop
  | .sleepCheck due | .addCurTask due | .pushSorted _ due => due < c.clock + 2 ^ 31
  | .deadline _ _ ms => ms.toNat < 2 ^ 31
  | .wakeLoop now _ => now ≤ c.clock ∧ ∀ u ∈ c.timeSortedQueue, c.due u < now + 2 ^ 31
  | _ => True

def Op.Soon (c : Content τ W B) : Op τ → Prop
  | .addTask _ due => due < c.clock + 2 ^ 31
  | _ => True

def Soon (c : Content τ W B) : Instr (Lock W B) (Op τ) (Body τ W B) → Prop
  | .code (.body b) | .code (.suspended b) => b.Soon c
  | .code (.access _ _ op) | .guard _ _ op => op.Soon c
  | _ => True

/-- No time is compared. -/
def timeless : KCode τ W B → Bool
  | .body b | .suspended b =>
    match b with
    | .sleepCheck _ | .addCurTask _ | .pushSorted _ _ | .deadline _ _ _ | .wakeLoop _ _ => false
    | _ => true
  | .access _ _ (.addTask _ _) => false
  | _ => true

omit [DecidableEq τ] [DecidableEq W] [DecidableEq B] in
theorem forall_soon {ds : List (KCode τ W B)} (h : ds.all timeless = true) : ∀ d ∈ ds, Soon c (.code d) := by
  intro d hd
  have hnot := List.all_eq_true.mp h d hd
  cases d with
  | body b | suspended b => cases b <;> first | exact trivial | cases hnot
  | access l must op => cases op <;> first | exact trivial | cases hnot
  | mayBlock => trivial
  | yield => trivial

theorem hereditary_soon : Hereditary (spec (τ := τ) (W := W) (B := B) C) (Soon c) where
  control i hi := by
    cases i with
    | code d =>
      cases d with
      | mayBlock | yield => trivial
      | _ => simp [Instr.isControl] at hi
    | guard l must op => simp [Instr.isControl] at hi
    | _ => trivial
  guard l must op h := h
  suspended b h := h
  full l must op h := by
    change ∀ d ∈ fullAccess l op, _
    unfold fullAccess
    split <;> first | exact forall_soon rfl | exact List.forall_mem_singleton.mpr h
  pend l must op h := by
    change ∀ d ∈ pendOnlyAccess l op, _
    unfold pendOnlyAccess
    split <;> exact forall_soon rfl
  pended l := by cases l <;> exact forall_soon rfl
  handler := forall_handlerCode fun call => by cases call <;> exact forall_soon rfl
  pickNext := forall_soon rfl

/-- The sleeping tasks are due in less than `2^31` ticks. -/
def Content.Soon (c : Content τ W B) : Prop := ∀ u ∈ c.timeSortedQueue, c.due u < c.clock + 2 ^ 31

theorem Outcome.soon (h : Outcome C c b c' cs) (hqueue : c.Soon) (hb : b.Soon c) (hok : b.OneWaiter waiter c) :
    ∀ d ∈ cs, Soon c' (.code d) := by
  cases h with
  | loadTicks => exact List.forall_mem_singleton.mpr ⟨Nat.le_refl _, hqueue⟩
  | wake heq _ =>
    refine List.forall_mem_cons.mpr ⟨trivial, List.forall_mem_singleton.mpr ⟨hb.1, fun u hu => hb.2 u ?_⟩⟩
    rw [heq]
    exact List.mem_cons_of_mem _ hu
  | blockTimeout => exact List.forall_mem_singleton.mpr (Nat.lt_of_le_pred (by decide) hok.2)
  | deadline => exact List.forall_mem_cons.mpr ⟨Nat.add_lt_add_left hb _, forall_soon rfl⟩
  | sleepMs hms =>
    exact List.forall_mem_singleton.mpr (Nat.add_lt_add_left (Nat.lt_of_le_pred (by decide) hms) _)
  | sleep _ => exact List.forall_mem_cons.mpr ⟨trivial, List.forall_mem_cons.mpr ⟨hb, forall_soon rfl⟩⟩
  | addCurTask => exact List.forall_mem_singleton.mpr hb
  | app call => cases call <;> exact forall_soon rfl
  | @subCount m p => cases p <;> exact forall_soon rfl
  | _ => exact forall_soon rfl

theorem Outcome.content_soon (h : Outcome C c b c' cs) (hqueue : c.Soon) (hb : b.Soon c) : c'.Soon := by
  intro u hu
  by_cases hpush : ∃ t due, b = .pushSorted t due
  · obtain ⟨t, due, rfl⟩ := hpush
    cases h with
    | pushSorted _ _ =>
      by_cases hut : u = t
      · simp only [hut, Function.update_self]
        exact hb
      · simp only [Function.update_of_ne hut]
        have hmem := (pushBackTickSorted_perm _ _ _).mem_iff.mp hu
        exact hqueue u ((List.mem_cons.mp hmem).resolve_left hut)
  · obtain ⟨hsub, hdue⟩ := h.sleeping fun t due heq => hpush ⟨t, due, heq⟩
    rw [hdue]
    exact Nat.lt_of_lt_of_le (hqueue u (hsub.subset hu)) (Nat.add_le_add_right h.clock_le _)

/-- Only `wake_expired_tasks` depends on the sleep queue. -/
theorem Outcome.keeps_soon (h : Outcome C c b c' cs) (hi : Soon c i)
    (hpush : ∀ t due, b = .pushSorted t due → ∀ now p, i ≠ .code (.body (.wakeLoop now p)))
    (hproper : Kernel.proper i = true) : Soon c' i := by
  have hlt : ∀ {n}, n < c.clock + 2 ^ 31 → n < c'.clock + 2 ^ 31 :=
    fun hn => Nat.lt_of_lt_of_le hn (Nat.add_le_add_right h.clock_le _)
  cases i with
  | code d =>
    cases d with
    | body b' =>
      cases b' with
      | sleepCheck | addCurTask | pushSorted => exact hlt hi
      | wakeLoop now p =>
        obtain ⟨hsub, hdue⟩ := h.sleeping fun t due heq => hpush t due heq now p rfl
        refine ⟨Nat.le_trans hi.1 h.clock_le, fun u hu => ?_⟩
        rw [hdue]
        exact hi.2 u (hsub.subset hu)
      | _ => exact hi
    | suspended b' =>
      cases b' with
      | addCurTask => exact hlt hi
      | changeIntrinsicPriority | dropCurrentTask => trivial
      | _ => cases hproper
    | access l must op =>
      cases op with
      | addTask => exact hlt hi
      | _ => trivial
    | _ => trivial
  | guard l must op =>
    cases op with
    | addTask => exact hlt hi
    | _ => trivial
  | _ => trivial

/-- The times that are compared in a run are less than `2^31` apart. -/
structure SoonInv (s : State (Lock W B) (Op τ) (Body τ W B) (Content τ W B) τ) : Prop where
  code : Everywhere (Soon s.content) s
  queue : s.content.Soon

theorem SoonInv.step (hinv : LockInv s) (h : SoonInv s) (hok : ∀ b ∈ takes s a, b.OneWaiter waiter s.content)
    (hstep : step (spec C) s a = some s') : SoonInv s' := by
  rcases step_takes hstep with ⟨x, b, k, c', cs, htakes, hk, hexec, rfl⟩ | hcontrol
  · have hout := exec_outcome hexec
    have hb : b.Soon s.content := h.code.1 (.code (.body b)) (by simp [hk])
    refine ⟨h.code.body hk (fun _ => hout.soon h.queue hb (hok b htakes)) fun i hi hsoon => ?_,
      hout.content_soon h.queue hb⟩
    have hproper : proper i = true := by
      rcases hi with hi | ⟨t, hi⟩
      · exact hinv.proper.1 i (by rw [hk]; exact List.mem_cons_of_mem _ hi)
      · exact hinv.proper.2 t i hi
    refine hout.keeps_soon hsoon ?_ hproper
    -- No other access to the sleep queue is in progress.
    rintro t due rfl now p rfl
    exact hinv.sound.exclusive hk rfl hi rfl
  · refine ⟨?_, ?_⟩ <;> rw [hcontrol.content_eq]
    · exact h.code.control hereditary_soon hcontrol
    · exact h.queue

-- ---------------------------------------------------------------------------
-- The waiter in the sleep queue
-- ---------------------------------------------------------------------------

omit [DecidableEq τ] [DecidableEq W] [DecidableEq B] in
/-- A task that is woken at `now` is due, when its time is less than `2^31` ticks ahead. -/
theorem Content.due_of_expired {now : Nat} (hexp : c.expired now t = true) (hdue : c.due t < now + 2 ^ 31) :
    c.due t ≤ now := by
  by_contra hlt
  have hnear : c.due t < now + 2 ^ 31 ∧ now < c.due t + 2 ^ 31 := by omega
  rw [Content.expired, tickCmp_of hnear.1 (by omega)] at hexp
  simp only [bne_iff_ne, ne_eq, Nat.compare_ne_gt] at hexp
  exact hlt hexp

/-- The task is to be put into the sleep queue, or it is there, or its time has come. -/
def UntilDue (c : Content τ W B) (adding : List τ) (t : τ) : Prop :=
  t ∈ adding ∨ t ∈ c.timeSortedQueue ∨ c.due t ≤ c.clock

def codeAdds (cs : List (KCode τ W B)) : List τ := cs.filterMap fun d => adds (.code d)

theorem Outcome.untilDue (h : Outcome C c b c' cs) (hb : b.Soon c) (hnot : t ∉ c.deleteBuffer ++ b.removal.toList)
    (ht : UntilDue c b.adds.toList t) : UntilDue c' (codeAdds cs) t := by
  simp only [List.mem_append, not_or] at hnot
  have hlater : c.due t ≤ c.clock → c.due t ≤ c'.clock := fun hdue => Nat.le_trans hdue h.clock_le
  -- A step that takes the task `u` out of the sleep queue.
  have herase : ∀ {u : τ} {l : List τ}, t ≠ u → c.timeSortedQueue.Perm (u :: l) → t ∈ c.timeSortedQueue → t ∈ l :=
    fun hne hperm hmem => (List.mem_cons.mp (hperm.mem_iff.mp hmem)).resolve_left hne
  cases h with
  | @wake now p u rest hqueue hexp =>
    rcases ht with hadds | hmem | hdue
    · cases hadds
    · by_cases htu : t = u
      · subst htu
        refine Or.inr (Or.inr ?_)
        exact Nat.le_trans (Content.due_of_expired hexp (hb.2 t hmem)) hb.1
      · exact Or.inr (Or.inl (herase htu (hqueue ▸ .refl _) hmem))
    · exact Or.inr (Or.inr hdue)
  | @delete now p u rest hbuffer hmem' =>
    rcases ht with hadds | hmem | hdue
    · cases hadds
    · have htu : t ≠ u := by
        rintro rfl
        exact hnot.1 (by simp [hbuffer])
      exact Or.inr (Or.inl ((List.mem_erase_of_ne htu).mpr hmem))
    · exact Or.inr (Or.inr hdue)
  | @remove u _ hmem' =>
    rcases ht with hadds | hmem | hdue
    · cases hadds
    · have htu : t ≠ u := by
        rintro rfl
        exact hnot.2 (by simp [Body.removal])
      exact Or.inr (Or.inl ((List.mem_erase_of_ne htu).mpr hmem))
    · exact Or.inr (Or.inr hdue)
  | @pushSorted u due _ _ =>
    have hperm := pushBackTickSorted_perm (fun v => Tick.of (Function.update c.due u due v)) u c.timeSortedQueue
    by_cases htu : t = u
    · exact Or.inr (Or.inl (hperm.mem_iff.mpr (by simp [htu])))
    · rcases ht with hadds | hmem | hdue
      · exact absurd (by simpa [Body.adds] using hadds) htu
      · exact Or.inr (Or.inl (hperm.mem_iff.mpr (List.mem_cons_of_mem _ hmem)))
      · exact Or.inr (Or.inr (by simpa [Function.update_of_ne htu] using hdue))
  | deadline =>
    refine ht.imp_left fun hadds => ?_
    simpa [codeAdds, adds, Op.adds, Body.adds] using hadds
  | _ =>
    rcases ht with hadds | hmem | hdue
    · cases hadds
    · exact Or.inr (Or.inl (by simpa using hmem))
    · exact Or.inr (Or.inr (hlater (by simpa using hdue)))

theorem conveys_adds (hinv : LockInv s) : Conveys (spec (τ := τ) (W := W) (B := B) C) adds s := by
  refine conveys_of hinv (fun i hi => ?_) (fun _ _ _ => rfl) (fun _ _ => rfl) (fun l must op hproper => ?_)
    (fun l op hproper => ?_) (fun l => by cases l <;> rfl) (fun call => ?_) rfl
  · cases i with
    | code d => cases d <;> first | rfl | exact absurd hi (by simp [Instr.isControl])
    | guard l must op => simp [Instr.isControl] at hi
    | _ => rfl
  · cases l <;> cases op <;> first | rfl | (cases must <;> cases hproper)
  · cases l <;> cases op <;> first | rfl | cases hproper
  · cases call <;> simp [HandlerCall.code, adds, Op.adds, Body.adds]

/-- The tasks that are to be put into the sleep queue are on the stack, or nowhere. -/
theorem CodeInv.adds_eq {idle : τ} (h : CodeInv idle s) (hstep : Control (spec C) s s') :
    s'.stack.filterMap adds = s.stack.filterMap adds := by
  refine (conveys_adds h.locks).filterMap_eq (fun t => ?_) (fun hsus _ => ?_) hstep
  · exact List.filterMap_eq_nil_iff.mpr fun i hi =>
      adds_of_not_holds (h.locks.proper.2 t i hi) (h.kept.saved t i hi)
  · exact List.filterMap_eq_nil_iff.mpr fun i hi =>
      adds_of_not_holds (h.locks.proper.1 i hi) (Sound.not_sheltered h.locks.sound h.kept.sheltered hsus i hi)

/-- A task that waits with a timeout sleeps until it is due. -/
def DueInv (s : State (Lock W B) (Op τ) (Body τ W B) (Content τ W B) τ) : Prop :=
  ∀ m t, s.content.waitTask m = .withTimeout t → UntilDue s.content (s.stack.filterMap adds) t

theorem DueInv.body (hremoval : RemovalInv s) (hsoon : SoonInv s) (h : DueInv s)
    (hk : s.stack = .code (.body b) :: k) (hout : Outcome C s.content b c' cs) : DueInv { s with content := c', stack := push cs k } := by
  have hb : b.Soon s.content := hsoon.code.1 (.code (.body b)) (by simp [hk])
  -- A task that has been waiting.
  have hbefore : ∀ m t, s.content.waitTask m = .withTimeout t →
      UntilDue c' ((push cs k).filterMap adds) t := by
    intro m t hwait
    have hnot := hremoval.waits m t hwait
    have hdue := h m t hwait
    obtain ⟨hremovals, -⟩ : removals s = _ ∧ removals { s with content := c', stack := push cs k } = _ :=
      removals_body hk
    rw [hremovals, List.mem_append, not_or] at hnot
    rw [hk, filterMap_top] at hdue
    rw [filterMap_push]
    by_cases hadds : t ∈ k.filterMap adds
    · exact Or.inl (List.mem_append_right _ hadds)
    · refine (hout.untilDue hb hnot.1 (hdue.imp_left fun hmem => ?_)).imp_left (List.mem_append_left _)
      exact (List.mem_append.mp hmem).resolve_right hadds
  intro m t hwait
  cases hout.removes with
  | keeps hkeeps _ => exact hbefore m t (hkeeps m t hwait).1
  | @takes m' u _ hwait' _ _ =>
    refine hbefore m t ?_
    by_cases hm : m = m'
    · simp [hwait', hm] at hwait
    · simpa [hwait', hm] using hwait
  | @blocks m' ms hb hcount hwait' _ =>
    by_cases hm : m = m'
    · obtain rfl : s.content.cur = t := by simpa [hwait', hm] using hwait
      subst hb
      cases hout with
      | blockTimeout => exact Or.inl (by simp [push, adds, Body.adds])
      | countTimeout _ _ hpos => simp [hcount] at hpos
    · exact hbefore m t (by simpa [hwait', hm] using hwait)

theorem DueInv.step {idle : τ} (hcode : CodeInv idle s) (hremoval : RemovalInv s) (hsoon : SoonInv s)
    (h : DueInv s) (hstep : step (spec C) s a = some s') : DueInv s' := by
  rcases step_cases hstep with ⟨x, b, k, c', cs, hk, hexec, rfl⟩ | hcontrol
  · exact h.body hremoval hsoon hk (exec_outcome hexec)
  · intro m t hwait
    rw [hcontrol.content_eq] at hwait ⊢
    rw [hcode.adds_eq hcontrol]
    exact h m t hwait

-- ---------------------------------------------------------------------------
-- Results
-- ---------------------------------------------------------------------------

omit [DecidableEq τ] [DecidableEq W] [DecidableEq B] in
theorem adds_carried (hproper : proper i = true) (h : adds i = some t) : carried i = some t := by
  cases i with
  | code d =>
    cases d with
    | body b => cases b <;> first | exact h | cases h
    | suspended b => cases b <;> first | (cases hproper; done) | cases h
    | access l must op => cases op <;> first | exact h | cases h
    | _ => cases h
  | guard l must op => cases op <;> first | exact h | cases h
  | _ => cases h

/-- The call has returned whether it got a notification, and without one it has waited until its deadline. -/
def Return.Right (r : Return B) : Prop := r.result = r.notified ∧ (r.result = false → r.deadline ≤ r.clock)

theorem Outcome.returns_cases (h : Outcome C c b c' cs) : c'.returns = c.returns ∨
    ∃ r, c'.returns = c.returns ++ [r] ∧ (r.Right ∨ ∃ m, b = .takeResult m ∧
      r = ⟨m, c.taskNotified m, c.handed m, c.due c.cur, c.clock⟩) := by
  cases h with
  | @countTimeout m ms _ _ _ =>
    exact Or.inr ⟨⟨m, true, true, c.clock + ms.toNat, c.clock⟩, by simp, Or.inl ⟨rfl, fun h => by cases h⟩⟩
  | @takeNotified m _ hnotified =>
    exact Or.inr ⟨⟨m, true, c.handed m, c.due c.cur, c.clock⟩, by simp, Or.inr ⟨m, rfl, by rw [hnotified]⟩⟩
  | @takeTimeout m _ hnotified =>
    exact Or.inr ⟨⟨m, false, c.handed m, c.due c.cur, c.clock⟩, by simp, Or.inr ⟨m, rfl, by rw [hnotified]⟩⟩
  | _ => exact Or.inl (by simp)

/-- What `wait_until_timeout` returns after it has blocked. -/
theorem MailInv.right {idle : τ} {place : τ → Place W B} (hplace : PlaceInv idle place s) (hcalls : CallInv s)
    (h : MailInv waiter s) (hdue : DueInv s) (hready : s.pendsv = true → taskLevel s.stack = false)
    (hk : s.stack = .code (.body (.takeResult m)) :: k) :
    (⟨m, s.content.taskNotified m, s.content.handed m, s.content.due s.content.cur, s.content.clock⟩ :
      Return B).Right := by
  have hhanding := h.handing (m := m) hplace hcalls hready hk trivial
  refine ⟨(hhanding.result rfl).symm, fun hnotified => ?_⟩
  have hhanded : s.content.handed m = false := (hhanding.result rfl).trans hnotified
  have hengaged : Engaged s s.content.cur m true :=
    hcalls.engaged_cur hplace.code hk (v := ⟨m, true, true⟩) rfl rfl
  have hcur := h.only m _ _ hengaged
  have hwait : s.content.waitTask m = .withTimeout s.content.cur := by
    cases h.slot m with
    | idle _ _ hnone _ => exact absurd (hcur ▸ hengaged) (hnone true)
    | waits hwait _ hengaged' _ _ =>
      obtain ⟨-, rfl⟩ := Engaged.unique hplace.code.locks hcalls (hcur ▸ hengaged') hengaged
      exact hwait.trans (by rw [hcur]; rfl)
    | handed _ hhanded' _ _ _ => exact absurd (hhanded.symm.trans hhanded') nofun
  -- The task is on the CPU.
  have hcpu := hcalls.on_cpu hplace hready hk (w := ⟨m, true, true⟩) rfl rfl
  have hseen := hplace.placed.seen s.content.cur
  rcases hdue m _ hwait with hadds | hmem | hle
  · obtain ⟨i, hi, hadds⟩ := List.mem_filterMap.mp hadds
    have hcarried := adds_carried (hplace.code.locks.proper.1 i hi) hadds
    have hhand := hseen.eq_hand (List.mem_filterMap.mpr ⟨i, hi, hcarried⟩)
    rw [hcpu] at hhand
    cases hhand
  · have hlist := hseen.eq_list (l := .sleep) hmem
    rw [hcpu] at hlist
    cases hlist
  · exact hle

-- ---------------------------------------------------------------------------
-- Runs
-- ---------------------------------------------------------------------------

/-- A closure of an access to the mailbox, or its `run_pended_op`, is in progress. -/
def InAccess (m : B) (s : State (Lock W B) (Op τ) (Body τ W B) (Content τ W B) τ) : Prop :=
  ∃ b access, .code (.body b) ∈ s.stack ∧ own b = some (.mailbox m, access)

/-- What holds of a mailbox on which the task `waiter m` waits. -/
structure MailboxSound (waiter : B → τ) (s : State (Lock W B) (Op τ) (Body τ W B) (Content τ W B) τ) (m : B) :
    Prop where
  /-- A notification is in one of the counters, or a wait has got it. -/
  conserved : ¬ InAccess m s → s.content.issued m =
    s.content.count m + s.content.pendingCount m + s.content.received m + (s.content.handed m).toNat
  /-- `run_pended_op` decrements a counter that is not zero. The other decrement is guarded. -/
  noUnderflow : ∀ timed k, s.stack = .code (.body (.subCount m timed)) :: k → 0 < s.content.count m
  /-- `wait_until_timeout` has returned whether it got a notification, and `false` not before its
  deadline. -/
  results : ∀ r ∈ s.content.returns, r.mailbox = m →
    (r.result = true ↔ r.notified = true) ∧ (r.result = false → r.deadline ≤ r.clock)
  /-- When the task is in no wait, `wait_task` is empty. -/
  cleared : (∀ w ∈ carries closing s (waiter m), w.mailbox ≠ m) → s.content.waitTask m = .noTask

/-- What holds in a run in which every mailbox has one waiter, and no wait with a timeout begins
while the delete buffer has a removal of its task. -/
structure DeadlineInv (idle : τ) (waiter : B → τ)
    (s : State (Lock W B) (Op τ) (Body τ W B) (Content τ W B) τ) : Prop where
  places : ∃ place, PlaceInv idle place s
  calls : CallInv s
  removal : RemovalInv s
  mail : MailInv waiter s
  soon : SoonInv s
  due : DueInv s
  returns : ∀ r ∈ s.content.returns, r.Right

theorem DeadlineInv.step {idle : τ} (h : DeadlineInv idle waiter s)
    (hok : ∀ b ∈ takes s a, b.OneWaiter waiter s.content ∧ b.NoneLeft s.content)
    (hstep : step (spec C) s a = some s') : DeadlineInv idle waiter s' := by
  obtain ⟨place, hplace⟩ := h.places
  obtain ⟨place', hplace', -⟩ := hplace.step hstep
  have hwaiter : ∀ b ∈ takes s a, b.OneWaiter waiter s.content := fun b hb => (hok b hb).1
  refine ⟨⟨place', hplace'⟩, h.calls.step hplace.code.locks hstep,
    h.removal.step hplace.code h.calls (fun b hb => (hok b hb).2) hstep, h.mail.step hplace h.calls hwaiter hstep,
    h.soon.step hplace.code.locks hwaiter hstep, h.due.step hplace.code h.removal h.soon hstep, ?_⟩
  rcases step_takes hstep with ⟨x, b, k, c', cs, htakes, hk, hexec, rfl⟩ | hcontrol
  · have hready := step_takes_pendsv hstep htakes
    rcases (exec_outcome hexec).returns_cases with hsame | ⟨r, hnew, hright⟩
    · rw [show (c'.returns : List (Return B)) = s.content.returns from hsame]
      exact h.returns
    · intro r' hr'
      rw [show (c'.returns : List (Return B)) = s.content.returns ++ [r] from hnew, List.mem_append,
        List.mem_singleton] at hr'
      rcases hr' with hr' | rfl
      · exact h.returns r' hr'
      · rcases hright with hright | ⟨m, rfl, rfl⟩
        · exact hright
        · exact h.mail.right hplace h.calls h.due hready hk
  · rw [hcontrol.content_eq]
    exact h.returns

omit [DecidableEq τ] in
/-- When no access to the mailbox is in progress, at most the flag of a pend-only access is to be set. -/
theorem chores_of_not_inAccess (h : ¬ InAccess m s) : ∀ d ∈ chores m s, d = .flag := by
  intro d hd
  obtain ⟨i, hi, hchore⟩ := List.mem_filterMap.mp hd
  cases i with
  | code d' =>
    cases d' with
    | body b =>
      have hmailbox : ∀ m', m' = m → (∃ access, own b = some (.mailbox m', access)) → False :=
        fun m' hm ⟨access, hown⟩ => h ⟨b, access, hi, hm ▸ hown⟩
      cases b <;> first
        | cases hchore
        | (simp only [chore, Body.chore, Option.ite_none_right_eq_some] at hchore
           exact absurd ⟨_, rfl⟩ (hmailbox _ hchore.1))
    | _ => cases hchore
  | setPending l =>
    simp only [chore, Option.ite_none_right_eq_some, Option.some.injEq] at hchore
    exact hchore.2.symm
  | _ => cases hchore

theorem DeadlineInv.sound {idle : τ} (h : DeadlineInv idle waiter s) (m : B) : MailboxSound waiter s m where
  conserved haccess := by
    have hflag := chores_of_not_inAccess haccess
    have hzero : ∀ f : Chore → Nat, f .flag = 0 → sumOf f (chores m s) = 0 := by
      intro f hf
      rw [sumOf, List.sum_eq_zero_iff]
      intro n hn
      obtain ⟨d, hd, rfl⟩ := List.mem_map.mp hn
      rw [hflag d hd, hf]
    have hsum := (h.mail.tallied m).sum
    rw [hzero _ rfl, hzero _ rfl] at hsum
    exact hsum
  noUnderflow timed k hk := by
    have hcovered := (h.mail.tallied m).covered (.sub timed) (by simp [chores, hk, chore, Body.chore])
    exact hcovered.2
  results r hr _ := by
    obtain ⟨hresult, hdeadline⟩ := h.returns r hr
    exact ⟨by rw [hresult], hdeadline⟩
  cleared hnone := by
    cases h.mail.slot m with
    | idle hwait _ _ _ | handed hwait _ _ _ _ => exact hwait
    | waits _ _ hengaged _ _ =>
      obtain ⟨yielded, hmem, -⟩ := hengaged
      exact absurd rfl (hnone _ hmem)

section Boot

variable {idle main : τ} {priority : τ → Nat} {clock : Nat}

omit [DecidableEq W] [DecidableEq B] in
theorem boot_not_engaged {timed : Bool} :
    ¬ Engaged (boot idle main priority clock : State (Lock W B) (Op τ) (Body τ W B) (Content τ W B) τ)
      t m timed := by
  rintro ⟨yielded, hmem, -⟩
  have hnone : Everywhere (fun i => (closing i).isSome = false)
      (boot idle main priority clock : State (Lock W B) (Op τ) (Body τ W B) (Content τ W B) τ) :=
    Everywhere.init (boot_code (f := fun i => (closing i).isSome) ⟨rfl, rfl, rfl⟩)
  have hnot : ∀ {l : List (Instr (Lock W B) (Op τ) (Body τ W B))} {w}, (∀ i ∈ l, (closing i).isSome = false) →
      w ∉ l.filterMap closing := by
    intro l w hl hw
    obtain ⟨i, hi, hclosing⟩ := List.mem_filterMap.mp hw
    have := hl i hi
    rw [hclosing] at this
    cases this
  rcases List.mem_append.mp hmem with hmem | hmem
  · exact hnot (hnone.2 t) hmem
  · split at hmem
    · exact hnot hnone.1 hmem
    · cases hmem

theorem boot_mailInv : MailInv waiter
    (boot idle main priority clock : State (Lock W B) (Op τ) (Body τ W B) (Content τ W B) τ) := by
  have hchores : ∀ m : B, chores m
      (boot idle main priority clock : State (Lock W B) (Op τ) (Body τ W B) (Content τ W B) τ) = [] := fun m => by
    simp [chores, boot, init, code, push, chore, Body.chore]
  refine ⟨fun m => ?_, fun m => ?_, fun m t timed hengaged => absurd hengaged boot_not_engaged⟩
  · rw [hchores]
    exact ⟨rfl, fun _ => Or.inl ⟨rfl, by simp⟩, by simp⟩
  · rw [hchores]
    exact .idle rfl rfl (fun _ => boot_not_engaged) (by simp [Notes])

theorem boot_deadlineInv (hne : idle ≠ main) : DeadlineInv idle waiter
    (boot idle main priority clock : State (Lock W B) (Op τ) (Body τ W B) (Content τ W B) τ) where
  places := ⟨_, boot_placeInv hne⟩
  calls := boot_callInv
  removal := boot_removalInv
  mail := boot_mailInv
  soon := by
    refine ⟨Everywhere.init fun t d hd => ?_, fun u hu => by cases hu⟩
    unfold code at hd
    split at hd <;> simp only [List.mem_cons, List.not_mem_nil, or_false] at hd
    · rcases hd with rfl | rfl <;> trivial
    · subst hd
      trivial
  due m t hwait := by cases hwait
  returns r hr := by cases hr

/-- In such a run no notification of a mailbox is lost or used twice, and a wait with a timeout ends
with the right result, and not too early. -/
theorem exec_mailboxSound {actions : List (Action (List (HandlerCall τ W B)) (Choice τ W B))} (hne : idle ≠ main)
    (hok : Run.Allowed (step (spec C))
      (fun s a => ∀ b ∈ takes s a, b.OneWaiter waiter s.content ∧ b.NoneLeft s.content)
      (boot idle main priority clock) actions)
    (hrun : Run.exec (step (spec C)) (boot idle main priority clock) actions = some s) :
    ∀ m, MailboxSound waiter s m :=
  (Run.exec_inv_of_allowed (DeadlineInv idle waiter) (fun h hok hstep => h.step hok hstep)
    (boot_deadlineInv hne) hok hrun).sound

/-- The main task waits for a tick. SysTick makes it ready, and before it releases the sleep queue the
mailbox is notified. -/
def lateNotify : List (Action (List (HandlerCall Bool Unit Unit)) (Choice Bool Unit Unit)) :=
  switchToMain ++ [call (.mailWaitUntilTimeout () 1)] ++ List.replicate 22 go ++ [.pendsv] ++
    List.replicate 13 go ++ [.preempt [.sysTick]] ++ List.replicate 17 go ++ [.preempt [.mailNotify ()]] ++ List.replicate 25 go ++
    [.pendsv] ++ List.replicate 22 go

/-- The wait has got the notification, and a removal of the task is left. -/
theorem exec_mailboxSound_lateNotify : ∃ s, Run.exec (step (spec ⟨true, 16⟩))
      (boot false true (fun t => if t then 5 else 15) 0) lateNotify = some s ∧
    s.content.returns = [⟨(), true, true, 1, 1⟩] ∧ s.content.deleteBuffer = [true] ∧
    MailboxSound (fun _ => true) s () := by
  have hrun : (Run.exec (step (spec ⟨true, 16⟩)) (boot false true (fun t => if t then 5 else 15) 0)
      lateNotify).map (fun s => (s.content.returns, s.content.deleteBuffer)) = some ([⟨(), true, true, 1, 1⟩], [true]) := by
    decide +kernel
  obtain ⟨s, hrun, hs⟩ := Option.map_eq_some_iff.mp hrun
  obtain ⟨hreturns, hbuffer⟩ := Prod.mk.inj hs
  have hsound : ∀ m, MailboxSound (fun _ => true) s m := exec_mailboxSound (by decide) (by decide +kernel) hrun
  exact ⟨s, hrun, hreturns, hbuffer, hsound ()⟩

/-- The main task waits again, for five ticks, and the next SysTick takes it out of the sleep queue. -/
def earlyReturn : List (Action (List (HandlerCall Bool Unit Unit)) (Choice Bool Unit Unit)) :=
  lateNotify ++ [call (.mailWaitUntilTimeout () 5)] ++ List.replicate 22 go ++ [.pendsv] ++
    List.replicate 13 go ++ [.preempt [.sysTick]] ++ List.replicate 24 go ++ [.pendsv] ++ List.replicate 16 go

/-- The second wait is not notified, and it is over four ticks before its deadline. -/
theorem exec_returnsEarly : ∃ s, Run.exec (step (spec ⟨true, 16⟩))
      (boot false true (fun t => if t then 5 else 15) 0) earlyReturn = some s ∧
    Run.Allowed (step (spec ⟨true, 16⟩)) (fun s a => ∀ b ∈ takes s a, b.OneWaiter (fun _ => true) s.content)
      (boot false true (fun t => if t then 5 else 15) 0) earlyReturn ∧
    s.content.returns = [⟨(), true, true, 1, 1⟩, ⟨(), false, false, 6, 2⟩] ∧
    ¬ MailboxSound (fun _ => true) s () := by
  have hrun : (Run.exec (step (spec ⟨true, 16⟩)) (boot false true (fun t => if t then 5 else 15) 0)
      earlyReturn).map (fun s => s.content.returns) =
        some [⟨(), true, true, 1, 1⟩, ⟨(), false, false, 6, 2⟩] := by decide +kernel
  obtain ⟨s, hrun, hreturns⟩ := Option.map_eq_some_iff.mp hrun
  refine ⟨s, hrun, by decide +kernel, hreturns, fun hsound => ?_⟩
  have hdeadline : 6 ≤ 2 := (hsound.results ⟨(), false, false, 6, 2⟩ (by simp [hreturns]) rfl).2 rfl
  exact absurd hdeadline (by decide)

end Boot

end Hopter.Kernel
