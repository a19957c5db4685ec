-- SUMMARY: No notification of a mailbox is lost or used twice, and its counters do not underflow, when one task waits on it.
import Hopter.Kernel.Mailboxes

/-!
# Notifications of a mailbox

Every notification is in `count` or in `pending_count`, or a wait has got it. The task that
waits is in the mailbox until it is handed a notification (`Slot`). The pending flag announces
notifications that have come while the mailbox was held, and so `run_pended_op` finds one for
the task that waits (`Tallied`). The tally is that of counters which do not wrap around: fewer
than `2^32` notifications are in each of them.
-/

namespace Hopter.Kernel

open Exec Hopter.Task

variable {τ W B : Type} [DecidableEq τ] [DecidableEq W] [DecidableEq B]
  {C : Config} {c c' : Content τ W B} {b : Body τ W B} {cs : List (KCode τ W B)} {m : B}
  {s s' : State (Lock W B) (Op τ) (Body τ W B) (Content τ W B) τ}
  {k : List (Instr (Lock W B) (Op τ) (Body τ W B))}
  {a : Action (List (HandlerCall τ W B)) (Choice τ W B)}

-- ---------------------------------------------------------------------------
-- The tally
-- ---------------------------------------------------------------------------

/-- Notifications have been announced, or `run_pended_op` is on its way to the waiter. -/
def Chore.announces : Chore → Bool
  | .flag | .swap | .add _ | .take => true
  | _ => false

/-- The notifications that have been taken out of `pending_count`, and go to `count`. -/
def Chore.added : Chore → Nat
  | .add n => n
  | _ => 0

/-- The notifications that have been handed over, and are still in `count`. -/
def Chore.owed : Chore → Nat
  | .sub _ => 1
  | _ => 0

/-- The notifications that the chore adds to the counters. -/
def Chore.brings : Chore → Nat
  | .pend => 1
  | .add n => n
  | _ => 0

def sumOf (f : Chore → Nat) (ds : List Chore) : Nat := (ds.map f).sum

@[simp] theorem sumOf_nil (f : Chore → Nat) : sumOf f [] = 0 := rfl

@[simp] theorem sumOf_cons (f : Chore → Nat) (d : Chore) (ds : List Chore) :
    sumOf f (d :: ds) = f d + sumOf f ds := by
  simp [sumOf]

/-- There is a notification for the task that `run_pended_op` takes out of the mailbox. -/
def Chore.Covered (μ : Mail τ) : Chore → Prop
  | .add n => μ.waitTask ≠ .noTask → 0 < μ.count + n
  | .take => μ.waitTask ≠ .noTask → 0 < μ.count
  | .sub _ => μ.waitTask = .noTask ∧ 0 < μ.count
  | _ => True

/-- No notification has been announced. -/
def Silent (flag : Bool) (ds : List Chore) : Prop := flag = false ∧ ∀ d ∈ ds, d.announces = false

/-- The notifications of a mailbox, with the pending flag and the chores of the mailbox. -/
structure Tallied (μ : Mail τ) (flag : Bool) (ds : List Chore) : Prop where
  sum : μ.issued + sumOf Chore.owed ds =
    μ.count + μ.pendingCount + μ.received + μ.handed.toNat + sumOf Chore.added ds
  /-- What is announced to a task that waits, or is about to, is there. -/
  announced : μ.waitTask ≠ .noTask ∨ .check ∈ ds →
    Silent flag ds ∨ 0 < μ.count + μ.pendingCount + sumOf Chore.brings ds
  covered : ∀ d ∈ ds, d.Covered μ

/-- What the steps rely on: the waiter has got a notification, or it has not. -/
structure Handing (c : Content τ W B) (m : B) (b : Body τ W B) : Prop where
  opening : ∀ timed, b.opening = some ⟨m, timed, false⟩ → c.handed m = false
  waits : c.waitTask m ≠ .noTask → c.handed m = false
  result : b = .takeResult m → c.handed m = c.taskNotified m
  resumed : b = .resumed m → c.handed m = true

omit [DecidableEq τ] in
theorem WaitTask.waiting_ne_noTask (timed : Bool) (t : τ) : WaitTask.waiting timed t ≠ .noTask := by
  cases timed <;> exact nofun

omit [DecidableEq τ] in
theorem WaitTask.waiting_inj {timed timed' : Bool} {t t' : τ}
    (h : (WaitTask.waiting timed t : WaitTask τ) = .waiting timed' t') : timed = timed' ∧ t = t' := by
  cases timed <;> cases timed' <;> simp_all [WaitTask.waiting]

theorem Silent.cons {flag : Bool} {d : Chore} {ds : List Chore} (h : Silent flag (d :: ds)) :
    d.announces = false ∧ Silent flag ds :=
  ⟨h.2 d (List.mem_cons_self ..), h.1, fun e he => h.2 e (List.mem_cons_of_mem d he)⟩

section Steps

variable {μ : Mail τ} {flag : Bool} {ds rest : List Chore}

omit [DecidableEq W] [DecidableEq τ] in
theorem Tallied.body (h : Tallied (c.mail m) flag ((b.chore m).toList ++ rest)) (hstep : MailStep c m b μ ds)
    (hrest : own b = some (.mailbox m, .full) → rest = []) (hhanding : Handing c m b) :
    Tallied μ flag (ds ++ rest) := by
  obtain ⟨hsum, hannounced, hcovered⟩ := h
  cases hstep with
  | other hchore hengages hover =>
    rw [hchore] at hsum hannounced hcovered
    exact ⟨hsum, hannounced, hcovered⟩
  | @receive b timed hb hwait hcount =>
    have hhanded := hhanding.opening timed hb
    have hchore : b.chore m = some .check ∧ own b = some (.mailbox m, .full) := by
      cases b <;> cases hb <;> simp [Body.chore, own]
    obtain rfl := hrest hchore.2
    simp [hchore.1, Content.mail, hhanded, Chore.owed, Chore.added] at hsum
    refine ⟨?_, ?_, by simp⟩
    · simp [Content.mail]
      omega
    · simp [Content.mail, hwait]
  | @block b timed hb hwait hcount =>
    have hchore : b.chore m = some .check ∧ own b = some (.mailbox m, .full) := by
      cases b <;> cases hb <;> simp [Body.chore, own]
    obtain rfl := hrest hchore.2
    simp [hchore.1, Content.mail, Chore.owed, Chore.added] at hsum
    refine ⟨?_, fun _ => ?_, by simp⟩
    · simpa [Content.mail] using hsum
    · rw [hchore.1] at hannounced
      refine (hannounced (Or.inr (by simp))).imp (fun hsilent => hsilent.cons.2) fun hpos => ?_
      simpa [Content.mail, Chore.brings] using hpos
  | takeNotified hnotified =>
    obtain rfl := hrest rfl
    have hhanded := (hhanding.result rfl).trans hnotified
    simp [Content.mail, hhanded, Body.chore] at hsum
    refine ⟨?_, ?_, by simp⟩
    · simp [Content.mail]
      omega
    · simp [Content.mail]
  | takeTimeout hnotified =>
    obtain rfl := hrest rfl
    simp [Content.mail, Body.chore] at hsum
    exact ⟨by simpa [Content.mail] using hsum, by simp [Content.mail], by simp⟩
  | @notify timed t hwait =>
    obtain rfl := hrest rfl
    have hhanded := hhanding.waits (hwait ▸ WaitTask.waiting_ne_noTask timed t)
    simp [Content.mail, hhanded, Body.chore] at hsum
    cases timed with
    | true =>
      refine ⟨?_, by simp [Content.mail], by simp [Chore.Covered]⟩
      simp [Content.mail, Chore.owed, Chore.added]
      omega
    | false =>
      refine ⟨?_, by simp [Content.mail], by simp⟩
      simp [Content.mail]
      omega
  | notifyCount hwait =>
    obtain rfl := hrest rfl
    simp [Content.mail, Body.chore] at hsum
    refine ⟨?_, by simp [Content.mail, hwait], by simp⟩
    simp [Content.mail]
    omega
  | setNotified =>
    obtain rfl := hrest rfl
    simp [Content.mail, Body.chore, Chore.owed, Chore.added] at hsum
    refine ⟨by simpa [Content.mail] using hsum, fun hwait => ?_, by simp⟩
    refine (hannounced (Or.inl (by simpa using hwait))).imp (fun hsilent => ?_) fun hpos => ?_
    · simp [Body.chore] at hsilent
      exact hsilent.cons.2
    · simpa [Content.mail, Body.chore, Chore.brings] using hpos
  | addPending =>
    simp [Content.mail, Body.chore, Chore.owed, Chore.added] at hsum
    refine ⟨?_, fun _ => Or.inr ?_, fun d hd => ?_⟩
    · simp [Content.mail]
      omega
    · simp
    · have := hcovered d (List.mem_append_right _ hd)
      cases d <;> exact this
  | swapPendingCount =>
    obtain rfl := hrest rfl
    simp [Content.mail, Body.chore, Chore.owed, Chore.added] at hsum
    -- The flag was set, and it announces what is taken over here.
    have hpos : c.waitTask m ≠ .noTask → 0 < c.count m + c.pendingCount m := fun hwait => by
      rcases hannounced (Or.inl hwait) with hsilent | hpos
      · simp [Body.chore, Silent, Chore.announces] at hsilent
      · simpa [Content.mail, Body.chore, Chore.brings] using hpos
    refine ⟨?_, fun hwait => Or.inr ?_, ?_⟩
    · simp [Content.mail, Chore.owed, Chore.added]
      omega
    · have := hpos (by simpa [Content.mail] using hwait)
      simpa [Content.mail, Chore.brings] using this
    · simpa [Chore.Covered, Content.mail] using hpos
  | @addCount n =>
    obtain rfl := hrest rfl
    simp [Content.mail, Body.chore, Chore.owed, Chore.added] at hsum
    have hpos : c.waitTask m ≠ .noTask → 0 < c.count m + n := hcovered (.add n) (by simp [Body.chore])
    refine ⟨?_, fun hwait => Or.inr ?_, ?_⟩
    · simp [Content.mail, Chore.owed, Chore.added]
      omega
    · have := hpos (by simpa [Content.mail] using hwait)
      simp only [Content.mail, sumOf_nil, List.append_nil, sumOf_cons]
      omega
    · simpa [Chore.Covered, Content.mail] using hpos
  | @pended timed t hwait =>
    obtain rfl := hrest rfl
    have hne := hwait ▸ WaitTask.waiting_ne_noTask timed t
    have hhanded := hhanding.waits hne
    have hpos : 0 < c.count m := hcovered .take (by simp [Body.chore]) hne
    simp [Content.mail, Body.chore, hhanded, Chore.owed, Chore.added] at hsum
    refine ⟨?_, by simp [Content.mail], by simpa [Chore.Covered, Content.mail] using hpos⟩
    simp [Content.mail, Chore.owed, Chore.added]
    omega
  | pendedNone hwait =>
    obtain rfl := hrest rfl
    simp [Content.mail, Body.chore, Chore.owed, Chore.added] at hsum
    exact ⟨by simpa [Content.mail] using hsum, by simp [Content.mail, hwait], by simp⟩
  | @subCount timed =>
    obtain rfl := hrest rfl
    obtain ⟨hwait, hpos⟩ : c.waitTask m = .noTask ∧ 0 < c.count m := hcovered (.sub timed) (by simp [Body.chore])
    simp [Content.mail, Body.chore, Chore.owed, Chore.added] at hsum
    refine ⟨?_, ?_, ?_⟩
    · cases timed <;> simp [Content.mail, Chore.owed, Chore.added, Nat.pos_iff_ne_zero.mp hpos] <;> omega
    · cases timed <;> simp [Content.mail, hwait]
    · cases timed <;> simp [Chore.Covered]
  | resumed =>
    have hhanded := hhanding.resumed rfl
    simp [Content.mail, Body.chore, hhanded] at hsum
    refine ⟨?_, hannounced, hcovered⟩
    simp [Content.mail]
    omega

omit [DecidableEq τ] in
theorem Tallied.control (h : Tallied μ (flagged m s) (chores m s)) (hstep : MailControl m s s') :
    Tallied μ (flagged m s') (chores m s') := by
  obtain ⟨hsum, hannounced, hcovered⟩ := h
  cases hstep with
  | same hchores hflag =>
    rw [hchores, hflag]
    exact ⟨hsum, hannounced, hcovered⟩
  | wait hchores hchores' hflag hflag' =>
    rw [hchores] at hsum
    rw [hchores', hflag']
    exact ⟨by simpa [Chore.owed, Chore.added] using hsum, fun _ => Or.inl ⟨rfl, by simp [Chore.announces]⟩,
      by simp [Chore.Covered]⟩
  | pend hchores hflag =>
    rw [hchores]
    refine ⟨by simpa [Chore.owed, Chore.added] using hsum, fun _ => Or.inr ?_, ?_⟩
    · simp only [sumOf_cons, Chore.brings]
      omega
    · simpa [Chore.Covered] using hcovered
  | flag hchores hflag =>
    rw [hchores] at hsum hannounced hcovered
    refine ⟨by simpa [Chore.owed, Chore.added] using hsum, fun hwait => Or.inr ?_,
      fun d hd => hcovered d (List.mem_cons_of_mem _ hd)⟩
    rcases hannounced (hwait.imp_right (List.mem_cons_of_mem _)) with hsilent | hpos
    · exact absurd hsilent.cons.1 (by simp [Chore.announces])
    · simpa [Chore.brings] using hpos
  | settle hchores hflag =>
    rw [hchores]
    refine ⟨by simpa [Chore.owed, Chore.added] using hsum, fun hwait => Or.inr ?_, ?_⟩
    · rcases hannounced (hwait.imp_right fun hmem => by simpa using hmem) with hsilent | hpos
      · rw [hflag] at hsilent
        exact absurd hsilent.1 (by simp)
      · simpa [Chore.brings] using hpos
    · simpa [Chore.Covered] using hcovered

end Steps

-- ---------------------------------------------------------------------------
-- The waiter
-- ---------------------------------------------------------------------------

/-- One task waits on each mailbox, and its timeouts are at most `i32::MAX`. -/
def Body.OneWaiter (waiter : B → τ) (c : Content τ W B) : Body τ W B → Prop
  | .checkCount m => c.cur = waiter m
  | .checkCountTimeout m ms => c.cur = waiter m ∧ ms.toNat ≤ 2 ^ 31 - 1
  | _ => True

instance {waiter : B → τ} : Decidable (b.OneWaiter waiter c) := by
  unfold Body.OneWaiter
  split <;> infer_instance

omit [DecidableEq τ] [DecidableEq W] [DecidableEq B] in
theorem Body.OneWaiter.cur {timed : Bool} {waiter : B → τ} (h : b.OneWaiter waiter c)
    (hb : b.opening = some ⟨m, timed, false⟩) : c.cur = waiter m := by
  cases b with
  | checkCount m' =>
    cases hb
    exact h
  | checkCountTimeout m' ms =>
    cases hb
    exact h.1
  | _ => cases hb

/-- `task_notified` is about to be set. -/
def Notes (ds : List Chore) : Prop := .note ∈ ds ∨ .sub true ∈ ds

/-- The waiter `t` of a mailbox: whether it is in the mailbox, or has been handed a notification.
`engaged` tells whether it is in a wait, with a timeout or without one. -/
inductive Slot (μ : Mail τ) (t : τ) (engaged : Bool → Prop) (ds : List Chore) : Prop where
  | idle (hwait : μ.waitTask = .noTask) (hhanded : μ.handed = false) (hnone : ∀ timed, ¬ engaged timed)
    (hnotes : ¬ Notes ds)
  | waits {timed} (hwait : μ.waitTask = .waiting timed t) (hhanded : μ.handed = false) (hengaged : engaged timed)
    (hnotified : timed = true → μ.taskNotified = false) (hnotes : ¬ Notes ds)
  | handed {timed} (hwait : μ.waitTask = .noTask) (hhanded : μ.handed = true) (hengaged : engaged timed)
    (hnotified : timed = true → μ.taskNotified = true ∨ Notes ds) (hnotes : Notes ds → timed = true)

section Slot

variable {μ μ' : Mail τ} {t : τ} {engaged engaged' : Bool → Prop} {ds ds' : List Chore}

omit [DecidableEq τ] in
/-- The step does not concern the waiter. -/
theorem Slot.congr (h : Slot μ t engaged ds) (hwait : μ'.waitTask = μ.waitTask) (hhanded : μ'.handed = μ.handed)
    (hnotified : μ'.taskNotified = μ.taskNotified) (hengaged : ∀ timed, engaged' timed ↔ engaged timed)
    (hnotes : Notes ds' ↔ Notes ds) : Slot μ' t engaged' ds' := by
  cases h with
  | idle h₁ h₂ h₃ h₄ =>
    exact .idle (hwait.trans h₁) (hhanded.trans h₂) (fun timed => (hengaged timed).not.mpr (h₃ timed))
      (hnotes.not.mpr h₄)
  | waits h₁ h₂ h₃ h₄ h₅ =>
    exact .waits (hwait.trans h₁) (hhanded.trans h₂) ((hengaged _).mpr h₃) (fun ht => hnotified.trans (h₄ ht))
      (hnotes.not.mpr h₅)
  | handed h₁ h₂ h₃ h₄ h₅ =>
    refine .handed (hwait.trans h₁) (hhanded.trans h₂) ((hengaged _).mpr h₃) (fun ht => ?_)
      fun hn => h₅ (hnotes.mp hn)
    rw [hnotified]
    exact (h₄ ht).imp_right hnotes.mpr

end Slot

-- ---------------------------------------------------------------------------
-- Runs
-- ---------------------------------------------------------------------------

/-- What holds of the mailboxes in a run in which each has one waiter. -/
structure MailInv (waiter : B → τ) (s : State (Lock W B) (Op τ) (Body τ W B) (Content τ W B) τ) : Prop where
  tallied : ∀ m, Tallied (s.content.mail m) (flagged m s) (chores m s)
  slot : ∀ m, Slot (s.content.mail m) (waiter m) (Engaged s (waiter m) m) (chores m s)
  only : ∀ m t timed, Engaged s t m timed → t = waiter m

variable {idle : τ} {place : τ → Place W B} {waiter : B → τ}

/-- A task that begins a wait is in no other. -/
theorem CallInv.not_engaged {idle : τ} (hcode : CodeInv idle s) (h : CallInv s)
    (hk : s.stack = .code (.body b) :: k) {v : Wait B} (hb : b.opening = some v) {m : B} {timed : Bool} : ¬ Engaged s s.content.cur m timed := by
  have hwait : waitCode (.code (.body b) : Instr (Lock W B) (Op τ) (Body τ W B)) = true := by
    cases b <;> first | rfl | cases hb
  have hclosing : b.closing = none := by
    cases b <;> first | rfl | cases hb
  obtain ⟨hcur, hhome, -⟩ := h.running hcode hk hwait
  rintro ⟨y, hy⟩
  have := ((h.inWait_cur hhome hk hwait hcur).mp hy).1
  rw [hclosing] at this
  cases this

/-- A task that ends a wait is in it. -/
theorem CallInv.engaged_cur (hcode : CodeInv idle s) (h : CallInv s) (hk : s.stack = .code (.body b) :: k)
    {v : Wait B} (hb : b.closing = some v) (hyielded : v.yielded = true) :
    Engaged s s.content.cur v.mailbox v.timed := by
  have hwait : waitCode (.code (.body b) : Instr (Lock W B) (Op τ) (Body τ W B)) = true := by
    simp [waitCode, closing, hb]
  obtain ⟨hcur, hhome, -⟩ := h.running hcode hk hwait
  exact ⟨v.yielded, (h.inWait_cur hhome hk hwait hcur).mpr ⟨hb, Or.inl hyielded⟩⟩

/-- The waiter without a timeout is off the CPU while it is in the mailbox. -/
theorem MailInv.resumed (hplace : PlaceInv idle place s) (hcalls : CallInv s) (h : MailInv waiter s)
    (hready : s.pendsv = true → taskLevel s.stack = false) (hk : s.stack = .code (.body (.resumed m)) :: k) :
    s.content.waitTask m = .noTask ∧ s.content.handed m = true := by
  have hengaged : Engaged s s.content.cur m false :=
    hcalls.engaged_cur hplace.code hk (v := ⟨m, false, true⟩) rfl rfl
  have hcur := h.only m _ _ hengaged
  cases h.slot m with
  | idle _ _ hnone _ => exact absurd (hcur ▸ hengaged) (hnone false)
  | waits hwait _ hengaged' _ _ =>
    obtain ⟨-, rfl⟩ := Engaged.unique hplace.code.locks hcalls (hcur ▸ hengaged') hengaged
    have hslot := (hplace.placed.seen s.content.cur).eq_slot (m := m) (by rw [hcur]; exact hwait)
    have hcpu := hcalls.on_cpu hplace hready hk (w := ⟨m, false, true⟩) rfl rfl
    rw [hslot] at hcpu
    cases hcpu
  | handed hwait hhanded _ _ _ => exact ⟨hwait, hhanded⟩

theorem MailInv.handing (hplace : PlaceInv idle place s) (hcalls : CallInv s) (h : MailInv waiter s)
    (hready : s.pendsv = true → taskLevel s.stack = false) (hk : s.stack = .code (.body b) :: k)
    (hok : b.OneWaiter waiter s.content) : Handing s.content m b where
  opening timed hb := by
    have hcur := hok.cur hb
    have hnot : ∀ timed, ¬ Engaged s (waiter m) m timed := fun timed => by
      rw [← hcur]
      exact hcalls.not_engaged hplace.code hk hb
    cases h.slot m with
    | idle _ hhanded _ _ => exact hhanded
    | waits _ _ hengaged _ _ | handed _ _ hengaged _ _ => exact absurd hengaged (hnot _)
  waits hne := by
    cases h.slot m with
    | waits _ hhanded _ _ _ => exact hhanded
    | idle hwait _ _ _ | handed hwait _ _ _ _ => exact absurd hwait hne
  result hb := by
    subst hb
    have hengaged : Engaged s s.content.cur m true :=
      hcalls.engaged_cur hplace.code hk (v := ⟨m, true, true⟩) rfl rfl
    have hcur := h.only m _ _ hengaged
    have hchores : chores m s = [] := by
      rw [chores, hk, filterMap_top, chores_nil_of_full hplace.code.locks.sound hk rfl]
      rfl
    cases h.slot m with
    | idle _ _ hnone _ => exact absurd (hcur ▸ hengaged) (hnone true)
    | waits _ hhanded hengaged' hnotified _ =>
      obtain ⟨-, rfl⟩ := Engaged.unique hplace.code.locks hcalls (hcur ▸ hengaged') hengaged
      exact hhanded.trans (hnotified rfl).symm
    | handed _ hhanded hengaged' hnotified _ =>
      obtain ⟨-, rfl⟩ := Engaged.unique hplace.code.locks hcalls (hcur ▸ hengaged') hengaged
      refine hhanded.trans ((hnotified rfl).resolve_right fun hnotes => ?_).symm
      simp [Notes, hchores] at hnotes
  resumed hb := by
    subst hb
    exact (h.resumed hplace hcalls hready hk).2

omit [DecidableEq τ] [DecidableEq W] in
theorem opening_facts {v : Wait B} (h : b.opening = some v) :
    b.disengages = none ∧ own b = some (.mailbox v.mailbox, .full) ∧ b.chore v.mailbox = some .check ∧
      b.engages c = if c.count v.mailbox = 0 then some (v.mailbox, v.timed) else none := by
  cases b <;> cases h <;> exact ⟨rfl, rfl, if_pos rfl, rfl⟩

/-- It is the waiter that ends a wait. -/
theorem MailInv.only_cur (hplace : PlaceInv idle place s) (hcalls : CallInv s) (h : MailInv waiter s)
    (hk : s.stack = .code (.body b) :: k) (hb : b.disengages = some m) : s.content.cur = waiter m := by
  cases b with
  | takeResult m' =>
    cases hb
    exact h.only m _ _ (hcalls.engaged_cur hplace.code hk (v := ⟨m, true, true⟩) rfl rfl)
  | resumed m' =>
    cases hb
    exact h.only m _ _ (hcalls.engaged_cur hplace.code hk (v := ⟨m, false, true⟩) rfl rfl)
  | _ => cases hb

theorem MailInv.slot_body (hplace : PlaceInv idle place s) (hcalls : CallInv s) (h : MailInv waiter s)
    (hready : s.pendsv = true → taskLevel s.stack = false) (hk : s.stack = .code (.body b) :: k)
    {x : Choice τ W B} (hexec : exec C s.content b x = some (c', cs)) (hok : b.OneWaiter waiter s.content) :
    Slot (c'.mail m) (waiter m) (Engaged { s with content := c', stack := push cs k } (waiter m) m)
      (codeChores m cs ++ k.filterMap (chore m)) := by
  have hiff : ∀ {t m timed}, Engaged { s with content := c', stack := push cs k } t m timed ↔ _ :=
    hcalls.engaged_iff hplace.code hk hexec
  have hrest : own b = some (.mailbox m, .full) → k.filterMap (chore m) = [] :=
    chores_nil_of_full hplace.code.locks.sound hk
  have hhanding := h.handing (m := m) hplace hcalls hready hk hok
  have hslot := h.slot m
  have hchores : chores m s = (b.chore m).toList ++ k.filterMap (chore m) := by
    rw [chores, hk, filterMap_top]
    rfl
  rw [hchores] at hslot
  generalize k.filterMap (chore m) = rest at hslot hrest
  -- The wait goes on.
  have hkeep : (∀ timed, b.engages s.content ≠ some (m, timed)) → b.disengages ≠ some m → ∀ timed,
      Engaged { s with content := c', stack := push cs k } (waiter m) m timed ↔ Engaged s (waiter m) m timed := by
    intro hengages hover timed
    rw [hiff]
    simp [hengages timed, hover]
  -- The step is no part of a wait.
  have hkeep' : b.engages s.content = none → b.disengages = none → ∀ timed,
      Engaged { s with content := c', stack := push cs k } (waiter m) m timed ↔ Engaged s (waiter m) m timed :=
    fun hengages hover => hkeep (by simp [hengages]) (by simp [hover])
  -- The wait is over.
  have hends : b.disengages = some m → ∀ timed,
      ¬ Engaged { s with content := c', stack := push cs k } (waiter m) m timed := by
    intro hover timed hengaged
    obtain ⟨-, hengages⟩ | ⟨hengaged, hnot⟩ := hiff.mp hengaged
    · cases b <;> first | (cases hover; done) | cases hengages
    · exact hnot ⟨(h.only_cur hplace hcalls hk hover).symm, hover⟩
  have hmail := (exec_outcome hexec).mail m
  generalize hμ : c'.mail m = μ at hmail ⊢
  generalize codeChores m cs = ds at hmail ⊢
  cases hmail with
  | other hchore hengages hover =>
    rw [hchore] at hslot
    exact hslot.congr rfl rfl rfl (hkeep hengages hover) Iff.rfl
  | @receive b timed hb hwait hcount =>
    obtain ⟨hover, hown, hchore, hengages⟩ := opening_facts (c := s.content) hb
    obtain rfl := hrest hown
    rw [if_neg (Nat.pos_iff_ne_zero.mp hcount)] at hengages
    have hhanded := hhanding.opening timed hb
    refine hslot.congr rfl hhanded.symm rfl (hkeep' hengages hover) ?_
    simp [Notes, hchore]
  | @block b timed hb hwait hcount =>
    obtain ⟨hover, hown, hchore, hengages⟩ := opening_facts (c := s.content) hb
    obtain rfl := hrest hown
    rw [if_pos hcount] at hengages
    have hcur : s.content.cur = waiter m := hok.cur hb
    have hwait' : WaitTask.waiting timed s.content.cur = .waiting timed (waiter m) := by rw [hcur]
    refine .waits hwait' (hhanding.opening timed hb)
      (hiff.mpr (Or.inl ⟨hcur.symm, hengages⟩)) (fun ht => by simp [ht]) (by simp [Notes])
  | takeNotified hnotified =>
    obtain rfl := hrest rfl
    exact .idle rfl rfl (hends rfl) (by simp [Notes])
  | takeTimeout hnotified =>
    obtain rfl := hrest rfl
    exact .idle rfl ((hhanding.result rfl).trans hnotified) (hends rfl) (by simp [Notes])
  | @notify timed t hwait =>
    obtain rfl := hrest rfl
    have hkeep := hkeep' rfl rfl
    cases hslot with
    | idle hwait' _ _ _ | handed hwait' _ _ _ _ =>
      exact absurd (hwait.symm.trans hwait') (WaitTask.waiting_ne_noTask timed t)
    | @waits timed' hwait' _ hengaged hnotified hnotes =>
      obtain ⟨rfl, -⟩ := WaitTask.waiting_inj (hwait.symm.trans hwait')
      refine .handed rfl rfl ((hkeep timed).mpr hengaged) (fun ht => Or.inr ?_) fun hnotes => ?_
      · simp [Notes, ht]
      · cases timed <;> simp [Notes] at hnotes ⊢
  | notifyCount hwait =>
    exact hslot.congr rfl rfl rfl (hkeep' rfl rfl) Iff.rfl
  | setNotified =>
    obtain rfl := hrest rfl
    have hkeep := hkeep' rfl rfl
    cases hslot with
    | idle _ _ _ hnotes | waits _ _ _ _ hnotes => exact absurd (Or.inl (by simp [Body.chore])) hnotes
    | @handed timed hwait hhanded hengaged _ hnotes =>
      exact .handed hwait hhanded ((hkeep timed).mpr hengaged) (fun _ => Or.inl rfl) (by simp [Notes])
  | addPending =>
    refine hslot.congr rfl rfl rfl (hkeep' rfl rfl) ?_
    simp [Notes, Body.chore]
  | swapPendingCount =>
    refine hslot.congr rfl rfl rfl (hkeep' rfl rfl) ?_
    simp [Notes, Body.chore]
  | addCount =>
    refine hslot.congr rfl rfl rfl (hkeep' rfl rfl) ?_
    simp [Notes, Body.chore]
  | @pended timed t hwait =>
    obtain rfl := hrest rfl
    have hkeep := hkeep' rfl rfl
    cases hslot with
    | idle hwait' _ _ _ | handed hwait' _ _ _ _ =>
      exact absurd (hwait.symm.trans hwait') (WaitTask.waiting_ne_noTask timed t)
    | @waits timed' hwait' _ hengaged hnotified hnotes =>
      obtain ⟨rfl, -⟩ := WaitTask.waiting_inj (hwait.symm.trans hwait')
      refine .handed rfl rfl ((hkeep timed).mpr hengaged) (fun ht => Or.inr ?_) fun hnotes => ?_
      · simp [Notes, ht]
      · simpa [Notes] using hnotes
  | pendedNone hwait =>
    refine hslot.congr rfl rfl rfl (hkeep' rfl rfl) ?_
    simp [Notes, Body.chore]
  | @subCount timed =>
    refine hslot.congr rfl rfl rfl (hkeep' rfl rfl) ?_
    cases timed <;> simp [Notes, Body.chore]
  | resumed =>
    have hengaged : Engaged s s.content.cur m false :=
      hcalls.engaged_cur hplace.code hk (v := ⟨m, false, true⟩) rfl rfl
    have hcur := h.only m _ _ hengaged
    obtain ⟨hwait, hhanded⟩ := h.resumed hplace hcalls hready hk
    refine .idle hwait rfl (hends rfl) fun hnotes => ?_
    cases hslot with
    | idle _ _ hnone _ => exact hnone false (hcur ▸ hengaged)
    | waits hwait' _ _ _ _ => exact absurd (hwait.symm.trans hwait').symm (WaitTask.waiting_ne_noTask _ _)
    | handed _ _ hengaged' _ hnotes' =>
      obtain ⟨-, rfl⟩ := Engaged.unique hplace.code.locks hcalls (hcur ▸ hengaged') hengaged
      cases hnotes' hnotes

omit [DecidableEq τ] in
theorem MailControl.notes_iff (h : MailControl m s s') : Notes (chores m s') ↔ Notes (chores m s) := by
  cases h with
  | same hchores _ => rw [hchores]
  | wait hchores hchores' _ _ =>
    rw [hchores, hchores']
    simp [Notes]
  | pend hchores _ | flag hchores _ | settle hchores _ =>
    rw [hchores]
    simp [Notes]

omit [DecidableEq τ] [DecidableEq W] [DecidableEq B] in
theorem Body.OneWaiter.eq_of_engages {timed : Bool} (h : b.OneWaiter waiter c)
    (hb : b.engages c = some (m, timed)) : c.cur = waiter m := by
  cases b with
  | checkCount m' | checkCountTimeout m' ms =>
    simp only [Body.engages] at hb
    split at hb
    · cases hb
      first | exact h | exact h.1
    · cases hb
  | _ => cases hb

theorem MailInv.step (hplace : PlaceInv idle place s) (hcalls : CallInv s) (h : MailInv waiter s)
    (hok : ∀ b ∈ takes s a, b.OneWaiter waiter s.content) (hstep : step (spec C) s a = some s') :
    MailInv waiter s' := by
  rcases step_takes hstep with ⟨x, b, k, c', cs, htakes, hk, hexec, rfl⟩ | hcontrol
  · have hready := step_takes_pendsv hstep htakes
    have hok := hok b htakes
    have hchores : ∀ m, chores m s = _ ∧ chores m { s with content := c', stack := push cs k } = _ :=
      fun m => chores_body hk
    refine ⟨fun m => ?_, fun m => ?_, fun m t timed hengaged => ?_⟩
    · have htallied := h.tallied m
      rw [(hchores m).1] at htallied
      rw [(hchores m).2]
      exact htallied.body ((exec_outcome hexec).mail m) (chores_nil_of_full hplace.code.locks.sound hk)
        (h.handing hplace hcalls hready hk hok)
    · rw [(hchores m).2]
      exact h.slot_body hplace hcalls hready hk hexec hok
    · rcases (hcalls.engaged_iff hplace.code hk hexec).mp hengaged with ⟨rfl, hengages⟩ | ⟨hengaged, -⟩
      · exact hok.eq_of_engages hengages
      · exact h.only m t timed hengaged
  · have hmail := fun m => LockInv.mail_control hplace.code.locks hcontrol m
    have hengaged : ∀ t m timed, Engaged s' t m timed ↔ Engaged s t m timed :=
      fun _ _ _ => Engaged.control hplace.code.locks hcontrol
    refine ⟨fun m => ?_, fun m => ?_, fun m t timed ht => h.only m t timed ((hengaged t m timed).mp ht)⟩
    · rw [hcontrol.content_eq]
      exact (h.tallied m).control (hmail m)
    · rw [hcontrol.content_eq]
      exact (h.slot m).congr rfl rfl rfl (hengaged _ _) (hmail m).notes_iff

end Hopter.Kernel
