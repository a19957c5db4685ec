-- SUMMARY: What is pended on the sleep queue is done when the queue is released, unless `run_pended_op` misses it.
import Hopter.Kernel.Conservation

/-!
# Pended work of the sleep queue

While a context holds the sleep queue, nested handlers only pend: SysTick sets
`time_to_wakeup`, and a notification puts its task into the delete buffer. `run_pended_op`
looks at the flag alone, and it stores `false` at its end. So it passes over a delete buffer
that comes without the flag, and over a SysTick that is pended after it has read `TICKS`.
Where neither happens, nothing stays behind when the queue is released.
-/

namespace Hopter.Kernel

open Exec Hopter.Task Hopter.Time

variable {τ W B : Type} [DecidableEq τ] [DecidableEq W] [DecidableEq B]
  {C : Config} {c c' : Content τ W B} {b : Body τ W B} {cs : List (KCode τ W B)} {t u : τ} {time : Nat}
  {s s' : State (Lock W B) (Op τ) (Body τ W B) (Content τ W B) τ}
  {k : List (Instr (Lock W B) (Op τ) (Body τ W B))}
  {a : Action (List (HandlerCall τ W B)) (Choice τ W B)}

-- ---------------------------------------------------------------------------
-- The order of the sleep queue
-- ---------------------------------------------------------------------------

/-- The wake-up ticks of the sleeping tasks compare with the tick of `time` as the times do. -/
def Content.Near (c : Content τ W B) (time : Nat) : Prop :=
  ∀ u ∈ c.timeSortedQueue, c.due u < time + 2 ^ 31 ∧ time < c.due u + 2 ^ 31

instance : Decidable (c.Near time) :=
  inferInstanceAs (Decidable (∀ u ∈ c.timeSortedQueue, c.due u < time + 2 ^ 31 ∧ time < c.due u + 2 ^ 31))

/-- The sleeping tasks are sorted by the time at which they are due. -/
def Content.Sorted (c : Content τ W B) : Prop := c.timeSortedQueue.Pairwise fun t u => c.due t ≤ c.due u

/-- All sleeping tasks are due later. -/
def Content.Later (c : Content τ W B) (time : Nat) : Prop := ∀ u ∈ c.timeSortedQueue, time < c.due u

/-- `TICKS`, as it was read before the flag is cleared. -/
def Body.clears : Body τ W B → Option Nat
  | .clearTimeToWakeup now => some now
  | _ => none

/-- The time that the step compares with those at which the sleeping tasks are due. -/
def Body.compares : Body τ W B → Option Nat
  | .wakeLoop now _ => some now
  | .pushSorted _ due => some due
  | _ => none

/-- The step passes over nothing that is pended on the sleep queue, and compares ticks that are
near to each other. -/
def Body.Careful (c : Content τ W B) (b : Body τ W B) : Prop :=
  (b = .loadTimeToWakeup → c.timeToWakeup = true ∨ c.deleteBuffer = []) ∧
    (∀ now ∈ b.clears, ∀ time ∈ c.lastPended, time ≤ now) ∧ ∀ time ∈ b.compares, c.Near time

instance : Decidable (b.Careful c) :=
  inferInstanceAs (Decidable ((b = .loadTimeToWakeup → c.timeToWakeup = true ∨ c.deleteBuffer = []) ∧
    (∀ now ∈ b.clears, ∀ time ∈ c.lastPended, time ≤ now) ∧ ∀ time ∈ b.compares, c.Near time))

omit [DecidableEq τ] [DecidableEq W] [DecidableEq B] in
theorem Content.expired_iff {now : Nat} (h : c.Near now) (ht : t ∈ c.timeSortedQueue) :
    c.expired now t = true ↔ c.due t ≤ now := by
  obtain ⟨hlt, hlt'⟩ := h t ht
  rw [Content.expired, tickCmp_of hlt (by omega)]
  simp [Nat.compare_ne_gt]

omit [DecidableEq τ] [DecidableEq W] [DecidableEq B] in
/-- Where the first task is not expired, no task is. -/
theorem Content.Sorted.later {now : Nat} (h : c.Sorted) (hnear : c.Near now)
    (hfirst : ∀ t rest, c.timeSortedQueue = t :: rest → c.expired now t = false) : c.Later now := by
  intro u hu
  cases hqueue : c.timeSortedQueue with
  | nil => simp [hqueue] at hu
  | cons t rest =>
    have hexp := hfirst t rest hqueue
    have ht : now < c.due t := by
      by_contra hle
      have := (Content.expired_iff hnear (t := t) (by simp [hqueue])).mpr (Nat.le_of_not_lt hle)
      simp [hexp] at this
    rw [Content.Sorted, hqueue, List.pairwise_cons] at h
    rw [hqueue] at hu
    rcases List.mem_cons.mp hu with rfl | hu
    · exact ht
    · exact Nat.lt_of_lt_of_le ht (h.1 u hu)

/-- Only `add_task_to_sleep_queue` adds to the queue. -/
theorem Outcome.sleeping (h : Outcome C c b c' cs) (hb : ∀ t due, b ≠ .pushSorted t due) :
    c'.timeSortedQueue.Sublist c.timeSortedQueue ∧ c'.due = c.due := by
  cases h with
  | wake hqueue _ => exact ⟨by simp [hqueue], rfl⟩
  | delete _ _ => exact ⟨List.erase_sublist, rfl⟩
  | remove _ _ => exact ⟨List.erase_sublist, rfl⟩
  | pushSorted _ _ => exact absurd rfl (hb _ _)
  | _ => constructor <;> simp

theorem Outcome.later (h : Outcome C c b c' cs) (hb : ∀ t due, b ≠ .pushSorted t due)
    (hlater : c.Later time) : c'.Later time := by
  obtain ⟨hsub, hdue⟩ := h.sleeping hb
  intro u hu
  rw [hdue]
  exact hlater u (hsub.subset hu)

theorem Outcome.sorted (h : Outcome C c b c' cs) (hcareful : b.Careful c)
    (hfree : ∀ t, c.linked t = false → t ∉ c.timeSortedQueue) (hsorted : c.Sorted) : c'.Sorted := by
  by_cases hb : ∃ t due, b = .pushSorted t due
  · obtain ⟨t, due, rfl⟩ := hb
    cases h with
    | pushSorted _ hlinked =>
      -- The time of the new task is new, those of the others are not.
      have hother : ∀ u ∈ c.timeSortedQueue, Function.update c.due t due u = c.due u := fun u hu =>
        Function.update_of_ne (fun heq : u = t => hfree t hlinked (heq ▸ hu)) ..
      have hcmp : ∀ u ∈ c.timeSortedQueue, tickCmp (Tick.of (Function.update c.due t due t))
          (Tick.of (Function.update c.due t due u)) = compare due (c.due u) := fun u hu => by
        obtain ⟨hlt, hlt'⟩ := hcareful.2.2 due rfl u hu
        rw [hother u hu, Function.update_self, tickCmp_of hlt' (by omega)]
      refine pushBackTickSorted_pairwise (R := fun u v => Function.update c.due t due u ≤
        Function.update c.due t due v) Nat.le_trans ?_ (fun u hu hlt => ?_) fun u hu hge => ?_
      · refine List.Pairwise.imp_of_mem (fun {u v} hu hv hle => ?_) hsorted
        rwa [hother u hu, hother v hv]
      · rw [hcmp u hu, Nat.compare_eq_lt] at hlt
        rw [Function.update_self, hother u hu]
        exact Nat.le_of_lt hlt
      · rw [hcmp u hu, Ne, Nat.compare_eq_lt] at hge
        rw [Function.update_self, hother u hu]
        exact Nat.le_of_not_lt hge
  · obtain ⟨hsub, hdue⟩ := h.sleeping fun t due heq => hb ⟨t, due, heq⟩
    rw [Content.Sorted, hdue]
    exact hsorted.sublist hsub

-- ---------------------------------------------------------------------------
-- Tasks that have been woken
-- ---------------------------------------------------------------------------

/-- `wake_expired_tasks` has woken the tasks that are due at the tick that it has read. -/
def Body.Woken (c : Content τ W B) : Body τ W B → Prop
  | .deleteLoop now _ | .endWake now _ | .clearTimeToWakeup now => c.Later now
  | _ => True

def Woken (c : Content τ W B) : Instr (Lock W B) (Op τ) (Body τ W B) → Prop
  | .code (.body b) | .code (.suspended b) => b.Woken c
  | _ => True

/-- The code has woken nothing yet. -/
def notWoken : KCode τ W B → Bool
  | .body b | .suspended b =>
    match b with
    | .deleteLoop _ _ | .endWake _ _ | .clearTimeToWakeup _ => false
    | _ => true
  | _ => true

omit [DecidableEq τ] [DecidableEq W] [DecidableEq B] in
theorem forall_woken {ds : List (KCode τ W B)} (h : ds.all notWoken = true) : ∀ d ∈ ds, Woken c (.code d) := by
  intro d hd
  have hnot := List.all_eq_true.mp h d hd
  cases d with
  | body b | suspended b => cases b <;> first | exact trivial | cases hnot
  | access l must op => trivial
  | mayBlock => trivial
  | yield => trivial

theorem Outcome.woken (h : Outcome C c b c' cs) (hcareful : b.Careful c) (hsorted : c.Sorted)
    (hb : b.Woken c) : ∀ d ∈ cs, Woken c' (.code d) := by
  cases h with
  | wakeEnd hfirst => exact List.forall_mem_singleton.mpr (hsorted.later (hcareful.2.2 _ rfl) hfirst)
  | delete _ _ =>
    exact List.forall_mem_cons.mpr ⟨trivial, List.forall_mem_singleton.mpr
      fun u hu => hb u (List.mem_of_mem_erase hu)⟩
  | deleteNone _ _ => exact List.forall_mem_singleton.mpr hb
  | deleteEnd _ => exact List.forall_mem_singleton.mpr hb
  | endWakePended => exact List.forall_mem_singleton.mpr hb
  | app call => cases call <;> exact forall_woken rfl
  | @subCount m p => cases p <;> exact forall_woken rfl
  | _ => exact forall_woken rfl

theorem hereditary_woken : Hereditary (spec (τ := τ) (W := W) (B := B) C) (Woken c) where
  control i hi := by
    cases i with
    | code d =>
      cases d with
      | body b | suspended b => simp [Instr.isControl] at hi
      | _ => trivial
    | _ => trivial
  guard l must op h := trivial
  suspended b h := h
  full l must op h := by
    change ∀ d ∈ fullAccess l op, _
    unfold fullAccess
    split <;> exact forall_woken rfl
  pend l must op h := by
    change ∀ d ∈ pendOnlyAccess l op, _
    unfold pendOnlyAccess
    split <;> exact forall_woken rfl
  pended l := by cases l <;> exact forall_woken rfl
  handler := forall_handlerCode fun call => by cases call <;> exact forall_woken rfl
  pickNext := forall_woken rfl

omit [DecidableEq τ] [DecidableEq W] [DecidableEq B] in
theorem woken_of_own (h : own b ≠ some (.sleep, .full)) : b.Woken c := by
  cases b <;> first | exact trivial | exact absurd rfl h

theorem woken_body (hinv : LockInv s) (h : Everywhere (Woken s.content) s) (hk : s.stack = .code (.body b) :: k)
    (hstep : Outcome C s.content b c' cs) (hcareful : b.Careful s.content) (hsorted : s.content.Sorted) :
    Everywhere (Woken c') { s with content := c', stack := push cs k } := by
  refine h.body hk (hstep.woken hcareful hsorted) fun i hi hwoken => ?_
  by_cases hb : ∃ t due, b = .pushSorted t due
  · -- No other access to the sleep queue is in progress.
    obtain ⟨t, due, rfl⟩ := hb
    cases i with
    | code d =>
      cases d with
      | body b' => exact woken_of_own (hinv.sound.exclusive hk rfl hi)
      | suspended b' =>
        have hproper : proper (.code (.suspended b')) = true := by
          rcases hi with hi | ⟨t, hi⟩
          · exact hinv.proper.1 _ (by rw [hk]; exact List.mem_cons_of_mem _ hi)
          · exact hinv.proper.2 t _ hi
        cases b' <;> first | exact trivial | cases hproper
      | _ => trivial
    | _ => trivial
  · have hlater : ∀ {now}, s.content.Later now → c'.Later now :=
      hstep.later fun t due heq => hb ⟨t, due, heq⟩
    cases i with
    | code d =>
      cases d with
      | body b' | suspended b' => cases b' <;> first | exact trivial | exact hlater hwoken
      | _ => trivial
    | _ => trivial

-- ---------------------------------------------------------------------------
-- Pended work
-- ---------------------------------------------------------------------------

/-- A SysTick is pended. -/
def Ticked (c : Content τ W B) (l : Lock W B) : Prop := l = .sleep ∧ c.timeToWakeup = true

/-- The steps of `run_pended_op` that lead on to the end of `wake_expired_tasks`. -/
def looksTicked : Body τ W B → Option (Lock W B)
  | .loadTimeToWakeup | .loadTicks true | .wakeLoop _ true | .deleteLoop _ true | .endWake _ true
  | .clearTimeToWakeup _ => some .sleep
  | _ => none

/-- A removal is pended. -/
def Removing (c : Content τ W B) (l : Lock W B) : Prop := l = .sleep ∧ c.deleteBuffer ≠ []

/-- The steps of `run_pended_op` that lead on to the delete buffer. -/
def looksRemoving : Body τ W B → Option (Lock W B)
  | .loadTimeToWakeup | .loadTicks true | .wakeLoop _ true | .deleteLoop _ true => some .sleep
  | _ => none

theorem Outcome.timeToWakeup_cases (h : Outcome C c b c' cs) (hflag : c'.timeToWakeup = true) :
    c.timeToWakeup = true ∨ b = .setTimeToWakeup := by
  cases h with
  | setTimeToWakeup => exact Or.inr rfl
  | clearTimeToWakeup => exact absurd hflag (by simp)
  | _ => exact Or.inl (by simpa using hflag)

theorem Outcome.timeToWakeup_of (h : Outcome C c b c' cs) (hflag : c.timeToWakeup = true) :
    c'.timeToWakeup = true ∨ ∃ now, b = .clearTimeToWakeup now := by
  cases h with
  | setTimeToWakeup => exact Or.inl rfl
  | clearTimeToWakeup => exact Or.inr ⟨_, rfl⟩
  | _ => exact Or.inl (by simpa using hflag)

theorem Outcome.deleteBuffer_cases (h : Outcome C c b c' cs) (hne : c'.deleteBuffer ≠ []) :
    c.deleteBuffer ≠ [] ∨ own b = some (.sleep, .pend) := by
  cases h with
  | enqueueDelete => exact Or.inr rfl
  | delete hbuffer _ | deleteNone hbuffer _ => exact Or.inl (by simp [hbuffer])
  | _ => exact Or.inl (by simpa using hne)

/-- `run_pended_op` goes on until it finds no flag, or an empty delete buffer. -/
theorem Outcome.looks (h : Outcome C c b c' cs) {l : Lock W B} (hlooks : looksRemoving b = some l) :
    (∃ b' : Body τ W B, looksRemoving b' = some l ∧ .body b' ∈ cs) ∨
      (b = .loadTimeToWakeup ∧ c.timeToWakeup = false ∧ c' = c) ∨
      ∃ now, c.deleteBuffer = [] ∧ c' = c ∧ cs = [.body (.endWake now true)] := by
  have hpended : ∀ {p}, (if p = true then some .sleep else none) = some l → p = true ∧ l = .sleep := by
    intro p hp
    cases p <;> cases hp
    exact ⟨rfl, rfl⟩
  cases h with
  | timeToWakeup _ => exact Or.inl ⟨.loadTicks true, hlooks, List.mem_singleton_self _⟩
  | noTimeToWakeup hflag => exact Or.inr (Or.inl ⟨rfl, hflag, rfl⟩)
  | @loadTicks p _ =>
    obtain ⟨rfl, rfl⟩ := hpended (p := p) (by cases p <;> exact hlooks)
    exact Or.inl ⟨.wakeLoop _ true, rfl, List.mem_singleton_self _⟩
  | @wake now p _ _ _ _ =>
    obtain ⟨rfl, rfl⟩ := hpended (p := p) (by cases p <;> exact hlooks)
    exact Or.inl ⟨.wakeLoop now true, rfl, by simp⟩
  | @wakeEnd now p _ =>
    obtain ⟨rfl, rfl⟩ := hpended (p := p) (by cases p <;> exact hlooks)
    exact Or.inl ⟨.deleteLoop now true, rfl, List.mem_singleton_self _⟩
  | @delete now p _ _ _ _ | @deleteNone now p _ _ _ _ =>
    obtain ⟨rfl, rfl⟩ := hpended (p := p) (by cases p <;> exact hlooks)
    exact Or.inl ⟨.deleteLoop now true, rfl, by simp⟩
  | @deleteEnd now p hbuffer =>
    obtain ⟨rfl, rfl⟩ := hpended (p := p) (by cases p <;> exact hlooks)
    exact Or.inr (Or.inr ⟨now, hbuffer, rfl, rfl⟩)
  | _ => cases hlooks

omit [DecidableEq τ] [DecidableEq W] [DecidableEq B] in
theorem looksTicked_of_removing {l : Lock W B} (h : looksRemoving b = some l) : looksTicked b = some l := by
  unfold looksRemoving at h
  split at h
  all_goals first | exact h | cases h

/-- `run_pended_op` wakes the tasks that are due when it finds the flag. -/
theorem draining_ticked : Draining own (spec (τ := τ) (W := W) (B := B) C) Ticked looksTicked where
  owned {b l} h := by
    unfold looksTicked at h
    split at h <;> cases h <;> rfl
  pended := by
    rintro c l ⟨rfl, -⟩
    exact ⟨.loadTimeToWakeup, rfl, List.mem_singleton_self _⟩
  grow := by
    rintro c b x c' cs l hexec ⟨rfl, hflag⟩
    rcases (exec_outcome hexec).timeToWakeup_cases hflag with hflag | rfl
    · exact Or.inl ⟨rfl, hflag⟩
    · exact Or.inr rfl
  goOn := by
    rintro c b x c' cs l hexec hlooks ⟨rfl, hflag⟩
    have hstep := exec_outcome hexec
    by_cases hremoving : looksRemoving b = some .sleep
    · rcases hstep.looks hremoving with ⟨b', hb', hmem⟩ | ⟨-, hnot, rfl⟩ | ⟨now, -, -, rfl⟩
      · exact ⟨b', looksTicked_of_removing hb', hmem⟩
      · exact absurd hflag (by simp [hnot])
      · exact ⟨.endWake now true, rfl, List.mem_singleton_self _⟩
    · -- The flag is cleared at the end.
      cases hstep with
      | @endWakePended now => exact ⟨.clearTimeToWakeup now, rfl, List.mem_singleton_self _⟩
      | clearTimeToWakeup => exact absurd hflag (by simp)
      | @loadTicks p _ | @wake _ p _ _ _ _ | @wakeEnd _ p _ | @delete _ p _ _ _ _ | @deleteNone _ p _ _ _ _
      | @deleteEnd _ p _ => cases p <;> first | exact absurd rfl hremoving | cases hlooks
      | timeToWakeup _ | noTimeToWakeup _ => exact absurd rfl hremoving
      | _ => cases hlooks

theorem looking_removing : Looking own (spec (τ := τ) (W := W) (B := B) C) Removing looksRemoving where
  owned {b l} h := by
    unfold looksRemoving at h
    split at h <;> cases h <;> rfl
  pended := by
    rintro c l ⟨rfl, -⟩
    exact ⟨.loadTimeToWakeup, rfl, List.mem_singleton_self _⟩

/-- `run_pended_op` goes on with the delete buffer when it is careful. -/
theorem Outcome.removing (h : Outcome C c b c' cs) (hcareful : b.Careful c) {l : Lock W B}
    (hlooks : looksRemoving b = some l) (hremoving : Removing c' l) :
    ∃ b' : Body τ W B, looksRemoving b' = some l ∧ .body b' ∈ cs := by
  obtain ⟨rfl, hne⟩ := hremoving
  rcases h.looks hlooks with hnext | ⟨rfl, hflag, rfl⟩ | ⟨now, hbuffer, rfl, -⟩
  · exact hnext
  · exact absurd (hcareful.1 rfl) (by simp [hflag, hne])
  · exact absurd hbuffer hne

-- ---------------------------------------------------------------------------
-- The invariant of a run
-- ---------------------------------------------------------------------------

/-- The invariant of a run whose steps are careful. -/
structure SleepInv (idle : τ) (s : State (Lock W B) (Op τ) (Body τ W B) (Content τ W B) τ) : Prop where
  placed : ∃ place, PlaceInv idle place s
  sorted : s.content.Sorted
  woken : Everywhere (Woken s.content) s
  ticked : Announced Ticked looksTicked s
  removing : Announced Removing looksRemoving s

theorem SleepInv.locks {idle : τ} (h : SleepInv idle s) : LockInv s := by
  obtain ⟨place, hplace⟩ := h.placed
  exact hplace.code.locks

/-- A task whose link is free does not sleep. -/
theorem SleepInv.not_sleeping {idle : τ} (h : SleepInv idle s) (t : τ) (hlinked : s.content.linked t = false) :
    t ∉ s.content.timeSortedQueue := by
  obtain ⟨place, hplace⟩ := h.placed
  intro ht
  have hat := hplace.placed.seen t
  have hlist := hat.linked
  rw [hat.eq_list (l := .sleep) ht, hlinked] at hlist
  cases hlist

theorem SleepInv.step {idle : τ} (h : SleepInv idle s) (hcareful : ∀ b ∈ takes s a, b.Careful s.content)
    (hstep : step (spec C) s a = some s') : SleepInv idle s' := by
  have hsound := h.locks.sound
  have hplaced : ∃ place, PlaceInv idle place s' := by
    obtain ⟨place, hplace⟩ := h.placed
    obtain ⟨place', hplace', -⟩ := hplace.step hstep
    exact ⟨place', hplace'⟩
  rcases step_takes hstep with ⟨x, b, k, c, cs, htakes, hk, hexec, rfl⟩ | hcontrol
  · have hout := exec_outcome hexec
    have hb := hcareful b htakes
    refine ⟨hplaced, hout.sorted hb h.not_sleeping h.sorted, woken_body h.locks h.woken hk hout hb h.sorted,
      h.ticked.body draining_ticked hsound hk hexec, h.removing.body_of hsound hk ?_ fun l => hout.removing hb⟩
    rintro l ⟨rfl, hne⟩
    exact (hout.deleteBuffer_cases hne).imp_left fun hne => ⟨rfl, hne⟩
  · refine ⟨hplaced, ?_, ?_, h.ticked.control draining_ticked.toLooking hsound hcontrol,
      h.removing.control looking_removing hsound hcontrol⟩
    · rw [hcontrol.content_eq]
      exact h.sorted
    · rw [hcontrol.content_eq]
      exact h.woken.control hereditary_woken hcontrol

theorem boot_sleepInv {idle main : τ} {priority : τ → Nat} {clock : Nat} (hne : idle ≠ main) : SleepInv idle
    (boot idle main priority clock : State (Lock W B) (Op τ) (Body τ W B) (Content τ W B) τ) where
  placed := ⟨_, boot_placeInv hne⟩
  sorted := List.Pairwise.nil
  woken := Everywhere.init fun t => by
    unfold code
    split <;> exact forall_woken rfl
  ticked := by
    rintro l ⟨-, hflag⟩
    cases hflag
  removing := by
    rintro l ⟨-, hne⟩
    exact absurd rfl hne

-- ---------------------------------------------------------------------------
-- While the sleep queue is held
-- ---------------------------------------------------------------------------

/-- A guard of the sleep queue is alive. -/
def Guarded (s : State (Lock W B) (Op τ) (Body τ W B) (Content τ W B) τ) : Prop :=
  ∃ i ∈ s.stack, Instr.guardOf .sleep i = true

instance : Decidable (Guarded s) := inferInstanceAs (Decidable (∃ i ∈ s.stack, Instr.guardOf .sleep i = true))

/-- A task is about to enter the sleep queue. -/
def enters : Instr (Lock W B) (Op τ) (Body τ W B) → Bool
  | .code (.body (.pushSorted _ _)) | .code (.suspended (.pushSorted _ _)) => true
  | _ => false

omit [DecidableEq τ] [DecidableEq W] [DecidableEq B] in
theorem forall_not_enters {ds : List (KCode τ W B)} (h : (ds.all fun d => !enters (.code d)) = true) :
    ∀ d ∈ ds, enters (.code d) = false :=
  fun d hd => by simpa using List.all_eq_true.mp h d hd

omit [DecidableEq τ] [DecidableEq W] [DecidableEq B] in
theorem not_enters_of_own {i : Instr (Lock W B) (Op τ) (Body τ W B)} (hproper : proper i = true)
    (hi : ∀ b, i = .code (.body b) → own b ≠ some (.sleep, .full)) : enters i = false := by
  unfold enters
  split
  · exact absurd rfl (hi _ rfl)
  · cases hproper
  · rfl

theorem Outcome.not_enters (h : Outcome C c b c' cs) : ∀ d ∈ cs, enters (.code d) = false := by
  cases h with
  | app call => cases call <;> exact forall_not_enters rfl
  | @subCount m p => cases p <;> exact forall_not_enters rfl
  | _ => exact forall_not_enters rfl

theorem hereditary_enters :
    Hereditary { spec (τ := τ) (W := W) (B := B) C with full := fun _ _ => [], pend := fun _ _ => [] }
      (fun i => enters i = false) where
  control i hi := by
    cases i with
    | code d => cases d <;> first | rfl | exact absurd hi (by simp [Instr.isControl])
    | _ => rfl
  guard l must op h := rfl
  suspended b h := by cases b <;> first | rfl | cases h
  full l must op h d hd := absurd hd (by simp)
  pend l must op h d hd := absurd hd (by simp)
  pended l := by cases l <;> exact forall_not_enters rfl
  handler := forall_handlerCode fun call => by cases call <;> exact forall_not_enters rfl
  pickNext := forall_not_enters rfl

omit [DecidableEq τ] in
theorem LockInv.not_enters_saved (h : LockInv s) (t : τ) : ∀ i ∈ s.saved t, enters i = false := fun i hi =>
  not_enters_of_own (h.proper.2 t i hi) fun b heq hown => by
    subst heq
    have := (h.sound.saved t _ hi).1
    simp [Instr.inner, hown] at this

/-- A task enters the sleep queue only while no other guard of the queue is alive. -/
theorem Guarded.not_enters (hinv : LockInv s) (h : Guarded s) (hno : ∀ i ∈ s.stack, enters i = false)
    (hstep : Control (spec C) s s') : ∀ i ∈ s'.stack, enters i = false := by
  refine (Everywhere.control_top hereditary_enters (fun l must op k hk hfree hno' => ?_) (fun l op k _ _ _ => ?_)
    ⟨hno, hinv.not_enters_saved⟩ hstep).1
  · change ∀ d ∈ fullAccess l op, _
    unfold fullAccess
    split
    case h_5 t due =>
      -- Such an access has to win the lock, so that it finds no guard below it.
      obtain rfl : must = true := by
        have := hinv.proper.1 (.guard .sleep must (.addTask t due)) (by simp [hk])
        cases must <;> first | rfl | cases this
      have hgrounded := hinv.grounded
      rw [hk] at hgrounded
      have hnil := hgrounded.1 .sleep (need_must _ _)
      rw [marks, List.filterMap_eq_nil_iff] at hnil
      obtain ⟨i, hi, hguard⟩ := h
      rw [hk] at hi
      rcases List.mem_cons.mp hi with rfl | hi
      · cases hguard
      · have hmark := hnil i hi
        cases i <;> first | cases hguard | simp_all [Instr.guardOf, Instr.mark]
    all_goals exact forall_not_enters rfl
  · change ∀ d ∈ pendOnlyAccess l op, _
    unfold pendOnlyAccess
    split <;> exact forall_not_enters rfl

theorem Outcome.clock_le (h : Outcome C c b c' cs) : c.clock ≤ c'.clock := by
  cases h with
  | advanceTick => exact Nat.le_succ _
  | _ => simp

theorem Outcome.lastPended_cases (h : Outcome C c b c' cs) :
    c'.lastPended = c.lastPended ∨ c'.lastPended = some c.clock := by
  cases h with
  | setTimeToWakeup => exact Or.inr rfl
  | _ => exact Or.inl (by simp)

/-- A SysTick has been pended at `time`, and the queue has been held since. -/
structure TickPended (time : Nat) (s : State (Lock W B) (Op τ) (Body τ W B) (Content τ W B) τ) : Prop where
  clock : time ≤ s.content.clock
  last : ∃ last ∈ s.content.lastPended, time ≤ last
  /-- The flag is set, or the tasks have been woken and none can have come since. -/
  woken : s.content.timeToWakeup = true ∨ s.content.Later time ∧ ∀ i ∈ s.stack, enters i = false

theorem TickPended.step {idle : τ} (hinv : SleepInv idle s) (h : TickPended time s) (hguarded : Guarded s)
    (hcareful : ∀ b ∈ takes s a, b.Careful s.content) (hstep : step (spec C) s a = some s') :
    TickPended time s' := by
  obtain ⟨hclock, ⟨last, hlast, hle⟩, hwoken⟩ := h
  rcases step_takes hstep with ⟨x, b, k, c, cs, htakes, hk, hexec, rfl⟩ | hcontrol
  · have hout := exec_outcome hexec
    refine ⟨Nat.le_trans hclock hout.clock_le, ?_, ?_⟩
    · rcases hout.lastPended_cases with heq | heq
      · exact ⟨last, by rwa [heq], hle⟩
      · exact ⟨s.content.clock, heq, hclock⟩
    · rcases hwoken with hflag | ⟨hlater, hno⟩
      · rcases hout.timeToWakeup_of hflag with hflag | ⟨now, rfl⟩
        · exact Or.inl hflag
        · -- The flag is cleared, when all tasks have been woken that were due at the last SysTick.
          have hnow : last ≤ now := (hcareful _ htakes).2.1 now rfl last hlast
          have hlater : s.content.Later now := hinv.woken.1 (.code (.body (.clearTimeToWakeup now))) (by simp [hk])
          cases hout with
          | clearTimeToWakeup =>
            refine Or.inr ⟨fun u hu => ?_, fun i hi => ?_⟩
            · exact Nat.lt_of_le_of_lt (Nat.le_trans hle hnow) (hlater u hu)
            · refine not_enters_of_own (hinv.locks.proper.1 i (by rw [hk]; exact List.mem_cons_of_mem _ hi)) ?_
              rintro b rfl
              exact hinv.locks.sound.exclusive hk rfl (Or.inl hi)
      · rw [hk, List.forall_mem_cons] at hno
        refine Or.inr ⟨hout.later (fun t due heq => ?_) hlater, forall_mem_push hout.not_enters hno.2⟩
        subst heq
        cases hno.1
  · have heq := hcontrol.content_eq
    refine ⟨by rwa [heq], ⟨last, by rwa [heq], hle⟩, ?_⟩
    rw [heq]
    exact hwoken.imp_right fun hlater => ⟨hlater.1, hguarded.not_enters hinv.locks hlater.2 hcontrol⟩

/-- The task is handed to the ready queue. -/
def HandsOver (t : τ) (s : State (Lock W B) (Op τ) (Body τ W B) (Content τ W B) τ) : Prop :=
  ∃ k, s.stack = .code (.access .ready false (.acceptTask t)) :: k

/-- A task that sleeps is in the delete buffer until it is handed over. -/
theorem Outcome.handsOver (h : Outcome C c b c' cs) (hsleeps : t ∈ c.timeSortedQueue) (hmem : t ∈ c.deleteBuffer) :
    (∃ ds, cs = .access .ready false (.acceptTask t) :: ds) ∨ t ∈ c'.timeSortedQueue ∧ t ∈ c'.deleteBuffer := by
  cases h with
  | @wake now p u rest hqueue _ =>
    rw [hqueue] at hsleeps
    rcases List.mem_cons.mp hsleeps with rfl | hsleeps
    · exact Or.inl ⟨_, rfl⟩
    · exact Or.inr ⟨hsleeps, hmem⟩
  | @delete now p u rest hbuffer _ =>
    by_cases hu : t = u
    · subst hu
      exact Or.inl ⟨_, rfl⟩
    · rw [hbuffer] at hmem
      exact Or.inr ⟨(List.mem_erase_of_ne hu).mpr hsleeps, (List.mem_cons.mp hmem).resolve_left hu⟩
  | @deleteNone now p u rest hbuffer hnot =>
    rw [hbuffer] at hmem
    exact Or.inr ⟨hsleeps, (List.mem_cons.mp hmem).resolve_left fun heq => hnot (heq ▸ hsleeps)⟩
  | @remove u _ _ =>
    by_cases hu : t = u
    · subst hu
      exact Or.inl ⟨_, rfl⟩
    · exact Or.inr ⟨(List.mem_erase_of_ne hu).mpr hsleeps, hmem⟩
  | pushSorted _ _ =>
    exact Or.inr ⟨(pushBackTickSorted_perm _ _ _).mem_iff.mpr (List.mem_cons_of_mem _ hsleeps), hmem⟩
  | enqueueDelete => exact Or.inr ⟨hsleeps, List.mem_append_left _ hmem⟩
  | _ => exact Or.inr ⟨by simpa using hsleeps, by simpa using hmem⟩

theorem handsOver_step (h : t ∈ s.content.timeSortedQueue ∧ t ∈ s.content.deleteBuffer)
    (hstep : step (spec C) s a = some s') :
    HandsOver t s' ∨ t ∈ s'.content.timeSortedQueue ∧ t ∈ s'.content.deleteBuffer := by
  rcases step_cases hstep with ⟨x, b, k, c, cs, hk, hexec, rfl⟩ | hcontrol
  · refine ((exec_outcome hexec).handsOver h.1 h.2).imp_left ?_
    rintro ⟨ds, rfl⟩
    exact ⟨_, rfl⟩
  · rw [hcontrol.content_eq]
    exact Or.inr h

-- ---------------------------------------------------------------------------
-- Runs
-- ---------------------------------------------------------------------------

section Runs

variable {idle main : τ} {priority : τ → Nat} {clock : Nat}

/-- The sleep queue is held, but for the last state of the run. -/
def StaysGuarded (C : Config) (s : State (Lock W B) (Op τ) (Body τ W B) (Content τ W B) τ)
    (actions : List (Action (List (HandlerCall τ W B)) (Choice τ W B))) : Prop :=
  Run.Allowed (step (spec C)) (fun s _ => Guarded s) s actions

instance (actions : List (Action (List (HandlerCall τ W B)) (Choice τ W B))) :
    Decidable (StaysGuarded C s actions) :=
  inferInstanceAs (Decidable (Run.Allowed (step (spec C)) (fun s _ => Guarded s) s actions))

/-- The steps of a run are careful. -/
def Careful (C : Config) (s : State (Lock W B) (Op τ) (Body τ W B) (Content τ W B) τ)
    (actions : List (Action (List (HandlerCall τ W B)) (Choice τ W B))) : Prop :=
  Run.Allowed (step (spec C)) (fun s a => ∀ b ∈ takes s a, b.Careful s.content) s actions

instance (actions : List (Action (List (HandlerCall τ W B)) (Choice τ W B))) : Decidable (Careful C s actions) :=
  inferInstanceAs (Decidable (Run.Allowed (step (spec C)) (fun s a => ∀ b ∈ takes s a, b.Careful s.content)
    s actions))

/-- What the action `a` pends while the sleep queue is held is done at the end of the run `after`. -/
structure Done (C : Config) (s : State (Lock W B) (Op τ) (Body τ W B) (Content τ W B) τ)
    (a : Action (List (HandlerCall τ W B)) (Choice τ W B))
    (after : List (Action (List (HandlerCall τ W B)) (Choice τ W B)))
    (s' : State (Lock W B) (Op τ) (Body τ W B) (Content τ W B) τ) : Prop where
  /-- No task sleeps that was due when a SysTick was pended. -/
  woken : takes s a = some .setTimeToWakeup → s'.content.Later s.content.clock
  /-- A sleeping task whose removal was pended has been handed to the ready queue. -/
  removed : ∀ t, takes s a = some (.enqueueDelete t) → t ∈ s.content.timeSortedQueue →
    ∃ u ∈ Run.states (step (spec C)) s (a :: after), HandsOver t u

theorem exec_sleepInv {actions : List (Action (List (HandlerCall τ W B)) (Choice τ W B))} (h : SleepInv idle s)
    (hok : Careful C s actions) (hrun : Run.exec (step (spec C)) s actions = some s') : SleepInv idle s' :=
  Run.exec_inv_of_allowed (SleepInv idle) (fun h hok hstep => h.step hok hstep) h hok hrun

theorem exec_tickPended {actions : List (Action (List (HandlerCall τ W B)) (Choice τ W B))} (h : SleepInv idle s)
    (hpended : TickPended time s) (hok : Careful C s actions) (hheld : StaysGuarded C s actions)
    (hrun : Run.exec (step (spec C)) s actions = some s') : TickPended time s' := by
  have hboth : Run.Allowed (step (spec C)) (fun s a => (∀ b ∈ takes s a, b.Careful s.content) ∧ Guarded s)
    s actions := Run.Allowed.and hok hheld
  exact (Run.exec_inv_of_allowed (fun s => SleepInv idle s ∧ TickPended time s)
    (fun h hok hstep => ⟨h.1.step hok.1 hstep, h.2.step h.1 hok.2 hok.1 hstep⟩) ⟨h, hpended⟩ hboth hrun).2

/-- Without a guard, nothing is pended. -/
theorem SleepInv.released (C : Config) (h : SleepInv idle s) (hreleased : ¬ Guarded s) :
    s.content.deleteBuffer = [] ∧ s.content.timeToWakeup ≠ true := by
  have hno : ∀ i ∈ s.stack, Instr.guardOf .sleep i = false := fun i hi => by
    by_contra hguard
    exact hreleased ⟨i, hi, by simpa using hguard⟩
  refine ⟨?_, fun hflag => ?_⟩
  · by_contra hne
    exact h.removing.idle (looking_removing (C := C)) h.locks.sound hno ⟨rfl, hne⟩
  · exact h.ticked.idle (draining_ticked (C := C)).toLooking h.locks.sound hno ⟨rfl, hflag⟩

/-- In a run whose steps are careful, nothing that was pended stays behind when the sleep queue is
released. -/
theorem exec_noneBehind {actions : List (Action (List (HandlerCall τ W B)) (Choice τ W B))} (hne : idle ≠ main)
    (hok : Careful C (boot idle main priority clock) actions)
    (hrun : Run.exec (step (spec C)) (boot idle main priority clock) actions = some s) (hreleased : ¬ Guarded s) :
    s.content.deleteBuffer = [] ∧ ∀ before a after s₁, actions = before ++ a :: after →
      Run.exec (step (spec C)) (boot idle main priority clock) before = some s₁ → StaysGuarded C s₁ (a :: after) →
      Done C s₁ a after s := by
  have hinv := exec_sleepInv (boot_sleepInv hne) hok hrun
  obtain ⟨hbuffer, hflag⟩ := hinv.released C hreleased
  refine ⟨hbuffer, ?_⟩
  rintro before a after s₁ rfl hbefore ⟨-, hheld⟩
  obtain ⟨s₁', hbefore', hrest⟩ := Run.exec_append.mp hrun
  obtain rfl : s₁ = s₁' := Option.some.inj (hbefore.symm.trans hbefore')
  obtain ⟨s₂, hstep, hafter⟩ := Run.exec_cons.mp hrest
  obtain ⟨hokBefore, hokAfter⟩ := Run.allowed_append.mp hok
  obtain ⟨hcareful, hokAfter⟩ := hokAfter s₁ hbefore
  constructor
  case woken =>
    intro htakes
    have hinv₂ := (exec_sleepInv (boot_sleepInv hne) hokBefore hbefore).step hcareful hstep
    obtain ⟨x, k, c, cs, hk, hexec, rfl⟩ := step_of_takes hstep htakes
    obtain ⟨rfl, -⟩ := Prod.mk.inj (Option.some.inj hexec)
    have hpended : TickPended s₁.content.clock _ := exec_tickPended hinv₂
      ⟨Nat.le_refl _, ⟨_, rfl, Nat.le_refl _⟩, Or.inl rfl⟩ (hokAfter _ hstep) (hheld _ hstep) hafter
    exact (hpended.woken.resolve_left hflag).1
  case removed =>
    intro t htakes hsleeps
    obtain ⟨x, k, c, cs, hk, hexec, rfl⟩ := step_of_takes hstep htakes
    obtain ⟨rfl, -⟩ := Prod.mk.inj (Option.some.inj hexec)
    have hmem : t ∈ s₁.content.deleteBuffer ++ [t] := List.mem_append_right _ (List.mem_singleton_self t)
    rcases Run.exec_until (P := fun s => t ∈ s.content.timeSortedQueue ∧ t ∈ s.content.deleteBuffer)
      (Q := HandsOver t) handsOver_step ⟨hsleeps, hmem⟩ hafter with ⟨u, hu, hhands⟩ | ⟨-, hmem⟩
    · exact ⟨u, by simp [Run.states, hstep, hu], hhands⟩
    · simp [hbuffer] at hmem

/-- The main task waits on a mailbox with a timeout. SysTick finds no task to wake, and before it releases
the sleep queue the mailbox is notified. -/
def notifyLate : List (Action (List (HandlerCall Bool Unit Unit)) (Choice Bool Unit Unit)) :=
  switchToMain ++ [call (.mailWaitUntilTimeout () 5)] ++ List.replicate 22 go ++ [.pendsv] ++
    List.replicate 13 go ++ [.preempt [.sysTick]] ++ List.replicate 6 go ++ [.preempt [.mailNotify ()]] ++
    List.replicate 5 go

/-- SysTick comes again, so that the release of the sleep queue sees the removal. -/
def tickAgain : List (Action (List (HandlerCall Bool Unit Unit)) (Choice Bool Unit Unit)) :=
  List.replicate 11 go ++ [.preempt [.sysTick]] ++ List.replicate 29 go

/-- The main task has been handed to the ready queue. -/
theorem exec_noneBehind_tickAgain : ∃ s₁ s, Run.exec (step (spec ⟨true, 16⟩))
      (boot false true (fun t => if t = true then 3 else 15) 0) notifyLate = some s₁ ∧
    Run.exec (step (spec ⟨true, 16⟩)) (boot false true (fun t => if t = true then 3 else 15) 0)
      (notifyLate ++ go :: tickAgain) = some s ∧
    takes s₁ go = some (.enqueueDelete true) ∧ s₁.content.timeSortedQueue = [true] ∧
    s.content.deleteBuffer = [] ∧ Done ⟨true, 16⟩ s₁ go tickAgain s := by
  have hbefore : (Run.exec (step (spec ⟨true, 16⟩)) (boot false true (fun t => if t = true then 3 else 15) 0)
      notifyLate).map (fun s => (takes s go, s.content.timeSortedQueue,
        decide (StaysGuarded ⟨true, 16⟩ s (go :: tickAgain)))) =
      some (some (.enqueueDelete true), [true], true) := by decide +kernel
  have hrun : (Run.exec (step (spec ⟨true, 16⟩)) (boot false true (fun t => if t = true then 3 else 15) 0)
      (notifyLate ++ go :: tickAgain)).map (fun s => decide (Guarded s)) = some false := by decide +kernel
  obtain ⟨s₁, hbefore, hs₁⟩ := Option.map_eq_some_iff.mp hbefore
  obtain ⟨s, hrun, hs⟩ := Option.map_eq_some_iff.mp hrun
  simp only [Prod.mk.injEq, decide_eq_true_eq] at hs₁
  obtain ⟨htakes, hqueue, hheld⟩ := hs₁
  obtain ⟨hbuffer, hdone⟩ := exec_noneBehind (by decide) (by decide +kernel) hrun (of_decide_eq_false hs)
  exact ⟨s₁, s, hbefore, hrun, htakes, hqueue, hbuffer, hdone _ _ _ _ rfl hbefore hheld⟩

/-- A task is about to be handed to the ready queue. -/
def handsOver : Instr (Lock W B) (Op τ) (Body τ W B) → Bool
  | .code (.access .ready false (.acceptTask _)) => true
  | _ => false

/-- Without another SysTick, the release passes over the removal: the main task goes on sleeping. -/
theorem exec_leavesRemoval : ∃ s₁ s, Run.exec (step (spec ⟨true, 16⟩))
      (boot false true (fun t => if t = true then 3 else 15) 0) notifyLate = some s₁ ∧
    Run.exec (step (spec ⟨true, 16⟩)) (boot false true (fun t => if t = true then 3 else 15) 0)
      (notifyLate ++ go :: List.replicate 16 go) = some s ∧
    takes s₁ go = some (.enqueueDelete true) ∧ s₁.content.timeSortedQueue = [true] ∧
    StaysGuarded ⟨true, 16⟩ s₁ (go :: List.replicate 16 go) ∧ ¬ Guarded s ∧
    s.content.deleteBuffer = [true] ∧ ¬ Done ⟨true, 16⟩ s₁ go (List.replicate 16 go) s := by
  have hbefore : (Run.exec (step (spec ⟨true, 16⟩)) (boot false true (fun t => if t = true then 3 else 15) 0)
      notifyLate).map (fun s => (takes s go, s.content.timeSortedQueue,
        decide (StaysGuarded ⟨true, 16⟩ s (go :: List.replicate 16 go)),
        (Run.states (step (spec ⟨true, 16⟩)) s (go :: List.replicate 16 go)).all fun u =>
          !(u.stack.head?.any handsOver))) =
      some (some (.enqueueDelete true), [true], true, true) := by decide +kernel
  have hrun : (Run.exec (step (spec ⟨true, 16⟩)) (boot false true (fun t => if t = true then 3 else 15) 0)
      (notifyLate ++ go :: List.replicate 16 go)).map (fun s => (decide (Guarded s), s.content.deleteBuffer)) =
      some (false, [true]) := by decide +kernel
  obtain ⟨s₁, hbefore, hs₁⟩ := Option.map_eq_some_iff.mp hbefore
  obtain ⟨s, hrun, hs⟩ := Option.map_eq_some_iff.mp hrun
  simp only [Prod.mk.injEq, decide_eq_true_eq, decide_eq_false_iff_not] at hs₁ hs
  obtain ⟨htakes, hqueue, hheld, hnever⟩ := hs₁
  obtain ⟨hreleased, hbuffer⟩ := hs
  refine ⟨s₁, s, hbefore, hrun, htakes, hqueue, hheld, hreleased, hbuffer, fun hdone => ?_⟩
  obtain ⟨u, hu, k, hk⟩ := hdone.removed true htakes (by simp [hqueue])
  have := List.all_eq_true.mp hnever u hu
  simp [hk, handsOver] at this

end Runs

end Hopter.Kernel
