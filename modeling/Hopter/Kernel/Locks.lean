-- SUMMARY: No access to a kernel queue blocks on itself: soft locks that have to be won are free, and so are the spin locks inside.
import Hopter.Exec.Grounded
import Hopter.Exec.Switch
import Hopter.Kernel.Outcome

/-!
# Locks of the kernel queues

Tasks and PendSV use `must_with_full_access`, which does not return when the soft lock is
held; and the closures of full accesses use `lock_now_or_die` on the spin lock inside the
object. Code of tasks runs below all handlers, so the first always finds its lock free. The
second is held only by closures of full accesses, of which there is one at a time.
-/

namespace Hopter.Kernel

open Exec Hopter.Task

variable {τ W B : Type} [DecidableEq τ] [DecidableEq W] [DecidableEq B]
  {C : Config} {c c' : Content τ W B} {b : Body τ W B} {cs : List (KCode τ W B)}

-- ---------------------------------------------------------------------------
-- Owners of steps
-- ---------------------------------------------------------------------------

/-- The access that a step is part of. -/
def own : Body τ W B → Option (Lock W B × Access)
  | .cleanUp | .popNext | .updateCurTask _ | .clearRequest | .acceptNew _ | .checkPreempt _
  | .pushReady _ | .lockReady | .dequeue | .pushPended _ => some (.ready, .full)
  | .enqueue _ | .enqueueNew _ => some (.ready, .pend)
  | .loadTicks _ | .wakeLoop _ _ | .deleteLoop _ _ | .endWake _ _ | .loadTimeToWakeup
  | .clearTimeToWakeup _ | .pushSorted _ _ | .remove _ => some (.sleep, .full)
  | .setTimeToWakeup | .enqueueDelete _ => some (.sleep, .pend)
  | .pushWait w | .checkCondition w | .popNotify w | .swapNotifyCnt w | .popNotified w _ =>
    some (.waitQueue w, .full)
  | .addNotify w => some (.waitQueue w, .pend)
  | .checkCount m | .checkCountTimeout m _ | .deadline m _ _ | .takeResult m | .takeWaiter m
  | .setNotified m | .swapPendingCount m | .addCount m _ | .takePended m | .subCount m _ =>
    some (.mailbox m, .full)
  | .addPending m => some (.mailbox m, .pend)
  | .unlockSpin l => some (l, .full)
  | .app | .idle | .sleepMs _ | .sleepCheck _ | .addCurTask _ | .waitedUntil _ | .waited _
  | .resumed _ | .waitedTimeout _ | .changeCurrentPriority _ | .changeIntrinsicPriority _
  | .dropCurrentTask | .advanceTick => none

omit [DecidableEq τ] [DecidableEq W] [DecidableEq B] in
theorem forall_not_inner {ds : List (KCode τ W B)} (h : (ds.all fun d => !(Instr.code d).inner own) = true) :
    ∀ d ∈ ds, (Instr.code d).inner own = false :=
  fun d hd => by simpa using List.all_eq_true.mp h d hd

omit [DecidableEq τ] [DecidableEq W] [DecidableEq B] in
theorem inner_callCode (call : Call τ W B) : ∀ d ∈ call.code, (Instr.code d).inner own = false := by
  cases call <;> exact forall_not_inner rfl

omit [DecidableEq τ] [DecidableEq W] [DecidableEq B] in
/-- What holds of the code of every call holds of the code of a handler. -/
theorem forall_handlerCode {P : KCode τ W B → Prop} (h : ∀ call : HandlerCall τ W B, ∀ d ∈ call.code, P d)
    (calls : List (HandlerCall τ W B)) : ∀ d ∈ calls.flatMap HandlerCall.code, P d := by
  intro d hd
  obtain ⟨call, -, hcall⟩ := List.mem_flatMap.mp hd
  exact h call d hcall

omit [DecidableEq τ] [DecidableEq W] [DecidableEq B] in
theorem inner_handlerCode (calls : List (HandlerCall τ W B)) :
    ∀ d ∈ calls.flatMap HandlerCall.code, (Instr.code d).inner own = false :=
  forall_handlerCode (fun call => by cases call <;> exact forall_not_inner rfl) calls

omit [DecidableEq W] [DecidableEq B] in
theorem inner_code (idle t : τ) : ∀ d ∈ code (W := W) (B := B) idle t, (Instr.code d).inner own = false := by
  unfold code
  split <;> exact forall_not_inner rfl

theorem discipline : Discipline own (spec (τ := τ) (W := W) (B := B) C) where
  full l op := by
    change AtMostOne own l .full (fullAccess l op)
    unfold fullAccess
    split <;> first | exact atMostOne_singleton rfl | exact atMostOne_nil _ _
  pended l := by cases l <;> exact atMostOne_singleton rfl
  pend l op := by
    change AtMostOne own l .pend (pendOnlyAccess l op)
    unfold pendOnlyAccess
    split <;> first | exact atMostOne_singleton rfl | exact atMostOne_nil _ _
  handler := inner_handlerCode
  pickNext d hd := by
    obtain rfl := List.mem_singleton.mp hd
    rfl
  exec := by
    intro c b x c' cs hexec
    have haccess : ∀ l must op, ∀ d ∈ [(.access l must op : KCode τ W B)],
        (Instr.code d).inner own = false := fun _ _ _ => forall_not_inner rfl
    cases exec_outcome hexec with
    | app call => exact inner_callCode call
    | @subCount m p => cases p <;> exact atMostOne_singleton rfl
    | _ =>
      first
        | exact atMostOne_singleton rfl
        | exact atMostOne_nil _ _
        | exact atMostOne_concat (haccess _ _ _) rfl
        | exact forall_not_inner rfl

-- ---------------------------------------------------------------------------
-- Soft locks that have to be won
-- ---------------------------------------------------------------------------

/-- Code that only tasks run, outside of accesses. -/
def Body.ofTask : Body τ W B → Bool
  | .app | .sleepMs _ | .sleepCheck _ | .addCurTask _ | .waitedUntil _ | .waited _ | .resumed _
  | .waitedTimeout _ | .changeCurrentPriority _ | .changeIntrinsicPriority _ | .dropCurrentTask => true
  | _ => false

/-- The locks that have to be free when an instruction runs. -/
inductive Needs (W B : Type) where
  | nothing
  | lock (l : Lock W B)
  | sleepAnd (l : Lock W B)
  | all

def Needs.Mem : Needs W B → Lock W B → Prop
  | .nothing, _ => False
  | .lock l', l => l = l'
  | .sleepAnd l', l => l = l' ∨ l = .sleep
  | .all, _ => True

def Needs.isNothing : Needs W B → Bool
  | .nothing => true
  | _ => false

/-- A task that waits with a timeout goes to sleep during its access to the mailbox. -/
def Body.needs : Body τ W B → Needs W B
  | .checkCountTimeout _ _ | .deadline _ _ _ => .lock .sleep
  | b => if b.ofTask = true then .all else .nothing

def Op.needs (l : Lock W B) : Bool → Op τ → Needs W B
  | true, .waitUntilTimeout _ => .sleepAnd l
  | true, _ => .lock l
  | false, .waitUntilTimeout _ => .lock .sleep
  | false, _ => .nothing

def needs : Instr (Lock W B) (Op τ) (Body τ W B) → Needs W B
  | .code (.body b) | .code (.suspended b) => b.needs
  | .code (.access l must op) | .guard l must op => op.needs l must
  | _ => .nothing

def need (i : Instr (Lock W B) (Op τ) (Body τ W B)) (l : Lock W B) : Prop := (needs i).Mem l

omit [DecidableEq τ] [DecidableEq W] [DecidableEq B] in
theorem not_need {i : Instr (Lock W B) (Op τ) (Body τ W B)} {l : Lock W B}
    (h : (needs i).isNothing = true) : ¬ need i l := by
  unfold need
  cases hi : needs i <;> simp_all [Needs.isNothing, Needs.Mem]

omit [DecidableEq τ] [DecidableEq W] [DecidableEq B] in
/-- `must_with_full_access` needs its lock to be free. -/
theorem need_must (l : Lock W B) (op : Op τ) : need (.guard l true op) l := by
  cases op <;> first | exact rfl | exact Or.inl rfl

omit [DecidableEq τ] [DecidableEq W] [DecidableEq B] in
theorem forall_not_need {ds : List (KCode τ W B)}
    (h : (ds.all fun d => (needs (.code d)).isNothing) = true) : ∀ d ∈ ds, ∀ l, ¬ need (.code d) l :=
  fun d hd _ => not_need (List.all_eq_true.mp h d hd)

theorem rooted : Rooted own need (spec (τ := τ) (W := W) (B := B) C) where
  control i l hi := by
    cases i with
    | code d => cases d <;> first | exact not_need rfl | exact absurd hi (by simp [Instr.isControl])
    | guard l must op => simp [Instr.isControl] at hi
    | _ => exact not_need rfl
  guard l must op l' h := h
  suspended b l h := h
  full l must op := by
    change ∀ d ∈ fullAccess l op, _
    -- Only a wait with a timeout passes something on.
    unfold fullAccess
    split
    case h_11 m ms =>
      intro d hd l' h
      obtain rfl := List.mem_singleton.mp hd
      obtain rfl : l' = .sleep := h
      cases must <;> simp [need, needs, Op.needs, Needs.Mem]
    all_goals exact fun d hd l' h => absurd h (forall_not_need rfl d hd l')
  pend l op := by
    change ∀ d ∈ pendOnlyAccess l op, _
    unfold pendOnlyAccess
    split <;> exact fun d hd l' h => absurd h (forall_not_need rfl d hd l')
  pended l := by
    cases l <;> exact forall_not_need rfl
  handler i := forall_handlerCode (fun call => by cases call <;> exact forall_not_need rfl) i
  exec := by
    intro c b x c' cs hexec
    have hstep := exec_outcome hexec
    cases hstep with
    | blockTimeout _ _ _ =>
      intro d hd l h
      obtain rfl := List.mem_singleton.mp hd
      obtain rfl : l = .sleep := h
      exact ⟨rfl, by simp [own]⟩
    | deadline =>
      intro d hd l h
      rcases List.mem_pair.mp hd with rfl | rfl
      · obtain rfl : l = .sleep := h
        exact ⟨rfl, by simp [own]⟩
      · exact absurd h (not_need rfl)
    | @subCount m p => cases p <;> exact fun d hd l' h => absurd h (forall_not_need rfl d hd l')
    | _ =>
      first
        | exact fun d hd l' h => absurd h (forall_not_need rfl d hd l')
        | exact fun _ _ _ _ => ⟨trivial, by simp [own]⟩

-- ---------------------------------------------------------------------------
-- Spin locks
-- ---------------------------------------------------------------------------

/-- The step begins with `lock_now_or_die`. -/
def Body.takesSpin : Body τ W B → Option (Lock W B)
  | .cleanUp | .pushReady _ | .lockReady => some .ready
  | .loadTicks _ | .pushSorted _ _ | .remove _ => some .sleep
  | .pushWait w | .checkCondition w | .popNotify w | .swapNotifyCnt w => some (.waitQueue w)
  | .checkCount m | .checkCountTimeout m _ | .takeResult m | .takeWaiter m | .takePended m =>
    some (.mailbox m)
  | _ => none

/-- The step runs while its closure holds the spin lock. -/
def Body.holdsSpin : Body τ W B → Option (Lock W B)
  | .popNext | .updateCurTask _ | .clearRequest | .dequeue | .pushPended _ => some .ready
  | .wakeLoop _ _ | .deleteLoop _ _ | .endWake _ _ => some .sleep
  | .popNotified w _ => some (.waitQueue w)
  | .deadline m _ _ | .setNotified m | .subCount m _ => some (.mailbox m)
  | .unlockSpin l => some l
  | _ => none

/-- The step ends with the drop of the guard of the spin lock. -/
def Body.dropsSpin : Body τ W B → Option (Lock W B)
  | .endWake _ _ => some .sleep
  | .unlockSpin l => some l
  | _ => none

omit [DecidableEq τ] [DecidableEq W] [DecidableEq B] in
theorem own_of_holdsSpin {l : Lock W B} (h : b.holdsSpin = some l) : own b = some (l, .full) := by
  cases b <;> cases h <;> rfl

omit [DecidableEq τ] [DecidableEq W] [DecidableEq B] in
theorem own_of_takesSpin {l : Lock W B} (h : b.takesSpin = some l) :
    own b = some (l, .full) ∧ b.holdsSpin = none := by
  cases b <;> cases h <;> exact ⟨rfl, rfl⟩

omit [DecidableEq τ] [DecidableEq W] [DecidableEq B] in
theorem takesSpin_of_dropsSpin {l : Lock W B} (h : b.dropsSpin = some l) : b.takesSpin = none := by
  cases b <;> cases h <;> rfl

/-- What a step does to the spin locks. -/
theorem Outcome.spin_eq (h : Outcome C c b c' cs) : c'.spin =
    match b.takesSpin, b.dropsSpin with
    | some l, _ => Function.update c.spin l true
    | none, some l => Function.update c.spin l false
    | none, none => c.spin := by
  cases h with
  | _ => dsimp [Body.takesSpin, Body.dropsSpin]

/-- The spin lock that the code holds at its end. -/
def codeHoldsSpin (cs : List (KCode τ W B)) : Option (Lock W B) :=
  match cs.getLast? with
  | some (.body b) => b.holdsSpin
  | _ => none

/-- A closure that has the spin lock goes on with it until it drops it. -/
theorem Outcome.goesOn {l : Lock W B} (h : Outcome C c b c' cs)
    (hl : b.takesSpin = some l ∨ b.holdsSpin = some l) :
    codeHoldsSpin cs = some l ∨ b.dropsSpin = some l := by
  cases h with
  | @subCount m p => cases p <;> exact Or.inl (hl.resolve_left (by rintro ⟨⟩))
  | _ =>
    rcases hl with hl | hl <;>
      first
        | cases hl; done
        | exact Or.inl hl
        | exact Or.inr hl

omit [DecidableEq τ] [DecidableEq W] [DecidableEq B] in
theorem mem_of_codeHoldsSpin {l : Lock W B} (h : codeHoldsSpin cs = some l) :
    ∃ b : Body τ W B, b.holdsSpin = some l ∧ .body b ∈ cs := by
  unfold codeHoldsSpin at h
  split at h
  · exact ⟨_, h, List.mem_of_getLast? ‹_›⟩
  · exact absurd h (by simp)

/-- A spin lock is held only while its closure is in progress. -/
def SpinHeld (s : State (Lock W B) (Op τ) (Body τ W B) (Content τ W B) τ) : Prop :=
  ∀ l, s.content.spin l = true → ∃ b : Body τ W B, b.holdsSpin = some l ∧ .code (.body b) ∈ s.stack

section Spin

variable {s s' : State (Lock W B) (Op τ) (Body τ W B) (Content τ W B) τ}
  {k : List (Instr (Lock W B) (Op τ) (Body τ W B))}

theorem SpinHeld.body (h : SpinHeld s) (hk : s.stack = .code (.body b) :: k)
    (hstep : Outcome C s.content b c' cs) : SpinHeld { s with content := c', stack := push cs k } := by
  intro l hspin
  -- The closure of the step goes on with the spin lock.
  have hgoesOn : (b.takesSpin = some l ∨ b.holdsSpin = some l) → b.dropsSpin ≠ some l →
      ∃ b' : Body τ W B, b'.holdsSpin = some l ∧ .code (.body b') ∈ push cs k := by
    intro hl hdrop
    obtain ⟨b', hb', hmem⟩ := mem_of_codeHoldsSpin ((hstep.goesOn hl).resolve_right hdrop)
    exact ⟨b', hb', List.mem_append_left _ (List.mem_map_of_mem hmem)⟩
  have hdrop : b.dropsSpin ≠ some l := by
    intro hdrop
    have hfree : c'.spin l = false := by
      simp [hstep.spin_eq, takesSpin_of_dropsSpin hdrop, hdrop]
    exact absurd hspin (by simp [hfree])
  by_cases hb : b.takesSpin = some l ∨ b.holdsSpin = some l
  · exact hgoesOn hb hdrop
  · have hbefore : s.content.spin l = true := by
      have heq := hstep.spin_eq
      cases htakes : b.takesSpin with
      | some l' =>
        have hne : l ≠ l' := by
          rintro rfl
          exact hb (Or.inl htakes)
        simpa [heq, htakes, hne] using hspin
      | none =>
        cases hdrops : b.dropsSpin with
        | some l' =>
          have hne : l ≠ l' := by
            rintro rfl
            exact hdrop hdrops
          simpa [heq, htakes, hdrops, hne] using hspin
        | none => simpa [heq, htakes, hdrops] using hspin
    obtain ⟨b', hb', hmem⟩ := h l hbefore
    rw [hk] at hmem
    rcases List.mem_cons.mp hmem with heq | hmem
    · obtain rfl : b' = b := by simpa using heq
      exact absurd (Or.inr hb') hb
    · exact ⟨b', hb', List.mem_append_right _ hmem⟩

theorem SpinHeld.control (hsound : Sound own s) (h : SpinHeld s) (hstep : Control (spec C) s s') :
    SpinHeld s' := by
  intro l hspin
  rw [hstep.content_eq] at hspin
  obtain ⟨b, hb, hmem⟩ := h l hspin
  exact ⟨b, hb, hstep.mem_of_own hsound (by simp [own_of_holdsSpin hb]) hmem⟩

omit [DecidableEq τ] in
/-- A step that takes a spin lock finds it free. -/
theorem SpinHeld.free {l : Lock W B} (hsound : Sound own s) (h : SpinHeld s)
    (hk : s.stack = .code (.body b) :: k) (hb : b.takesSpin = some l) : s.content.spin l = false := by
  obtain ⟨hown, hholds⟩ := own_of_takesSpin hb
  by_contra hspin
  obtain ⟨b', hb', hmem⟩ := h l (by simpa using hspin)
  rw [hk] at hmem
  rcases List.mem_cons.mp hmem with heq | hmem
  · obtain rfl : b' = b := by simpa using heq
    simp [hholds] at hb'
  · exact hsound.exclusive hk hown (Or.inl hmem) (own_of_holdsSpin hb')

end Spin

-- ---------------------------------------------------------------------------
-- Accesses that there are, and code that holds no suspension guard
-- ---------------------------------------------------------------------------

/-- The kernel makes such accesses. -/
def Op.proper : Lock W B → Bool → Op τ → Bool
  | .ready, true, .pickNext | .ready, false, .acceptTask _ | .ready, false, .acceptNewTask _
  | .sleep, false, .wakeSleepingTasks | .sleep, true, .addTask _ _ | .sleep, false, .removeTask _
  | .waitQueue _, true, .wait | .waitQueue _, true, .waitUntil | .waitQueue _, false, .notify
  | .mailbox _, true, .wait | .mailbox _, true, .waitUntilTimeout _ | .mailbox _, true, .timeoutOver
  | .mailbox _, false, .notify => true
  | _, _, _ => false

/-- The step runs with the scheduler suspended, outside of accesses. -/
def Body.suspends : Body τ W B → Bool
  | .addCurTask _ | .changeIntrinsicPriority _ | .dropCurrentTask => true
  | _ => false

def proper : Instr (Lock W B) (Op τ) (Body τ W B) → Bool
  | .code (.access l must op) | .guard l must op => op.proper l must
  | .code (.suspended b) => b.suspends
  | _ => true

/-- Code of tasks that holds no suspension guard. -/
def isCalm : Instr (Lock W B) (Op τ) (Body τ W B) → Bool
  | .code .mayBlock | .code .yield => true
  | .code (.body b) => b.ofTask && !b.suspends
  | _ => false

def calm (i : Instr (Lock W B) (Op τ) (Body τ W B)) : Prop := isCalm i = true

omit [DecidableEq τ] [DecidableEq W] [DecidableEq B] in
theorem forall_not_calm {ds : List (KCode τ W B)} (h : (ds.all fun d => !isCalm (.code d)) = true) :
    ∀ d ∈ ds, ¬ calm (.code d) := by
  intro d hd hcalm
  have := List.all_eq_true.mp h d hd
  simp [show isCalm (.code d) = true from hcalm] at this

omit [DecidableEq τ] [DecidableEq W] [DecidableEq B] in
theorem forall_proper {ds : List (KCode τ W B)} (h : (ds.all fun d => proper (.code d)) = true) :
    ∀ d ∈ ds, proper (.code d) = true :=
  List.all_eq_true.mp h

omit [DecidableEq τ] [DecidableEq W] [DecidableEq B] in
theorem proper_callCode (call : Call τ W B) : ∀ d ∈ call.code, proper (.code d) = true := by
  cases call <;> exact forall_proper rfl

omit [DecidableEq W] [DecidableEq B] in
theorem proper_code (idle t : τ) : ∀ d ∈ code (W := W) (B := B) idle t, proper (.code d) = true := by
  unfold code
  split <;> exact forall_proper rfl

theorem hereditary_proper :
    Hereditary (spec (τ := τ) (W := W) (B := B) C) (fun i => proper i = true) where
  control i hi := by
    cases i with
    | code d => cases d <;> first | rfl | exact absurd hi (by simp [Instr.isControl])
    | guard l must op => simp [Instr.isControl] at hi
    | _ => rfl
  guard l must op h := h
  suspended b h := rfl
  full l must op h := by
    change ∀ d ∈ fullAccess l op, _
    unfold fullAccess
    split <;> exact forall_proper rfl
  pend l must op h := by
    change ∀ d ∈ pendOnlyAccess l op, _
    unfold pendOnlyAccess
    split <;> exact forall_proper rfl
  pended l := by cases l <;> exact forall_proper rfl
  handler := forall_handlerCode fun call => by cases call <;> exact forall_proper rfl
  pickNext := forall_proper rfl

theorem Outcome.proper (h : Outcome C c b c' cs) : ∀ d ∈ cs, proper (.code d) = true := by
  cases h with
  | app call => exact proper_callCode call
  | _ => exact forall_proper rfl

theorem calm_spec : Calm (spec (τ := τ) (W := W) (B := B) C) calm where
  control i hi h := by
    cases i with
    | code d =>
      cases d with
      | mayBlock => exact Or.inl rfl
      | yield => exact Or.inr rfl
      | _ => simp [Instr.isControl] at hi
    | guard l must op => simp [Instr.isControl] at hi
    | _ => cases h
  guard l must op := nofun
  full l op := by
    change ∀ d ∈ fullAccess l op, _
    unfold fullAccess
    split <;> exact forall_not_calm rfl
  pend l op := by
    change ∀ d ∈ pendOnlyAccess l op, _
    unfold pendOnlyAccess
    split <;> exact forall_not_calm rfl
  pended l := by cases l <;> exact forall_not_calm rfl
  handler := forall_handlerCode fun call => by cases call <;> exact forall_not_calm rfl
  pickNext := forall_not_calm rfl
  exec := by
    intro c b x c' cs hexec
    have hstep := exec_outcome hexec
    cases hstep with
    | @subCount m p => cases p <;> exact fun d hd h => absurd h (forall_not_calm rfl d hd)
    | _ =>
      first
        | exact fun _ _ _ => rfl
        | exact fun d hd h => absurd h (forall_not_calm rfl d hd)

-- ---------------------------------------------------------------------------
-- Runs
-- ---------------------------------------------------------------------------

section Runs

variable {s s' : State (Lock W B) (Op τ) (Body τ W B) (Content τ W B) τ} {idle main : τ}
  {priority : τ → Nat} {clock : Nat}

structure LockInv (s : State (Lock W B) (Op τ) (Body τ W B) (Content τ W B) τ) : Prop where
  sound : Sound own s
  grounded : Grounded own need s.stack
  spin : SpinHeld s
  proper : Everywhere (fun i => proper i = true) s
  quiet : Quiet calm s.stack
  unheld : s.pendsv = true → Unheld s.stack

omit [DecidableEq τ] in
/-- Steps that run with the scheduler suspended are not calm. -/
theorem LockInv.suspended (h : LockInv s) {b : Body τ W B} {k : List (Instr (Lock W B) (Op τ) (Body τ W B))}
    (hk : s.stack = .code (.suspended b) :: k) : ¬ calm (.code (.body b)) := by
  have hmem : .code (.suspended b) ∈ s.stack := by simp [hk]
  have hb : b.suspends = true := h.proper.1 (.code (.suspended b)) hmem
  simp [calm, isCalm, hb]

theorem LockInv.step {a : Action (List (HandlerCall τ W B)) (Choice τ W B)} (h : LockInv s)
    (hstep : step (spec C) s a = some s') : LockInv s' := by
  refine ⟨h.sound.step discipline hstep, ?_, ?_, ?_, ?_, ?_⟩
  · rcases step_cases hstep with ⟨x, b, k, c, cs, hk, hexec, rfl⟩ | hcontrol
    · exact h.grounded.body discipline rooted hk hexec
    · exact h.grounded.control discipline rooted h.sound hcontrol
  · rcases step_cases hstep with ⟨x, b, k, c, cs, hk, hexec, rfl⟩ | hcontrol
    · exact h.spin.body hk (exec_outcome hexec)
    · exact h.spin.control h.sound hcontrol
  · rcases step_cases hstep with ⟨x, b, k, c, cs, hk, hexec, rfl⟩ | hcontrol
    · exact h.proper.body hk (fun _ => (exec_outcome hexec).proper) fun _ _ hi => hi
    · exact h.proper.control hereditary_proper hcontrol
  · rcases step_cases hstep with ⟨x, b, k, c, cs, hk, hexec, rfl⟩ | hcontrol
    · exact h.quiet.body calm_spec hk hexec
    · exact h.quiet.control calm_spec h.sound (fun _ _ => h.suspended) hcontrol
  · have hyield : calm (.code .yield : Instr (Lock W B) (Op τ) (Body τ W B)) := rfl
    exact Unheld.step hyield h.sound h.quiet h.unheld hstep

theorem boot_lockInv :
    LockInv (boot idle main priority clock : State (Lock W B) (Op τ) (Body τ W B) (Content τ W B) τ) := by
  refine ⟨init_sound (inner_code idle), Grounded.init (inner_code idle), fun l hspin => ?_,
    Everywhere.init (proper_code idle), quiet_of_forall ?_, fun hpendsv => ?_⟩
  · simp [boot, init, start] at hspin
  · exact forall_mem_push (fun _ _ => ⟨rfl, rfl⟩) (by simp)
  · simp [boot, init] at hpendsv

theorem exec_lockInv {actions : List (Action (List (HandlerCall τ W B)) (Choice τ W B))}
    (hrun : Run.exec (step (spec C)) (boot idle main priority clock) actions = some s) : LockInv s :=
  Run.exec_inv LockInv (fun h hstep => h.step hstep) boot_lockInv hrun

/-- No access to a queue blocks on itself. -/
structure NoSelfDeadlock (s : State (Lock W B) (Op τ) (Body τ W B) (Content τ W B) τ) : Prop where
  /-- `must_with_full_access` wins its lock. -/
  must : ∀ l op k, s.stack = .guard l true op :: k → (s.flags l).locked = false
  /-- `lock_now_or_die` succeeds. -/
  spin : ∀ b l k, s.stack = .code (.body b) :: k → b.takesSpin = some l → s.content.spin l = false
  /-- When PendSV is about to switch tasks, the scheduler is not suspended. -/
  switch : s.pendsv = true → taskLevel s.stack = true → s.suspendCnt = 0

theorem exec_noSelfDeadlock {actions : List (Action (List (HandlerCall τ W B)) (Choice τ W B))}
    (hrun : Run.exec (step (spec C)) (boot idle main priority clock) actions = some s) :
    NoSelfDeadlock s := by
  have h := exec_lockInv hrun
  refine ⟨fun l op k hk => ?_, fun b l k hk hb => h.spin.free h.sound hk hb, fun hpendsv htask => ?_⟩
  · exact h.grounded.free h.sound hk (need_must l op)
  · exact (h.unheld hpendsv).suspendCnt_eq_zero h.sound htask

/-- The next step of the innermost context. -/
def go : Action (List (HandlerCall Bool Unit Unit)) (Choice Bool Unit Unit) := .run ⟨.yieldCurrent, false⟩

/-- The current task calls the kernel. -/
def call (call : Call Bool Unit Unit) :
    Action (List (HandlerCall Bool Unit Unit)) (Choice Bool Unit Unit) := .run ⟨call, false⟩

/-- The idle task `false` yields at the start, and the main task `true` is switched to. -/
def switchToMain : List (Action (List (HandlerCall Bool Unit Unit)) (Choice Bool Unit Unit)) :=
  [go, .pendsv] ++ List.replicate 13 go

/-- The main task waits on a mailbox with a timeout, and is about to enter the sleep queue. -/
theorem exec_noSelfDeadlock_mailbox :
    ∃ s, Run.exec (step (spec ⟨true, 16⟩)) (boot false true (fun _ => 0) 0)
        (switchToMain ++ [call (.mailWaitUntilTimeout () 5)] ++ List.replicate 6 go) = some s ∧
      s.stack.head? = some (.guard .sleep true (.addTask true 5)) ∧ NoSelfDeadlock s := by
  obtain ⟨s, hrun, hstack⟩ : ∃ s, Run.exec (step (spec ⟨true, 16⟩)) (boot false true (fun _ => 0) 0)
      (switchToMain ++ [call (.mailWaitUntilTimeout () 5)] ++ List.replicate 6 go) = some s ∧
      s.stack.head? = some (.guard .sleep true (.addTask true 5)) := ⟨_, rfl, rfl⟩
  exact ⟨s, hrun, hstack, exec_noSelfDeadlock hrun⟩

end Runs

end Hopter.Kernel
