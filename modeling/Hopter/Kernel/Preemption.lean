-- SUMMARY: No preemption is lost: between its calls of the kernel, a task runs only when no ready task has a higher priority.
import Hopter.Kernel.Locks

/-!
# Preemption

A ready task with a higher priority than the current one asks for a context switch: when it
is put into the ready list (`checkPreempt`, `pushPended`), by the flag `PENDING_CTXT_SWITCH`.
`pick_next` clears the flag when it has made a task current that no ready task beats. Until
the switch is made, something of the following is there: the flag, the pending PendSV, a
`pick_next` that has not chosen yet, or a task that is about to yield.
-/

namespace Hopter.Kernel

open Exec Hopter.Task

variable {τ W B : Type} [DecidableEq τ] [DecidableEq W] [DecidableEq B]
  {C : Config} {c c' : Content τ W B} {b : Body τ W B} {cs : List (KCode τ W B)}
  {s s' : State (Lock W B) (Op τ) (Body τ W B) (Content τ W B) τ}
  {k : List (Instr (Lock W B) (Op τ) (Body τ W B))}

-- ---------------------------------------------------------------------------
-- Tasks in the insert buffer
-- ---------------------------------------------------------------------------

/-- There are tasks to put into the ready list. -/
def Buffered (c : Content τ W B) (l : Lock W B) : Prop := l = .ready ∧ c.insertBuffer ≠ []

/-- The steps of `run_pended_op` of the ready queue that go on with the insert buffer. -/
def looksBuffer : Body τ W B → Option (Lock W B)
  | .lockReady | .dequeue | .pushPended _ => some .ready
  | _ => none

theorem Outcome.insertBuffer (h : Outcome C c b c' cs) (hne : c'.insertBuffer ≠ []) :
    c.insertBuffer ≠ [] ∨ own b = some (.ready, .pend) := by
  cases h with
  | dequeue hbuffer => exact Or.inl (by simp [hbuffer])
  | enqueue => exact Or.inr rfl
  | enqueueNew _ => exact Or.inr rfl
  | _ =>
    dsimp at hne
    exact Or.inl hne

theorem draining : Draining own (spec (τ := τ) (W := W) (B := B) C) Buffered looksBuffer where
  owned {b l} h := by cases b <;> cases h <;> rfl
  pended := by
    rintro c l ⟨rfl, -⟩
    exact ⟨.lockReady, rfl, List.mem_singleton_self _⟩
  grow := by
    rintro c b x c' cs l hexec ⟨rfl, hne⟩
    rcases (exec_outcome hexec).insertBuffer hne with hold | hown
    · exact Or.inl ⟨rfl, hold⟩
    · exact Or.inr hown
  goOn := by
    rintro c b x c' cs l hexec hlooks ⟨rfl, hne⟩
    have hstep := exec_outcome hexec
    cases hstep with
    | lockReady _ => exact ⟨.dequeue, rfl, List.mem_singleton_self _⟩
    | dequeue _ => exact ⟨.pushPended _, rfl, List.mem_singleton_self _⟩
    | pushPended _ => exact ⟨.dequeue, rfl, List.mem_singleton_self _⟩
    | dequeueNone hbuffer => exact absurd hbuffer hne
    | _ => cases hlooks

-- ---------------------------------------------------------------------------
-- What steps leave alone
-- ---------------------------------------------------------------------------

theorem Outcome.readyLinkedList_eq (h : Outcome C c b c' cs) (hb : own b ≠ some (.ready, .full)) :
    c'.readyLinkedList = c.readyLinkedList := by
  cases h with
  | cleanUpRunning | popNext | pushReady | pushPended => exact absurd rfl hb
  | _ => dsimp

theorem Outcome.priority_eq (h : Outcome C c b c' cs) (hb : ∀ p, b ≠ .changeIntrinsicPriority p) :
    c'.priority = c.priority := by
  cases h with
  | changeIntrinsicPriority => exact absurd rfl (hb _)
  | _ => dsimp

theorem Outcome.cur_eq (h : Outcome C c b c' cs) (hb : ∀ t, b ≠ .updateCurTask t) :
    c'.cur = c.cur := by
  cases h with
  | updateCurTask => exact absurd rfl (hb _)
  | _ => dsimp

theorem Outcome.switchDue_of (h : Outcome C c b c' cs) (hb : b ≠ .clearRequest)
    (hdue : c.switchDue = true) : c'.switchDue = true := by
  cases h with
  | clearRequest => exact absurd rfl hb
  | checkPreempt | pushPended => simp [hdue]
  | _ => simpa using hdue

/-- Only steps of accesses to the ready queue ask for a context switch. -/
theorem Outcome.switchDue_cases (h : Outcome C c b c' cs) (hdue : c'.switchDue = true) :
    c.switchDue = true ∨ own b = some (.ready, .full) := by
  cases h with
  | checkPreempt => exact Or.inr rfl
  | pushPended => exact Or.inr rfl
  | clearRequest => exact Or.inr rfl
  | _ => exact Or.inl (by simpa using hdue)

-- ---------------------------------------------------------------------------
-- The best ready task
-- ---------------------------------------------------------------------------

/-- No ready task has a higher priority. -/
def Content.Best (c : Content τ W B) (t : τ) : Prop :=
  ∀ u ∈ c.readyLinkedList, c.priority t ≤ c.priority u

omit [DecidableEq τ] [DecidableEq W] [DecidableEq B] in
/-- A task that does not preempt the current one is put into the ready list. -/
theorem Content.Best.append {t : τ} (h : c.Best c.cur) (ht : ¬ c.priority t < c.priority c.cur) :
    ∀ u ∈ c.readyLinkedList ++ [t], c.priority c.cur ≤ c.priority u := by
  intro u hu
  rcases List.mem_append.mp hu with hu | hu
  · exact h u hu
  · obtain rfl := List.mem_singleton.mp hu
    exact Nat.le_of_not_lt ht

/-- What the steps that are in progress rely on. -/
def Body.Settled (c : Content τ W B) : Body τ W B → Prop
  | .updateCurTask t => c.Best t
  | .clearRequest => c.Best c.cur
  | .pushReady t => c.priority t < c.priority c.cur → c.switchDue = true
  | _ => True

def Settled (c : Content τ W B) : Instr (Lock W B) (Op τ) (Body τ W B) → Prop
  | .code (.body b) | .code (.suspended b) => b.Settled c
  | _ => True

/-- `pick_next` has not made its choice yet. -/
def chooses : Instr (Lock W B) (Op τ) (Body τ W B) → Bool
  | .code (.access .ready true .pickNext) | .guard .ready true .pickNext | .code (.body .cleanUp)
  | .code (.body .popNext) | .code (.body (.updateCurTask _)) => true
  | _ => false

/-- The current task is the best one, or a context switch is on its way. -/
def Prompt (s : State (Lock W B) (Op τ) (Body τ W B) (Content τ W B) τ) : Prop :=
  s.content.Best s.content.cur ∨ s.content.switchDue = true ∨ s.pendsv = true ∨
    (∃ i ∈ s.stack, chooses i = true) ∨ .code .yield ∈ s.stack

omit [DecidableEq τ] [DecidableEq W] [DecidableEq B] in
theorem Prompt.keep (h : Prompt s) (hk : s.stack = .code (.body b) :: k)
    (hb : chooses (.code (.body b) : Instr (Lock W B) (Op τ) (Body τ W B)) = false)
    (hbest : s.content.Best s.content.cur → c'.Best c'.cur ∨ c'.switchDue = true)
    (hdue : s.content.switchDue = true → c'.switchDue = true) :
    Prompt { s with content := c', stack := push cs k } := by
  rcases h with hbest' | hdue' | hp | ⟨i, hi, hchooses⟩ | hyield
  · exact (hbest hbest').imp_right Or.inl
  · exact Or.inr (Or.inl (hdue hdue'))
  · exact Or.inr (Or.inr (Or.inl hp))
  · rw [hk] at hi
    rcases List.mem_cons.mp hi with rfl | hi
    · rw [hb] at hchooses
      exact absurd hchooses (by simp)
    · exact Or.inr (Or.inr (Or.inr (Or.inl ⟨i, List.mem_append_right _ hi, hchooses⟩)))
  · rw [hk] at hyield
    exact Or.inr (Or.inr (Or.inr (Or.inr (List.mem_append_right _ (by simpa using hyield)))))

-- ---------------------------------------------------------------------------
-- Steps
-- ---------------------------------------------------------------------------

omit [DecidableEq τ] [DecidableEq W] [DecidableEq B] in
theorem settled_of_own (h : own b ≠ some (.ready, .full)) : b.Settled c := by
  cases b <;> first | exact trivial | exact absurd rfl h

/-- The code relies on nothing. -/
def plain : KCode τ W B → Bool
  | .body b | .suspended b =>
    match b with
    | .updateCurTask _ | .clearRequest | .pushReady _ => false
    | _ => true
  | _ => true

omit [DecidableEq τ] [DecidableEq W] [DecidableEq B] in
theorem forall_plain {ds : List (KCode τ W B)} (h : ds.all plain = true) :
    ∀ d ∈ ds, Settled c (.code d) := by
  intro d hd
  have hplain := List.all_eq_true.mp h d hd
  cases d with
  | body b | suspended b => cases b <;> first | exact trivial | cases hplain
  | access l must op => trivial
  | mayBlock => trivial
  | yield => trivial

/-- What a step establishes for the step that it goes on with. -/
theorem Outcome.settled (hC : C.allowTaskPreemption = true) (h : Outcome C c b c' cs)
    (hb : b.Settled c) : ∀ d ∈ cs, Settled c' (.code d) := by
  cases h with
  | @popNext t rest hpop =>
    -- `pop_highest_priority` leaves nothing better behind.
    have hne : c.readyLinkedList ≠ [] := by
      intro hnil
      simp [hnil] at hpop
    obtain ⟨u, rest', hpop', hperm, hmin⟩ := popHighestPriority_spec c.priority hne
    obtain ⟨rfl, rfl⟩ : t = u ∧ rest = rest' := by
      rw [hpop] at hpop'
      simpa using hpop'
    refine List.forall_mem_singleton.mpr fun u hu => hmin u ?_
    exact hperm.mem_iff.mpr (List.mem_cons_of_mem _ hu)
  | updateCurTask => exact List.forall_mem_singleton.mpr hb
  | @checkPreempt t =>
    refine List.forall_mem_singleton.mpr fun hlt => ?_
    have hpreempt : c.shouldPreempt C t = true := by
      simpa [Content.shouldPreempt, hC] using hlt
    simp [hpreempt]
  | app call => cases call <;> exact forall_plain rfl
  | @subCount m p => cases p <;> exact forall_plain rfl
  | _ => exact forall_plain rfl

theorem settled_body (hC : C.allowTaskPreemption = true) (hinv : LockInv s)
    (h : Everywhere (Settled s.content) s) (hk : s.stack = .code (.body b) :: k)
    (hstep : Outcome C s.content b c' cs) :
    Everywhere (Settled c') { s with content := c', stack := push cs k } := by
  refine h.body hk (fun hb => hstep.settled hC hb) fun i hi hsettled => ?_
  -- Where no step of a full access to the ready queue is in progress, nothing is relied on.
  have hidle : (∀ b', i = .code (.body b') → own b' ≠ some (.ready, .full)) → Settled c' i := by
    intro hown
    cases i with
    | code d =>
      cases d with
      | body b' => exact settled_of_own (hown b' rfl)
      | suspended b' =>
        have hproper : proper (.code (.suspended b')) = true := by
          rcases hi with hi | ⟨t, hi⟩
          · exact hinv.proper.1 _ (by rw [hk]; exact List.mem_cons_of_mem _ hi)
          · exact hinv.proper.2 t _ hi
        cases b' <;> first | exact trivial | cases hproper
      | _ => trivial
    | _ => trivial
  by_cases hready : own b = some (.ready, .full)
  · refine hidle fun b' heq => ?_
    subst heq
    exact hinv.sound.exclusive hk hready hi
  · by_cases hprio : ∃ p, b = .changeIntrinsicPriority p
    · obtain ⟨p, rfl⟩ := hprio
      refine hidle fun b' heq hown => ?_
      subst heq
      rcases hi with hi | ⟨t, hi⟩
      · -- A task that changes its priority is not inside an access.
        have hgrounded := hinv.grounded
        rw [hk] at hgrounded
        have hnil := hgrounded.1 .ready trivial
        rw [marks, List.filterMap_eq_nil_iff] at hnil
        have := hnil _ hi
        simp [Instr.mark, Code.mark, hown] at this
      · have := (hinv.sound.saved t _ hi).1
        simp [Instr.inner, hown] at this
    · have hlist := hstep.readyLinkedList_eq hready
      have hpriority := hstep.priority_eq fun p heq => hprio ⟨p, heq⟩
      have hcur := hstep.cur_eq fun t heq => hready (by rw [heq]; rfl)
      have hdue := hstep.switchDue_of fun heq => hready (by rw [heq]; rfl)
      cases i with
      | code d =>
        cases d with
        | body b' | suspended b' =>
          cases b' with
          | updateCurTask t => simpa [Settled, Body.Settled, Content.Best, hlist, hpriority] using hsettled
          | clearRequest =>
            simpa [Settled, Body.Settled, Content.Best, hlist, hpriority, hcur] using hsettled
          | pushReady t =>
            intro hlt
            rw [hpriority, hcur] at hlt
            exact hdue (hsettled hlt)
          | _ => trivial
        | _ => trivial
      | _ => trivial

/-- The current task is about to change its priority. -/
def changesPriority : Instr (Lock W B) (Op τ) (Body τ W B) → Bool
  | .code (.body (.changeIntrinsicPriority _)) | .code (.suspended (.changeIntrinsicPriority _)) => true
  | _ => false

omit [DecidableEq τ] [DecidableEq W] [DecidableEq B] in
/-- The code changes no priority, or yields at once afterwards. -/
theorem forall_not_changes {ds : List (KCode τ W B)}
    (h : (ds.all fun d => !changesPriority (.code d)) = true) :
    ∀ d ∈ ds, ¬ changesPriority (.code d) = true :=
  fun d hd => by simpa using List.all_eq_true.mp h d hd

omit [DecidableEq τ] [DecidableEq W] [DecidableEq B] in
theorem follows_of_all {ds : List (KCode τ W B)}
    (h : (ds.all fun d => !changesPriority (.code d)) = true) :
    Follows (fun i => changesPriority i = true) (· = .code .yield) (push ds []) :=
  Follows.push trivial (forall_not_changes h)

/-- A task that changes its priority yields afterwards. -/
theorem leads : Leads (spec (τ := τ) (W := W) (B := B) C) (fun i => changesPriority i = true)
    (· = .code .yield) where
  control i hi := by
    cases i with
    | code d => cases d <;> first | exact Bool.false_ne_true | exact absurd hi (by simp [Instr.isControl])
    | _ => exact Bool.false_ne_true
  guard l must op := Bool.false_ne_true
  suspended b h := by cases b <;> exact h
  full l op := by
    change ∀ d ∈ fullAccess l op, _
    unfold fullAccess
    split <;> exact forall_not_changes rfl
  pend l op := by
    change ∀ d ∈ pendOnlyAccess l op, _
    unfold pendOnlyAccess
    split <;> exact forall_not_changes rfl
  pended l := by cases l <;> exact forall_not_changes rfl
  handler := forall_handlerCode fun call => by cases call <;> exact forall_not_changes rfl
  pickNext := forall_not_changes rfl
  exec := by
    intro c b x c' cs hexec
    have hstep := exec_outcome hexec
    cases hstep with
    | app call => cases call <;> exact follows_of_all rfl
    | @subCount m p => cases p <;> exact follows_of_all rfl
    | changePriority _ =>
      exact ⟨fun _ => ⟨_, List.mem_singleton_self _, rfl⟩, fun h => absurd h Bool.false_ne_true, trivial⟩
    | _ => exact follows_of_all rfl

theorem Prompt.body (hC : C.allowTaskPreemption = true)
    (hfollows : FollowsEverywhere (fun i => changesPriority i = true) (· = .code .yield) s)
    (hsettled : Everywhere (Settled s.content) s) (h : Prompt s) (hk : s.stack = .code (.body b) :: k)
    (hstep : Outcome C s.content b c' cs) : Prompt { s with content := c', stack := push cs k } := by
  have hb : b.Settled s.content := hsettled.1 (.code (.body b)) (by simp [hk])
  -- `pick_next` goes on choosing.
  have hchoosing : ∀ {b'}, chooses (.code (.body b') : Instr (Lock W B) (Op τ) (Body τ W B)) = true →
      cs = [.body b'] → Prompt { s with content := c', stack := push cs k } := by
    rintro b' hb' rfl
    exact Or.inr (Or.inr (Or.inr (Or.inl ⟨_, List.mem_cons_self .., hb'⟩)))
  by_cases hready : own b = some (.ready, .full)
  · cases hstep with
    | cleanUpRunning | cleanUp | popNext => exact hchoosing rfl rfl
    | updateCurTask => exact Or.inl hb
    | clearRequest => exact Or.inl hb
    | @pushReady t _ _ =>
      refine h.keep hk rfl (fun hbest => ?_) fun hdue => hdue
      by_cases hlt : s.content.priority t < s.content.priority s.content.cur
      · exact Or.inr (hb hlt)
      · exact Or.inl (hbest.append hlt)
    | @pushPended t _ =>
      refine h.keep hk rfl (fun hbest => ?_) fun hdue => by simp [hdue]
      by_cases hlt : s.content.priority t < s.content.priority s.content.cur
      · exact Or.inr (by simp [Content.shouldPreempt, hC, hlt])
      · exact Or.inl (hbest.append hlt)
    | checkPreempt => exact h.keep hk rfl (fun hbest => Or.inl hbest) fun hdue => by simp [hdue]
    | acceptNew | lockReady | dequeueNone | dequeue | unlockSpin =>
      exact h.keep hk rfl (fun hbest => Or.inl fun u hu => hbest u hu) fun hdue => hdue
    | _ => cases hready
  · by_cases hprio : ∃ p, b = .changeIntrinsicPriority p
    · obtain ⟨p, rfl⟩ := hprio
      -- A task that has changed its priority is about to yield.
      have hfollow := hfollows.1
      rw [hk] at hfollow
      obtain ⟨j, hj, rfl⟩ := hfollow.1 rfl
      exact Or.inr (Or.inr (Or.inr (Or.inr (List.mem_append_right _ hj))))
    · have hlist := hstep.readyLinkedList_eq hready
      have hpriority := hstep.priority_eq fun p heq => hprio ⟨p, heq⟩
      have hcur := hstep.cur_eq fun t heq => hready (by rw [heq]; rfl)
      have hdue := hstep.switchDue_of fun heq => hready (by rw [heq]; rfl)
      have hb' : chooses (.code (.body b) : Instr (Lock W B) (Op τ) (Body τ W B)) = false := by
        cases b <;> first | rfl | exact absurd rfl hready
      refine h.keep hk hb' (fun hbest => Or.inl ?_) hdue
      simpa [Content.Best, hlist, hpriority, hcur] using hbest

/-- While a choice is to be made, the access to the ready queue leads on to it. -/
theorem chooses_run {i : Instr (Lock W B) (Op τ) (Body τ W B)} {x : Choice τ W B} (hi : chooses i = true)
    (hbody : ∀ b, i ≠ .code (.body b)) (hrun : runInstr (spec C) s x k i = some s') :
    ∃ j ∈ s'.stack, chooses j = true := by
  rcases i with (⟨b⟩ | ⟨l, must, op⟩ | _ | _ | _) | ⟨l, must, op⟩ | _ | _ | _ | _ | _ | _ | _ | _ | _ <;>
    try cases hi
  · exact absurd rfl (hbody b)
  · obtain rfl := Option.some.inj hrun
    exact ⟨.guard l must op, List.mem_cons_self .., by cases l <;> cases must <;> cases op <;> exact hi⟩
  · cases l <;> cases must <;> cases op <;> try cases hi
    simp only [runInstr] at hrun
    split at hrun
    · obtain rfl := Option.some.inj hrun
      exact ⟨.code (.body .cleanUp), List.mem_cons_self .., rfl⟩
    · exact absurd hrun (by simp)

theorem Prompt.step {a : Action (List (HandlerCall τ W B)) (Choice τ W B)}
    (hC : C.allowTaskPreemption = true)
    (hfollows : FollowsEverywhere (fun i => changesPriority i = true) (· = .code .yield) s)
    (hsettled : Everywhere (Settled s.content) s) (h : Prompt s)
    (hstep : step (spec C) s a = some s') : Prompt s' := by
  have hbody : ∀ {b k x c cs}, s.stack = .code (.body b) :: k →
      (spec C).exec s.content b x = some (c, cs) → Prompt { s with content := c, stack := push cs k } :=
    fun hk hexec => h.body hC hfollows hsettled hk (exec_outcome hexec)
  have hchoosing : s'.stack = push (spec C).pickNext [.restore] → Prompt s' := by
    intro hk
    refine Or.inr (Or.inr (Or.inr (Or.inl ⟨.code (.access .ready true .pickNext), ?_, rfl⟩)))
    simp [hk, spec, push]
  rcases step_cases hstep with ⟨x, b, k, c, cs, hk, hexec, rfl⟩ | hcontrol
  · exact hbody hk hexec
  rcases h with hbest | hdue | hp | ⟨i, hi, hchooses⟩ | hyield
  · exact Or.inl (by rwa [hcontrol.content_eq])
  · exact Or.inr (Or.inl (by rwa [hcontrol.content_eq]))
  · rcases step_pendsv_of hstep hp with hp | hk
    · exact Or.inr (Or.inr (Or.inl hp))
    · exact hchoosing hk
  · rcases step_mem hstep hi with hi | ⟨x, k, hk, hrun⟩ | hk
    · exact Or.inr (Or.inr (Or.inr (Or.inl ⟨i, hi, hchooses⟩)))
    · by_cases hb : ∃ b, i = .code (.body b)
      · obtain ⟨b, rfl⟩ := hb
        simp only [runInstr, Option.map_eq_some_iff] at hrun
        obtain ⟨⟨c, cs⟩, hexec, rfl⟩ := hrun
        exact hbody hk hexec
      · exact Or.inr (Or.inr (Or.inr (Or.inl (chooses_run hchooses (fun b hi => hb ⟨b, hi⟩) hrun))))
    · exact hchoosing hk
  · rcases step_mem hstep hyield with hyield | ⟨x, k, hk, hrun⟩ | hk
    · exact Or.inr (Or.inr (Or.inr (Or.inr hyield)))
    · obtain rfl := Option.some.inj hrun
      exact Or.inr (Or.inr (Or.inl rfl))
    · exact hchoosing hk

-- ---------------------------------------------------------------------------
-- Runs
-- ---------------------------------------------------------------------------

section Runs

variable {idle main : τ} {priority : τ → Nat} {clock : Nat}

/-- The built-in steps put only plain code on the stack. -/
theorem hereditary_settled : Hereditary (spec (τ := τ) (W := W) (B := B) C) (Settled c) where
  control i hi := by
    cases i with
    | code d =>
      cases d with
      | body b | suspended b => simp [Instr.isControl] at hi
      | _ => trivial
    | _ => trivial
  guard l must op h := trivial
  suspended b h := h
  full l must op h := by
    change ∀ d ∈ fullAccess l op, _
    unfold fullAccess
    split <;> exact forall_plain rfl
  pend l must op h := by
    change ∀ d ∈ pendOnlyAccess l op, _
    unfold pendOnlyAccess
    split <;> exact forall_plain rfl
  pended l := by cases l <;> exact forall_plain rfl
  handler := forall_handlerCode fun call => by cases call <;> exact forall_plain rfl
  pickNext := forall_plain rfl

/-- The invariant of a run. -/
structure PromptInv (C : Config) (s : State (Lock W B) (Op τ) (Body τ W B) (Content τ W B) τ) : Prop where
  locks : LockInv s
  buffer : Announced Buffered looksBuffer s
  requested : Requested (spec C) s
  follows : FollowsEverywhere (fun i => changesPriority i = true) (· = .code .yield) s
  settled : Everywhere (Settled s.content) s
  prompt : Prompt s

theorem PromptInv.step {a : Action (List (HandlerCall τ W B)) (Choice τ W B)}
    (hC : C.allowTaskPreemption = true) (h : PromptInv C s) (hstep : step (spec C) s a = some s') :
    PromptInv C s' := by
  refine ⟨h.locks.step hstep, ?_, ?_, ?_, ?_, h.prompt.step hC h.follows h.settled hstep⟩
  · rcases step_cases hstep with ⟨x, b, k, c, cs, hk, hexec, rfl⟩ | hcontrol
    · exact h.buffer.body draining h.locks.sound hk hexec
    · exact h.buffer.control draining.toLooking h.locks.sound hcontrol
  · refine h.requested.step (fun d hd => ?_) (by simp [spec]) h.locks.sound (fun hexec hw => ?_) hstep
    · obtain rfl := List.mem_singleton.mp hd
      exact ⟨_, _, _, rfl⟩
    · exact ((exec_outcome hexec).switchDue_cases hw).imp_right fun hown => by simp [hown]
  · rcases step_cases hstep with ⟨x, b, k, c, cs, hk, hexec, rfl⟩ | hcontrol
    · exact h.follows.body leads hk hexec
    · exact h.follows.control leads hcontrol
  · rcases step_cases hstep with ⟨x, b, k, c, cs, hk, hexec, rfl⟩ | hcontrol
    · exact settled_body hC h.locks h.settled hk (exec_outcome hexec)
    · rw [hcontrol.content_eq]
      exact h.settled.control hereditary_settled hcontrol

theorem boot_promptInv : PromptInv C
    (boot idle main priority clock : State (Lock W B) (Op τ) (Body τ W B) (Content τ W B) τ) where
  locks := boot_lockInv
  buffer := by
    rintro l ⟨-, hne⟩
    exact absurd rfl hne
  requested hw := absurd hw (by simp [spec, boot, init, start])
  follows := by
    have hcode : ∀ t, Follows (fun i => changesPriority i = true) (· = .code .yield)
        (push (code (W := W) (B := B) idle t) []) := by
      intro t
      unfold code
      split <;> exact follows_of_all rfl
    refine ⟨hcode idle, fun t => ?_⟩
    by_cases ht : t = idle
    · simp [boot, init, ht, Follows]
    · simpa [boot, init, ht] using hcode t
  settled := Everywhere.init fun t => by
    unfold code
    split <;> exact forall_plain rfl
  prompt := Or.inr (Or.inr (Or.inr (Or.inr (by simp [boot, init, code, push]))))

theorem exec_promptInv {actions : List (Action (List (HandlerCall τ W B)) (Choice τ W B))}
    (hC : C.allowTaskPreemption = true)
    (hrun : Run.exec (step (spec C)) (boot idle main priority clock) actions = some s) : PromptInv C s :=
  Run.exec_inv (PromptInv C) (fun h hstep => h.step hC hstep) boot_promptInv hrun

/-- No handler is active, and the current task is outside of all calls of the kernel. -/
def Outside (s : State (Lock W B) (Op τ) (Body τ W B) (Content τ W B) τ) : Prop :=
  ∀ i ∈ s.stack, i = .code (.body .app) ∨ i = .code (.body .idle)

/-- No preemption is lost. -/
theorem exec_noLostPreemption {actions : List (Action (List (HandlerCall τ W B)) (Choice τ W B))}
    (hC : C.allowTaskPreemption = true)
    (hrun : Run.exec (step (spec C)) (boot idle main priority clock) actions = some s)
    (houtside : Outside s) (hpendsv : s.pendsv = false) :
    (∀ t ∈ s.content.readyLinkedList, s.content.priority s.content.cur ≤ s.content.priority t) ∧
      s.content.insertBuffer = [] := by
  have h := exec_promptInv hC hrun
  have hnot : ∀ i ∈ s.stack, i ≠ .code (.body .app) → i ≠ .code (.body .idle) → False :=
    fun i hi happ hidle => (houtside i hi).elim happ hidle
  constructor
  · rcases h.prompt with hbest | hdue | hp | ⟨i, hi, hchooses⟩ | hyield
    · exact hbest
    · -- The request has been passed on to PendSV.
      rcases h.requested hdue with hp | hresume | hresume | ⟨d, hd, hmem⟩
      · simp [hpendsv] at hp
      · exact (hnot _ hresume (by simp) (by simp)).elim
      · exact (hnot _ hresume (by simp) (by simp)).elim
      · obtain rfl := List.mem_singleton.mp hd
        exact (hnot _ hmem (by simp) (by simp)).elim
    · simp [hpendsv] at hp
    · rcases houtside i hi with rfl | rfl <;> cases hchooses
    · exact (hnot _ hyield (by simp) (by simp)).elim
  · by_contra hne
    refine h.buffer.idle (l := .ready) (draining (C := C)).toLooking h.locks.sound (fun i hi => ?_) ⟨rfl, hne⟩
    rcases houtside i hi with rfl | rfl <;> rfl

/-- The main task runs, and the idle task is ready. -/
theorem exec_noLostPreemption_main : ∃ s, Run.exec (step (spec ⟨true, 16⟩))
      (boot false true (fun t => if t = true then 3 else 15) 0) switchToMain = some s ∧
    s.content.cur = true ∧ s.content.readyLinkedList = [false] ∧
    ∀ t ∈ s.content.readyLinkedList, s.content.priority s.content.cur ≤ s.content.priority t := by
  obtain ⟨s, hrun, hcur, hlist, hstack, hpendsv⟩ : ∃ s, Run.exec (step (spec ⟨true, 16⟩))
      (boot false true (fun t => if t = true then 3 else 15) 0) switchToMain = some s ∧
      s.content.cur = true ∧ s.content.readyLinkedList = [false] ∧
      s.stack = [.code (.body .app)] ∧ s.pendsv = false := ⟨_, rfl, rfl, rfl, rfl, rfl⟩
  have houtside : Outside s := fun i hi => Or.inl (by simpa [hstack] using hi)
  exact ⟨s, hrun, hcur, hlist, (exec_noLostPreemption rfl hrun houtside hpendsv).1⟩

end Runs

end Hopter.Kernel
