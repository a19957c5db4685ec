-- SUMMARY: No task is lost or duplicated by the kernel queues, in all runs in which no waiter is thrown away by a mailbox.
import Hopter.Kernel.Placement

/-!
# Conservation of tasks

Every task is in one place in every state of a run. What `Places` needs for a step is shown
here for all steps of a run: a task that blocks is on the CPU when it does. The current task
runs, or it has blocked and goes on to yield, or PendSV is switching it out (`Active`).
-/

namespace Hopter.Kernel

open Exec Hopter.Task

variable {τ W B : Type} [DecidableEq τ] [DecidableEq W] [DecidableEq B]
  {C : Config} {c c' : Content τ W B} {b : Body τ W B} {cs : List (KCode τ W B)}
  {s s' : State (Lock W B) (Op τ) (Body τ W B) (Content τ W B) τ}
  {k : List (Instr (Lock W B) (Op τ) (Body τ W B))} {i : Instr (Lock W B) (Op τ) (Body τ W B)}
  {a : Action (List (HandlerCall τ W B)) (Choice τ W B)}

-- ---------------------------------------------------------------------------
-- The current task
-- ---------------------------------------------------------------------------

/-- The task that goes to the sleep queue. -/
def Op.adds : Op τ → Option τ
  | .addTask t _ => some t
  | _ => none

def Body.adds : Body τ W B → Option τ
  | .pushSorted t _ | .deadline _ t _ => some t
  | _ => none

def adds : Instr (Lock W B) (Op τ) (Body τ W B) → Option τ
  | .code (.body b) | .code (.suspended b) => b.adds
  | .code (.access _ _ op) | .guard _ _ op => op.adds
  | _ => none

/-- Code of tasks. -/
def taskCode (i : Instr (Lock W B) (Op τ) (Body τ W B)) : Bool := forTask i || (adds i).isSome

omit [DecidableEq τ] [DecidableEq W] [DecidableEq B] in
theorem forall_not_taskCode {ds : List (KCode τ W B)} (h : (ds.all fun d => !taskCode (.code d)) = true) :
    ∀ d ∈ ds, ¬ taskCode (.code d) = true :=
  fun d hd => by simpa using List.all_eq_true.mp h d hd

theorem taskCode_spec : OfTask (spec (τ := τ) (W := W) (B := B) C) fun i => taskCode i = true where
  control i hi := by
    cases i with
    | code d => cases d <;> first | exact Bool.false_ne_true | exact absurd hi (by simp [Instr.isControl])
    | guard l must op => simp [Instr.isControl] at hi
    | _ => exact Bool.false_ne_true
  guard l must op h := h
  suspended b h := rfl
  full l must op := by
    change ∀ d ∈ fullAccess l op, _
    unfold fullAccess
    split <;> first | exact fun d hd h => absurd h (forall_not_taskCode rfl d hd) | exact fun _ _ _ => rfl
  pend l op := by
    change ∀ d ∈ pendOnlyAccess l op, _
    unfold pendOnlyAccess
    split <;> exact forall_not_taskCode rfl
  pended l := by cases l <;> exact forall_not_taskCode rfl
  handler := forall_handlerCode fun call => by cases call <;> exact forall_not_taskCode rfl
  pickNext := forall_not_taskCode rfl
  exec := by
    intro c b x c' cs hexec
    cases exec_outcome hexec with
    | @subCount m p => cases p <;> exact fun d hd h => absurd h (forall_not_taskCode rfl d hd)
    | _ => first | exact fun _ _ _ => rfl | exact fun d hd h => absurd h (forall_not_taskCode rfl d hd)

/-- The current task runs, or it is about to be switched out. -/
def Active (s : State (Lock W B) (Op τ) (Body τ W B) (Content τ W B) τ) : Prop :=
  (∃ i ∈ s.stack, chooses i = true) ∨ s.content.state s.content.cur = .running ∨
    .restore ∉ s.stack ∧ (s.pendsv = true ∨ Parks (s.content.shouldBlock s.content.cur) s.stack)

omit [DecidableEq τ] [DecidableEq W] [DecidableEq B] in
/-- While `pick_next` has not chosen yet, no task is running. -/
theorem not_forTask_of_chooses (hkept : Kept s) (halone : Alone (fun i => taskCode i = true) s)
    (hchooses : ∃ i ∈ s.stack, chooses i = true) : ∀ i ∈ s.stack, forTask i = false := by
  obtain ⟨i, hi, hchooses⟩ := hchooses
  have hrestore := hkept.switching.stack.resolve_right fun hnone => by simp [hnone.1 i hi] at hchooses
  intro j hj
  have := halone hrestore j hj
  simp only [taskCode, Bool.or_eq_true, not_or, Bool.not_eq_true] at this
  exact this.1

omit [DecidableEq τ] [DecidableEq W] [DecidableEq B] in
theorem forTask_of_blocks (h : b.blocks = true) :
    forTask (.code (.body b) : Instr (Lock W B) (Op τ) (Body τ W B)) = true := by
  simp [forTask, h]

omit [DecidableEq τ] [DecidableEq W] [DecidableEq B] in
/-- A task that blocks has been running. -/
theorem Active.running (h : Active s) (hkept : Kept s) (halone : Alone (fun i => taskCode i = true) s)
    (hunder : BelowEverywhere (UnderHandlers fun i => forTask i = true) s)
    (hready : s.pendsv = true → taskLevel s.stack = false) (hk : s.stack = .code (.body b) :: k)
    (hb : b.blocks = true) : s.content.state s.content.cur = .running := by
  have hforTask := forTask_of_blocks hb
  rcases h with hchooses | hrunning | ⟨-, hpendsv | hparks⟩
  · have := not_forTask_of_chooses hkept halone hchooses (.code (.body b)) (by simp [hk])
    simp [hforTask] at this
  · exact hrunning
  · -- PendSV would have come first.
    have hbelow := hunder.1
    rw [hk] at hbelow
    have htask := hbelow.1 hforTask
    have hlevel := hready hpendsv
    rw [hk] at hlevel
    simp only [taskLevel, List.all_cons, Instr.isFrame] at hlevel htask
    simp [htask] at hlevel
  · rw [hk] at hparks
    rcases hparks with hyields | ⟨hnot, -⟩
    · cases b <;> first | cases hb; done | cases hyields
    · simp [hforTask] at hnot

/-- A step that blocks the current task, or does not after all. -/
theorem Outcome.blocks_cases (h : Outcome C c b c' cs) (hb : b.blocks = true) :
    c'.cur = c.cur ∧ (∀ d ∈ cs, ¬ forTask (.code d) = true) ∧ (c'.state c.cur = c.state c.cur ∨
      ∃ flag, b.blocking = some flag ∧ (flag = true → c'.shouldBlock c.cur = true)) := by
  refine ⟨h.cur_eq (by rintro t rfl; cases hb), ?_⟩
  cases h with
  | pushWait | dropCurrentTask | addCurTask => exact ⟨forall_not_forTask rfl, Or.inr ⟨false, rfl, by simp⟩⟩
  | conditionMet | count | countTimeout => exact ⟨forall_not_forTask rfl, Or.inl (by simp)⟩
  | conditionNotMet | block | blockTimeout => exact ⟨forall_not_forTask rfl, Or.inr ⟨true, rfl, by simp⟩⟩
  | _ => cases hb

/-- A task that blocks has been running, and yields next. -/
theorem Active.body_blocks (hrunning : s.content.state s.content.cur = .running)
    (hunder : BelowEverywhere (UnderHandlers fun i => forTask i = true) s) (hthen : BelowEverywhere ThenParks s)
    (hk : s.stack = .code (.body b) :: k) (hstep : Outcome C s.content b c' cs) (hb : b.blocks = true) :
    Active { s with content := c', stack := push cs k } := by
  obtain ⟨hcur, hnot, hstate⟩ := hstep.blocks_cases hb
  have hbelow := hunder.1
  have hthen := hthen.1
  rw [hk] at hbelow hthen
  rcases hstate with hstate | ⟨flag, hflag, hblock⟩
  · exact Or.inr (Or.inl (by simpa [hcur, hstate] using hrunning))
  · refine Or.inr (Or.inr ⟨?_, Or.inr ?_⟩)
    · have htask := hbelow.1 (forTask_of_blocks hb)
      intro hmem
      have hmem : .restore ∈ k := by simpa [push] using hmem
      exact absurd (List.all_eq_true.mp htask _ hmem) (by simp [Instr.isFrame])
    · have hparks : Parks flag k := hthen.1 flag hflag
      refine Parks.push ?_ hnot
      cases flag with
      | false => exact hparks.mono
      | true => simpa [hcur, hblock rfl] using hparks

omit [DecidableEq τ] [DecidableEq W] [DecidableEq B] in
theorem own_of_chooses (h : chooses (.code (.body b) : Instr (Lock W B) (Op τ) (Body τ W B)) = true) :
    own b = some (.ready, .full) := by
  cases b <;> first | rfl | cases h

/-- The built-in steps. -/
theorem Active.control (hsound : Sound own s) (h : Active s) (hstep : step (spec C) s a = some s')
    (hcontrol : Control (spec C) s s') : Active s' := by
  have hchoosing : s'.stack = push (spec (τ := τ) (W := W) (B := B) C).pickNext [.restore] → Active s' := by
    intro hk
    exact Or.inl ⟨.code (.access .ready true .pickNext), by simp [hk, spec, push], rfl⟩
  rcases h with ⟨i, hi, hchooses⟩ | hrunning | ⟨hrestore, hparks⟩
  · by_cases hb : ∃ b, i = .code (.body b)
    · obtain ⟨b, rfl⟩ := hb
      exact Or.inl ⟨_, hcontrol.mem_of_own hsound (by simp [own_of_chooses hchooses]) hi, hchooses⟩
    · rcases step_mem hstep hi with hi | ⟨x, k, hk, hrun⟩ | hk
      · exact Or.inl ⟨i, hi, hchooses⟩
      · exact Or.inl (chooses_run hchooses (fun b hi => hb ⟨b, hi⟩) hrun)
      · exact hchoosing hk
  · exact Or.inr (Or.inl (by rwa [hcontrol.content_eq]))
  · by_cases hrestore' : .restore ∈ s'.stack
    · exact hchoosing ((hcontrol.restore_mem hrestore').resolve_left hrestore)
    · rcases hparks with hpendsv | hparks
      · exact (step_pendsv_of hstep hpendsv).elim (fun hp => Or.inr (Or.inr ⟨hrestore', Or.inl hp⟩)) hchoosing
      · rcases hparks.control hcontrol with hpendsv | hparks | hk
        · exact Or.inr (Or.inr ⟨hrestore', Or.inl hpendsv⟩)
        · exact Or.inr (Or.inr ⟨hrestore', Or.inr (by rwa [hcontrol.content_eq])⟩)
        · exact hchoosing hk

-- ---------------------------------------------------------------------------
-- The code of a run
-- ---------------------------------------------------------------------------

theorem Kept.step (hinv : LockInv s) (h : Kept s) (hstep : step (spec C) s a = some s') : Kept s' := by
  rcases step_cases hstep with ⟨x, b, k, c, cs, hk, hexec, rfl⟩ | hcontrol
  · exact ⟨shelters.follows_body hinv.sound h.sheltered hk hexec, h.saved,
      h.switching.body hk (exec_outcome hexec)⟩
  · exact ⟨shelters.follows_control h.saved h.sheltered hcontrol,
      Shelters.saved_free hinv.sound h.sheltered h.saved hcontrol, h.switching.control hinv.proper hcontrol⟩

/-- What holds of the code on the stack and of the contexts of the tasks. -/
structure CodeInv (idle : τ) (s : State (Lock W B) (Op τ) (Body τ W B) (Content τ W B) τ) : Prop where
  locks : LockInv s
  kept : Kept s
  alone : Alone (fun i => taskCode i = true) s
  under : BelowEverywhere (UnderHandlers fun i => forTask i = true) s
  parks : BelowEverywhere ThenParks s
  idle : Without (fun i => forTask i = true) idle s

theorem CodeInv.step {idle : τ} (h : CodeInv idle s) (hstep : step (spec C) s a = some s') : CodeInv idle s' := by
  refine ⟨h.locks.step hstep, h.kept.step h.locks hstep, ?_, ?_, ?_, ?_⟩
  · rcases step_cases hstep with ⟨x, b, k, c, cs, hk, hexec, rfl⟩ | hcontrol
    · exact h.alone.body taskCode_spec hk hexec
    · exact h.alone.control taskCode_spec h.locks.sound hcontrol
  · rcases step_cases hstep with ⟨x, b, k, c, cs, hk, hexec, rfl⟩ | hcontrol
    · exact h.under.body ofTask_spec.keeps hk hexec
    · exact h.under.control ofTask_spec.keeps hcontrol
  · rcases step_cases hstep with ⟨x, b, k, c, cs, hk, hexec, rfl⟩ | hcontrol
    · exact h.parks.body keeps_thenParks hk hexec
    · exact h.parks.control keeps_thenParks hcontrol
  · rcases step_cases hstep with ⟨x, b, k, c, cs, hk, hexec, rfl⟩ | hcontrol
    · exact h.idle.body ofTask_spec hk hexec
    · exact h.idle.control ofTask_spec hcontrol

omit [DecidableEq τ] in
/-- The idle task does not block. -/
theorem CodeInv.ne_idle {idle : τ} (h : CodeInv idle s) (hk : s.stack = .code (.body b) :: k)
    (hb : b.blocks = true) : s.content.cur ≠ idle := by
  rintro rfl
  have hmem : .code (.body b) ∈ s.stack := by simp [hk]
  have hforTask := forTask_of_blocks hb
  rcases h.kept.switching.stack with hrestore | ⟨-, hcur⟩
  · exact absurd (by simp [taskCode, hforTask]) (h.alone hrestore _ hmem)
  · exact absurd hforTask (h.idle.1 hcur.symm _ hmem)

-- ---------------------------------------------------------------------------
-- Places in a run
-- ---------------------------------------------------------------------------

/-- PendSV has taken the current task off the CPU and not made another one current yet. -/
def Body.vacates : Body τ W B → Bool
  | .popNext | .updateCurTask _ => true
  | _ => false

def vacates : Instr (Lock W B) (Op τ) (Body τ W B) → Bool
  | .code (.body b) | .code (.suspended b) => b.vacates
  | _ => false

omit [DecidableEq τ] [DecidableEq W] [DecidableEq B] in
/-- It is one of the steps of the access to the ready queue. -/
theorem not_vacates (hproper : proper i = true)
    (h : ∀ b, i = .code (.body b) → own b ≠ some (.ready, .full)) : vacates i = false := by
  unfold vacates
  split
  · rename_i b
    cases b <;> first | rfl | exact absurd rfl (h _ rfl)
  · rename_i b
    cases b <;> first | rfl | cases hproper
  · rfl

omit [DecidableEq τ] [DecidableEq W] [DecidableEq B] in
theorem forall_not_vacates {ds : List (KCode τ W B)} (h : (ds.all fun d => !vacates (.code d)) = true) :
    ∀ d ∈ ds, vacates (.code d) = false :=
  fun d hd => by simpa using List.all_eq_true.mp h d hd

theorem hereditary_vacates :
    Hereditary (spec (τ := τ) (W := W) (B := B) C) (fun i => vacates i = false) where
  control i hi := by
    cases i with
    | code d => cases d <;> first | rfl | exact absurd hi (by simp [Instr.isControl])
    | _ => rfl
  guard l must op h := rfl
  suspended b h := h
  full l must op h := by
    change ∀ d ∈ fullAccess l op, _
    unfold fullAccess
    split <;> exact forall_not_vacates rfl
  pend l must op h := by
    change ∀ d ∈ pendOnlyAccess l op, _
    unfold pendOnlyAccess
    split <;> exact forall_not_vacates rfl
  pended l := by cases l <;> exact forall_not_vacates rfl
  handler := forall_handlerCode fun call => by cases call <;> exact forall_not_vacates rfl
  pickNext := forall_not_vacates rfl

theorem Outcome.vacates (h : Outcome C c b c' cs) (hb : b ≠ .cleanUp) (hpop : b ≠ .popNext) :
    ∀ d ∈ cs, vacates (.code d) = false := by
  cases h with
  | cleanUpRunning | cleanUp => exact absurd rfl hb
  | popNext => exact absurd rfl hpop
  | app call => cases call <;> exact forall_not_vacates rfl
  | @subCount m p => cases p <;> exact forall_not_vacates rfl
  | _ => exact forall_not_vacates rfl

/-- The tasks are in these places. -/
structure Placed (idle : τ) (place : τ → Place W B)
    (s : State (Lock W B) (Op τ) (Body τ W B) (Content τ W B) τ) : Prop where
  seen : ∀ u, At s.content (hands s) (picks s) u (place u)
  cpu : ∀ u, place u = .cpu → u = s.content.cur ∧ ∀ i ∈ s.stack, vacates i = false
  idle : (place idle).runs = true

omit [DecidableEq τ] [DecidableEq W] [DecidableEq B] in
/-- The code that is in progress, before a step and after it. -/
theorem hands_body (hk : s.stack = .code (.body b) :: k) :
    hands s = b.carried.toList ++ k.filterMap carried ∧ picks s = b.picked.toList ++ k.filterMap picked := by
  have hone : ∀ f : Instr (Lock W B) (Op τ) (Body τ W B) → Option τ, ∀ i : Instr (Lock W B) (Op τ) (Body τ W B),
      (i :: k).filterMap f = (f i).toList ++ k.filterMap f := by
    intro f i
    cases hf : f i <;> simp [hf]
  exact ⟨by rw [hands, hk, hone]; rfl, by rw [picks, hk, hone]; rfl⟩

omit [DecidableEq τ] [DecidableEq W] [DecidableEq B] in
/-- A task that is about to be made current has been chosen. -/
theorem chooses_of_mem_picks {t : τ} (h : t ∈ picks s) : ∃ i ∈ s.stack, chooses i = true := by
  obtain ⟨i, hi, hpicked⟩ := List.mem_filterMap.mp h
  refine ⟨i, hi, ?_⟩
  by_contra hnot
  rw [picked_of_not_chooses (by simpa using hnot)] at hpicked
  cases hpicked

/-- Steps that take the current task off the CPU find no task chosen. -/
theorem CodeInv.picks_nil {idle : τ} (h : CodeInv idle s) (hk : s.stack = .code (.body b) :: k)
    (hb : b.leavesCpu = true) : k.filterMap picked = [] := by
  refine List.filterMap_eq_nil_iff.mpr fun i hi => ?_
  by_cases hblocks : b.blocks = true
  · refine picked_of_not_chooses ?_
    by_contra hchooses
    have hmem : i ∈ s.stack := by simp [hk, hi]
    have := not_forTask_of_chooses h.kept h.alone ⟨i, hmem, by simpa using hchooses⟩ (.code (.body b)) (by simp [hk])
    simp [forTask_of_blocks hblocks] at this
  · obtain rfl : b = .cleanUp := by simpa [Body.leavesCpu, hblocks] using hb
    unfold picked
    split
    · rename_i b'
      have hown : own b' ≠ _ := h.locks.sound.exclusive hk rfl (Or.inl hi)
      cases b' <;> first | rfl | exact absurd rfl hown
    · rfl

/-- A step moves every task as `Goes` says. -/
theorem CodeInv.goes {idle : τ} {place : τ → Place W B} (h : CodeInv idle s) (hactive : Active s)
    (hplaced : Placed idle place s) (hready : s.pendsv = true → taskLevel s.stack = false)
    (hk : s.stack = .code (.body b) :: k) (hout : Outcome C s.content b c' cs) (u : τ) :
    ∃ p', At c' (codeCarried cs ++ k.filterMap carried) (codePicked cs ++ k.filterMap picked) u p' ∧
      Goes s.content b u (place u) p' := by
  obtain ⟨hhands, hpicks⟩ := hands_body hk
  refine hout.goes (h.picks_nil hk) (fun hb => hactive.running h.kept h.alone h.under hready hk hb) ?_
  rw [← hhands, ← hpicks]
  exact hplaced.seen u

theorem At.running {hands picks : List τ} {t : τ} {p : Place W B} (h : At c hands picks t p)
    (hp : p = .cpu ∨ p = .chosen) : c.state t = .running := by
  have hstate := h.state
  rcases hp with rfl | rfl <;> cases hc : c.state t <;> first | rfl | (rw [hc] at hstate; cases hstate)

/-- A step of the kernel queues, when the places are known before it and after it. -/
theorem Placed.body {idle : τ} {place place' : τ → Place W B} (hinv : CodeInv idle s) (h : Placed idle place s)
    (hk : s.stack = .code (.body b) :: k) (hout : Outcome C s.content b c' cs)
    (hat : ∀ u, At c' (codeCarried cs ++ k.filterMap carried) (codePicked cs ++ k.filterMap picked) u (place' u))
    (hgoes : ∀ u, Goes s.content b u (place u) (place' u)) :
    Placed idle place' { s with content := c', stack := push cs k } := by
  refine ⟨fun u => ?_, fun u hu => ?_, ?_⟩
  · simp only [hands, picks, filterMap_push]
    exact hat u
  · rcases (hgoes u).cpu hu with hcpu | rfl
    · obtain ⟨rfl, hvacates⟩ := h.cpu u hcpu
      rw [hk, List.forall_mem_cons] at hvacates
      have hcleanUp : b ≠ .cleanUp := by
        rintro rfl
        have hrunning := (hat _).running (Or.inl hu)
        cases hout with
        | cleanUpRunning => simp at hrunning
        | cleanUp _ hstate _ => exact hstate hrunning
      have hcur := hout.cur_eq fun t heq => by simp [heq, vacates, Body.vacates] at hvacates
      have hpop : b ≠ .popNext := fun heq => by simp [heq, vacates, Body.vacates] at hvacates
      exact ⟨hcur.symm, forall_mem_push (hout.vacates hcleanUp hpop) hvacates.2⟩
    · -- The task has been made current.
      cases hout
      refine ⟨rfl, forall_mem_push (forall_not_vacates rfl) fun i hi => ?_⟩
      refine not_vacates (hinv.locks.proper.1 i (by simp [hk, hi])) fun b' heq => ?_
      subst heq
      exact hinv.locks.sound.exclusive hk rfl (Or.inl hi)
  · rcases (hgoes idle).runs h.idle with hruns | ⟨hcur, hb⟩
    · exact hruns
    · exact absurd hcur.symm (hinv.ne_idle hk hb)

theorem Active.body {idle : τ} {place place' : τ → Place W B} (hplaced : Placed idle place s) (h : Active s)
    (hk : s.stack = .code (.body b) :: k) (hout : Outcome C s.content b c' cs) {x : Choice τ W B}
    (hexec : exec C s.content b x = some (c', cs))
    (hplaced' : Placed idle place' { s with content := c', stack := push cs k }) (hb : b.blocks = false)
    (hgoes : ∀ u, Goes s.content b u (place u) (place' u)) :
    Active { s with content := c', stack := push cs k } := by
  -- While `pick_next` is choosing.
  have hchoosing : (∃ i ∈ s.stack, chooses i = true) → Active { s with content := c', stack := push cs k } := by
    rintro ⟨i, hi, hchooses⟩
    rw [hk] at hi
    rcases List.mem_cons.mp hi with rfl | hi
    · cases hout with
      | cleanUpRunning | cleanUp | popNext => exact Or.inl ⟨_, List.mem_cons_self .., rfl⟩
      | @updateCurTask t =>
        have hchosen := (hplaced.seen t).eq_chosen (by simp [(hands_body hk).2, Body.picked])
        exact Or.inr (Or.inl ((hplaced.seen t).running (Or.inr hchosen)))
      | _ => cases hchooses
    · exact Or.inl ⟨i, List.mem_append_right _ hi, hchooses⟩
  by_cases hchooses : ∃ i ∈ s.stack, chooses i = true
  · exact hchoosing hchooses
  have hcur := hout.cur_eq fun t heq => hchooses ⟨.code (.body b), by simp [hk], by simp [heq, chooses]⟩
  rcases h with hchooses' | hrunning | ⟨hrestore, hparks⟩
  · exact absurd hchooses' hchooses
  · have hcpu := (hplaced.seen _).eq_cpu hrunning fun hmem => hchooses (chooses_of_mem_picks hmem)
    rcases (hgoes _).stays hcpu with hcpu' | hleaves
    · refine Or.inr (Or.inl ?_)
      have := (hplaced'.seen _).running (Or.inl hcpu')
      rwa [← hcur] at this
    · obtain rfl : b = .cleanUp := by simpa [Body.leavesCpu, hb] using hleaves
      exact absurd ⟨.code (.body .cleanUp), by simp [hk], rfl⟩ hchooses
  · refine Or.inr (Or.inr ⟨fun hmem => hrestore ?_, ?_⟩)
    · rw [hk]
      exact List.mem_cons_of_mem _ (by simpa [push] using hmem)
    · rcases hparks with hpendsv | hparks
      · exact Or.inl hpendsv
      · rw [hk] at hparks
        exact Or.inr (hparks.body hexec fun t heq => by
          exact hchooses ⟨.code (.body b), by simp [hk], by simp [heq, chooses]⟩)

theorem Placed.control {idle : τ} {place : τ → Place W B} (hinv : CodeInv idle s) (h : Placed idle place s)
    (hstep : Control (spec C) s s') : Placed idle place s' := by
  obtain ⟨hhands, hpicks⟩ := Control.hands_eq hinv.locks hinv.kept hstep
  refine ⟨fun u => ?_, fun u hu => ?_, h.idle⟩
  · rw [hhands, hpicks, hstep.content_eq]
    exact h.seen u
  · obtain ⟨hcur, hvacates⟩ := h.cpu u hu
    have hsaved : ∀ t, ∀ i ∈ s.saved t, vacates i = false := fun t i hi => by
      refine not_vacates (hinv.locks.proper.2 t i hi) fun b heq hown => ?_
      subst heq
      have := (hinv.locks.sound.saved t _ hi).1
      simp [Instr.inner, hown] at this
    rw [hstep.content_eq]
    exact ⟨hcur, (Everywhere.control hereditary_vacates ⟨hvacates, hsaved⟩ hstep).1⟩

/-- The invariant of a run. -/
structure PlaceInv (idle : τ) (place : τ → Place W B)
    (s : State (Lock W B) (Op τ) (Body τ W B) (Content τ W B) τ) : Prop where
  code : CodeInv idle s
  active : Active s
  placed : Placed idle place s

/-- A step moves the tasks, and loses one only when a mailbox throws it away. -/
theorem PlaceInv.step {idle : τ} {place : τ → Place W B} (h : PlaceInv idle place s)
    (hstep : step (spec C) s a = some s') : ∃ place', PlaceInv idle place' s' ∧
      ∀ u, place' u = .lost → place u = .lost ∨ ∃ b ∈ takes s a, ¬ b.Clears s.content := by
  have hcode := h.code.step hstep
  rcases step_takes hstep with ⟨x, b, k, c', cs, htakes, hk, hexec, rfl⟩ | hcontrol
  · have hout := exec_outcome hexec
    have hready := step_takes_pendsv hstep htakes
    choose place' hat hgoes using h.code.goes h.active h.placed hready hk hout
    have hplaced := h.placed.body h.code hk hout hat hgoes
    refine ⟨place', ⟨hcode, ?_, hplaced⟩, fun u hu => ?_⟩
    · by_cases hb : b.blocks = true
      · have hrunning := h.active.running h.code.kept h.code.alone h.code.under hready hk hb
        exact Active.body_blocks hrunning h.code.under h.code.parks hk hout hb
      · exact h.active.body h.placed hk hout hexec hplaced (by simpa using hb) hgoes
    · exact ((hgoes u).lost hu).imp_right fun hclears => ⟨b, htakes, hclears⟩
  · exact ⟨place, ⟨hcode, h.active.control h.code.locks.sound hstep hcontrol, h.placed.control h.code hcontrol⟩,
      fun u hu => Or.inl hu⟩

/-- The places when the scheduler has been started. -/
def startPlace (idle main t : τ) : Place W B :=
  if t = idle then .cpu else if t = main then .list .ready else .fresh

-- ---------------------------------------------------------------------------
-- Tasks in the hands of code, outside of accesses
-- ---------------------------------------------------------------------------

/-- A task that comes out of a queue is handed over. -/
def accepts : Instr (Lock W B) (Op τ) (Body τ W B) → Bool
  | .code (.access _ _ (.acceptTask _)) | .guard _ _ (.acceptTask _) => true
  | _ => false

/-- This is done within the access to the queue. -/
def Backed (i : Instr (Lock W B) (Op τ) (Body τ W B)) (k : List (Instr (Lock W B) (Op τ) (Body τ W B))) :
    Prop := accepts i = true → ∃ l, marks own l k ≠ []

omit [DecidableEq τ] in
theorem Backed.of_not (h : accepts i = false) : Backed i k := by
  intro hi
  rw [h] at hi
  cases hi

omit [DecidableEq τ] in
theorem below_backed {ds : List (KCode τ W B)} (h : Below Backed k)
    (hds : (ds.all fun d => !accepts (.code d)) = true) : Below Backed (push ds k) :=
  h.push fun d hd k => Backed.of_not (by simpa using List.all_eq_true.mp hds d hd)

theorem keeps_backed : Keeps (spec (τ := τ) (W := W) (B := B) C) Backed where
  control i k hi := by
    refine Backed.of_not ?_
    cases i with
    | code d => cases d <;> first | rfl | exact absurd hi (by simp [Instr.isControl])
    | guard l must op => simp [Instr.isControl] at hi
    | _ => rfl
  guard l must op k h haccepts := by
    obtain ⟨l', hl'⟩ := h (by cases op <;> first | rfl | cases haccepts)
    exact ⟨l', by simpa [marks_cons, Instr.mark] using hl'⟩
  suspended b k h := Backed.of_not rfl
  full l must op k h hk := by
    change Below Backed (push (fullAccess l op) _)
    have hguard : Backed (.swapPending l) k := Backed.of_not rfl
    unfold fullAccess
    split <;> exact below_backed ⟨hguard, hk⟩ rfl
  pend l op k h hk := by
    change Below Backed (push (pendOnlyAccess l op) _)
    have hguard : Backed (.setPending l) k := Backed.of_not rfl
    unfold pendOnlyAccess
    split <;> exact below_backed ⟨hguard, hk⟩ rfl
  pended l k hk := by
    have hguard : Backed (.unlock l) k := Backed.of_not rfl
    cases l <;> exact below_backed ⟨hguard, hk⟩ rfl
  handler calls k hk := by
    have hguard : Backed .iret k := Backed.of_not rfl
    refine Below.push ⟨hguard, hk⟩ fun d hd k => Backed.of_not ?_
    revert d
    exact forall_handlerCode (fun call => by cases call <;> simp [HandlerCall.code, accepts]) calls
  pickNext := ⟨Backed.of_not rfl, Backed.of_not rfl, trivial⟩
  exec := by
    intro c b x c' cs k hexec h hk
    -- The access to the queue goes on afterwards.
    have hgoesOn : ∀ {l a b' op}, own b' = some (l, a) →
        Below Backed (push [.access .ready false op, .body b'] k) := by
      intro l a b' op hown
      refine ⟨fun _ => ⟨l, ?_⟩, Backed.of_not rfl, hk⟩
      simp [marks_cons, Instr.mark, Code.mark, hown]
    cases exec_outcome hexec with
    | app call => cases call <;> exact below_backed hk rfl
    | @subCount m p => cases p <;> exact below_backed hk rfl
    | wake | delete | remove | popNotify | popNotified | notifyWaiter | pendedWaiter => exact hgoesOn rfl
    | _ => exact below_backed hk rfl

/-- The code takes no task but `u` to the sleep queue. -/
def AddsOnly (u : τ) (i : Instr (Lock W B) (Op τ) (Body τ W B)) : Prop := ∀ t, adds i = some t → t = u

omit [DecidableEq τ] [DecidableEq W] [DecidableEq B] in
theorem forall_adds_none {ds : List (KCode τ W B)} {u : τ} (h : (ds.all fun d => (adds (.code d)).isNone) = true) :
    ∀ d ∈ ds, AddsOnly u (.code d) := by
  intro d hd t ht
  have := List.all_eq_true.mp h d hd
  simp [ht] at this

theorem hereditary_addsOnly (u : τ) : Hereditary (spec (τ := τ) (W := W) (B := B) C) (AddsOnly u) where
  control i hi := by
    cases i with
    | code d =>
      cases d with
      | mayBlock | yield => exact fun _ h => by cases h
      | _ => simp [Instr.isControl] at hi
    | guard l must op => simp [Instr.isControl] at hi
    | _ => exact fun _ h => by cases h
  guard l must op h := h
  suspended b h := h
  full l must op h := by
    change ∀ d ∈ fullAccess l op, _
    unfold fullAccess
    split <;> first | exact forall_adds_none rfl | exact List.forall_mem_singleton.mpr h
  pend l must op h := by
    change ∀ d ∈ pendOnlyAccess l op, _
    unfold pendOnlyAccess
    split <;> exact forall_adds_none rfl
  pended l := by cases l <;> exact forall_adds_none rfl
  handler := forall_handlerCode fun call => by cases call <;> exact forall_adds_none rfl
  pickNext := forall_adds_none rfl

/-- What a step goes on with takes no other task to the sleep queue than the current one, or the step's own. -/
theorem Outcome.addsOnly (h : Outcome C c b c' cs) (hb : AddsOnly c.cur (.code (.body b))) :
    ∀ d ∈ cs, AddsOnly c'.cur (.code d) := by
  by_cases hcur : ∃ t, b = .updateCurTask t
  · obtain ⟨t, rfl⟩ := hcur
    cases h
    exact forall_adds_none rfl
  rw [h.cur_eq fun t heq => hcur ⟨t, heq⟩]
  cases h with
  | app call => cases call <;> exact forall_adds_none rfl
  | @subCount m p => cases p <;> exact forall_adds_none rfl
  | blockTimeout => exact List.forall_mem_singleton.mpr fun t ht => (Option.some.inj ht).symm
  | addCurTask => exact List.forall_mem_singleton.mpr fun t ht => (Option.some.inj ht).symm
  | deadline => exact List.forall_mem_cons.mpr ⟨hb, forall_adds_none rfl⟩
  | _ => exact forall_adds_none rfl

omit [DecidableEq τ] [DecidableEq W] [DecidableEq B] in
theorem addsOnly_of_none {u : τ} (h : adds i = none) : AddsOnly u i := by
  intro t ht
  rw [h] at ht
  cases ht

omit [DecidableEq τ] [DecidableEq W] [DecidableEq B] in
theorem adds_of_not_holds (hproper : proper i = true) (h : ¬ holds i = true) : adds i = none := by
  unfold adds
  split
  · rename_i b
    cases b <;> first | rfl | exact absurd rfl h
  · rename_i b
    cases b <;> first | rfl | cases hproper
  · rename_i op
    cases op <;> first | rfl | exact absurd rfl h
  · rename_i op
    cases op <;> first | rfl | exact absurd rfl h
  · rfl

/-- What is to be known of the tasks in the hands of code, outside of accesses. -/
structure HandsInv (s : State (Lock W B) (Op τ) (Body τ W B) (Content τ W B) τ) : Prop where
  backed : BelowEverywhere Backed s
  adds : Everywhere (AddsOnly s.content.cur) s
  state : s.content.state s.content.cur ≠ .initializing

theorem Outcome.state_initializing {t : τ} (h : Outcome C c b c' cs) (ht : c'.state t = .initializing) :
    c.state t = .initializing := by
  -- The state of one task changes.
  have hset : ∀ {u : τ} {st : TaskState}, st ≠ .initializing → Function.update c.state u st t = .initializing →
      c.state t = .initializing := by
    intro u st hst hset
    by_cases htu : t = u
    · subst htu
      exact absurd (by simpa using hset) hst
    · simpa [htu] using hset
  cases h with
  | cleanUpRunning | popNext | pushReady | pushPended => exact hset (by simp) ht
  | pushWait | conditionNotMet | block | blockTimeout | addCurTask | dropCurrentTask => exact hset (by simp) ht
  | _ => simpa using ht

theorem HandsInv.step {idle : τ} {place : τ → Place W B} (hinv : PlaceInv idle place s) (h : HandsInv s)
    (hstep : step (spec C) s a = some s') : HandsInv s' := by
  rcases step_cases hstep with ⟨x, b, k, c', cs, hk, hexec, rfl⟩ | hcontrol
  · have hout := exec_outcome hexec
    refine ⟨h.backed.body keeps_backed hk hexec, h.adds.body hk hout.addsOnly fun i hi hadds => ?_, fun hstate => ?_⟩
    · by_cases hb : ∃ t, b = .updateCurTask t
      · -- Where tasks are switched, there is no code of tasks.
        obtain ⟨t, rfl⟩ := hb
        refine addsOnly_of_none ?_
        rcases hi with hi | ⟨u, hi⟩
        · have hmem : .code (.body (.updateCurTask t)) ∈ s.stack := by simp [hk]
          have hrestore := hinv.code.kept.switching.stack.resolve_right fun hnone => by
            have := hnone.1 _ hmem
            cases this
          have hnot := hinv.code.alone hrestore i (by simp [hk, hi])
          simp only [taskCode, Bool.or_eq_true, not_or, Option.not_isSome_iff_eq_none] at hnot
          exact hnot.2
        · exact adds_of_not_holds (hinv.code.locks.proper.2 u i hi) (hinv.code.kept.saved u i hi)
      · rw [hout.cur_eq fun t heq => hb ⟨t, heq⟩]
        exact hadds
    · have hstate := hout.state_initializing hstate
      by_cases hb : ∃ t, b = .updateCurTask t
      · obtain ⟨t, rfl⟩ := hb
        cases hout
        have hchosen := (hinv.placed.seen t).eq_chosen (by simp [(hands_body hk).2, Body.picked])
        rw [show s.content.state t = .running from (hinv.placed.seen t).running (Or.inr hchosen)] at hstate
        cases hstate
      · rw [show (_ : Content τ W B).cur = s.content.cur from hout.cur_eq fun t heq => hb ⟨t, heq⟩] at hstate
        exact h.state hstate
  · refine ⟨h.backed.control keeps_backed hcontrol, ?_, ?_⟩
    · rw [hcontrol.content_eq]
      exact h.adds.control (hereditary_addsOnly _) hcontrol
    · rw [hcontrol.content_eq]
      exact h.state

/-- No closure of an access is in progress, and no release loop. -/
def AtRest (s : State (Lock W B) (Op τ) (Body τ W B) (Content τ W B) τ) : Prop := ∀ l, marks own l s.stack = []

omit [DecidableEq τ] in
/-- At rest, a task in the hands of code is the current one, on its way to the sleep queue. -/
theorem HandsInv.eq_cur {t : τ} (h : HandsInv s) (hrest : AtRest s) (ht : t ∈ hands s) :
    t = s.content.cur ∧ ∃ i ∈ s.stack, Kernel.adds i = some t := by
  obtain ⟨i, hi, hcarried⟩ := List.mem_filterMap.mp ht
  suffices hadds : Kernel.adds i = some t from ⟨h.adds.1 i hi t hadds, i, hi, hadds⟩
  have hmark : ∀ l, i.mark own l = none := fun l => List.filterMap_eq_nil_iff.mp (hrest l) i hi
  have hbacked : accepts i = false := by
    by_contra haccepts
    obtain ⟨k, hk, hsuffix⟩ := h.backed.1.of_mem hi
    obtain ⟨l, hl⟩ := hk (by simpa using haccepts)
    refine hl (List.filterMap_eq_nil_iff.mpr fun j hj => ?_)
    exact List.filterMap_eq_nil_iff.mp (hrest l) j (hsuffix.subset hj)
  unfold carried at hcarried
  split at hcarried
  · rename_i b
    cases b with
    | deadline m u ms => exact hcarried
    | checkPreempt u | pushReady u | pushPended u => cases hmark .ready
    | enqueue u => cases hmark .ready
    | pushSorted u due => exact hcarried
    | _ => cases hcarried
  · rename_i op
    cases op <;> first | exact hcarried | cases hbacked
  · rename_i op
    cases op <;> first | exact hcarried | cases hbacked
  · cases hcarried

omit [DecidableEq τ] in
/-- No task is picked at rest. -/
theorem picks_nil_of_atRest (hrest : AtRest s) : picks s = [] := by
  refine List.filterMap_eq_nil_iff.mpr fun i hi => ?_
  have hmark : i.mark own .ready = none := List.filterMap_eq_nil_iff.mp (hrest .ready) i hi
  unfold picked
  split
  · rename_i b
    cases b <;> first | rfl | cases hmark
  · rfl

-- ---------------------------------------------------------------------------
-- No task is lost or duplicated
-- ---------------------------------------------------------------------------

/-- What a task can be in. -/
inductive Queue (W B : Type) where
  /-- A linked list. -/
  | list (l : Lock W B)
  | buffer
  /-- `WithoutTimeout` of a mailbox. -/
  | slot (m : B)
  deriving DecidableEq

def Queue.place : Queue W B → Place W B
  | .list l => .list l
  | .buffer => .buffer
  | .slot m => .slot m

/-- How often a task is in a queue. -/
def Content.occurs (c : Content τ W B) (t : τ) : Queue W B → Nat
  | .list l => (c.list l).count t
  | .buffer => c.insertBuffer.count t
  | .slot m => if c.waitTask m = .withoutTimeout t then 1 else 0

/-- The task is in this queue once, and in no other. -/
def Content.OnceIn (c : Content τ W B) (t : τ) (q : Queue W B) : Prop :=
  c.occurs t q = 1 ∧ ∀ q', q' ≠ q → c.occurs t q' = 0

def Content.Nowhere (c : Content τ W B) (t : τ) : Prop := ∀ q, c.occurs t q = 0

/-- Every task is where its state says. A task that has blocked to sleep is in no queue until
it enters the sleep queue. -/
structure Conserved (idle : τ) (s : State (Lock W B) (Op τ) (Body τ W B) (Content τ W B) τ) : Prop where
  once : ∀ t, s.content.spawned t = true → s.content.state t ≠ .destructing →
    (∃ q, s.content.OnceIn t q) ∨ t = s.content.cur ∧ s.content.Nowhere t ∧
      (s.content.state t = .running ∨ ∃ i ∈ s.stack, adds i = some t)
  running : ∀ t, s.content.state t = .running → t = s.content.cur ∧ s.content.Nowhere t
  current : s.content.Nowhere s.content.cur ∨ (∃ q, s.content.OnceIn s.content.cur q) ∧
    (s.content.state s.content.cur = .blocked ∨ s.content.state s.content.cur = .ready)
  ready : ∀ t, s.content.state t = .ready → s.content.readyLinkedList.count t = 1
  idle : s.content.cur = idle ∨ s.content.readyLinkedList.count idle = 1

theorem At.occurs {hands picks : List τ} {t : τ} {p : Place W B} (h : At c hands picks t p) (q : Queue W B) :
    c.occurs t q = p.count q.place := by
  cases q with
  | list l => exact h.list l
  | buffer => exact h.buffer
  | slot m =>
    have hslot := h.slot m
    by_cases hp : p = .slot m <;> simp [Content.occurs, Queue.place, Place.count, hslot, hp]

omit [DecidableEq W] [DecidableEq B] in
theorem Queue.place_inj {q q' : Queue W B} (h : q.place = q'.place) : q = q' := by
  cases q <;> cases q' <;> simp_all [Queue.place]

omit [DecidableEq W] [DecidableEq B] in
theorem Queue.place_allows {q : Queue W B} {st : TaskState} (h : q.place.allows st = true)
    (hst : st ≠ .initializing) : st = .blocked ∨ st = .ready := by
  rcases q with (_ | _ | w | m) | _ | m <;> cases st <;>
    first | exact Or.inl rfl | exact Or.inr rfl | exact absurd rfl hst | cases h

theorem At.onceIn {hands picks : List τ} {t : τ} {p : Place W B} (h : At c hands picks t p) {q : Queue W B}
    (hp : p = q.place) : c.OnceIn t q := by
  subst hp
  refine ⟨by rw [h.occurs, Place.count_self], fun q' hq' => ?_⟩
  rw [h.occurs]
  exact if_neg fun heq => hq' (Queue.place_inj heq).symm

theorem At.nowhere {hands picks : List τ} {t : τ} {p : Place W B} (h : At c hands picks t p)
    (hp : ∀ q : Queue W B, p ≠ q.place) : c.Nowhere t := by
  intro q
  rw [h.occurs]
  exact if_neg (hp q)

/-- The step puts this task into a list. -/
def Body.links (c : Content τ W B) : Body τ W B → Option τ
  | .cleanUp => if c.state c.cur = .running then some c.cur else none
  | .pushReady t | .pushPended t | .pushSorted t _ => some t
  | .pushWait _ | .checkCondition _ => some c.cur
  | _ => none

theorem PlaceInv.pop_ne_none {idle : τ} {place : τ → Place W B} (h : PlaceInv idle place s)
    (hk : s.stack = .code (.body .popNext) :: k) :
    popHighestPriority s.content.priority s.content.readyLinkedList ≠ none := by
  have hruns := h.placed.idle
  have hready : place idle = .list .ready := by
    have hcpu : place idle ≠ .cpu := fun heq => by
      have := (h.placed.cpu idle heq).2 (.code (.body .popNext)) (by simp [hk])
      cases this
    have hchosen : place idle ≠ .chosen := by
      intro heq
      have hcount := (h.placed.seen idle).chosen
      rw [heq, Place.count_self, (hands_body hk).2] at hcount
      have hmem : idle ∈ k.filterMap picked := by
        rw [← List.count_pos_iff]
        simpa [Body.picked] using hcount.ge
      obtain ⟨i, hi, hpicked⟩ := List.mem_filterMap.mp hmem
      unfold picked at hpicked
      split at hpicked
      · rename_i b
        have hown : own b ≠ _ := h.code.locks.sound.exclusive hk rfl (Or.inl hi)
        cases b <;> first | cases hpicked; done | exact hown rfl
      · cases hpicked
    cases hp : place idle with
    | cpu => exact absurd hp hcpu
    | chosen => exact absurd hp hchosen
    | list l =>
      rw [hp] at hruns
      cases l <;> first | rfl | cases hruns
    | _ =>
      rw [hp] at hruns
      cases hruns
  have hcount := (h.placed.seen idle).ready
  rw [hready, Place.count_self] at hcount
  rcases popHighestPriority_cases s.content.priority s.content.readyLinkedList with ⟨hnil, -⟩ | ⟨u, rest, hpop, -⟩
  · simp [hnil] at hcount
  · simp [hpop]

theorem PlaceInv.links_free {idle t : τ} {place : τ → Place W B} (h : PlaceInv idle place s)
    (hready : s.pendsv = true → taskLevel s.stack = false) (hk : s.stack = .code (.body b) :: k)
    (hlinks : b.links s.content = some t) : s.content.linked t = false := by
  have hcurrent : s.content.state s.content.cur = .running → b.leavesCpu = true → b.picked = none →
      s.content.linked s.content.cur = false := by
    intro hrunning hleaves hpicked
    have hcpu := (h.placed.seen s.content.cur).eq_cpu hrunning
      (by simp [(hands_body hk).2, hpicked, h.code.picks_nil hk hleaves])
    simpa [hcpu, Place.isList] using (h.placed.seen s.content.cur).linked
  have hhand : b.carried = some t → s.content.linked t = false := by
    intro hcarried
    have hplace := (h.placed.seen t).eq_hand (by simp [(hands_body hk).1, hcarried])
    simpa [hplace, Place.isList] using (h.placed.seen t).linked
  have hblocks : b.blocks = true → s.content.state s.content.cur = .running :=
    h.active.running h.code.kept h.code.alone h.code.under hready hk
  cases b with
  | cleanUp =>
    simp only [Body.links] at hlinks
    split at hlinks
    · obtain rfl := Option.some.inj hlinks
      exact hcurrent ‹_› rfl rfl
    · cases hlinks
  | pushReady u | pushPended u | pushSorted u due => exact hhand hlinks
  | pushWait w | checkCondition w =>
    obtain rfl := Option.some.inj hlinks
    exact hcurrent (hblocks rfl) rfl rfl
  | _ => cases hlinks

theorem PlaceInv.conserved {idle : τ} {place : τ → Place W B} (h : PlaceInv idle place s) (hhands : HandsInv s)
    (hlost : ∀ u, place u ≠ .lost) (hrest : AtRest s) : Conserved idle s := by
  have hpicks := picks_nil_of_atRest hrest
  have hseen := h.placed.seen
  have hchosen : ∀ t, place t ≠ .chosen := by
    intro t heq
    have := (hseen t).chosen
    rw [heq, hpicks] at this
    simp at this
  have hhand : ∀ t, place t = .hand → t = s.content.cur ∧ ∃ i ∈ s.stack, adds i = some t := by
    intro t heq
    refine hhands.eq_cur hrest (List.count_pos_iff.mp ?_)
    rw [(hseen t).hand, heq, Place.count_self]
    exact Nat.one_pos
  have hcpu : ∀ t, place t = .cpu → t = s.content.cur ∧ s.content.Nowhere t := fun t heq =>
    ⟨(h.placed.cpu t heq).1, (hseen t).nowhere fun q hq => by rw [heq] at hq; cases q <;> cases hq⟩
  constructor
  case once =>
    intro t hspawned halive
    cases hp : place t with
    | fresh => exact absurd hp ((hseen t).spawned.mp hspawned)
    | cpu =>
      obtain ⟨hcur, hnowhere⟩ := hcpu t hp
      exact Or.inr ⟨hcur, hnowhere, Or.inl ((hseen t).running (Or.inl hp))⟩
    | chosen => exact absurd hp (hchosen t)
    | list l => exact Or.inl ⟨.list l, (hseen t).onceIn hp⟩
    | buffer => exact Or.inl ⟨.buffer, (hseen t).onceIn hp⟩
    | slot m => exact Or.inl ⟨.slot m, (hseen t).onceIn hp⟩
    | hand =>
      obtain ⟨hcur, hadds⟩ := hhand t hp
      have hnowhere : s.content.Nowhere t := (hseen t).nowhere fun q hq => by
        rw [hp] at hq
        cases q <;> cases hq
      exact Or.inr ⟨hcur, hnowhere, Or.inr hadds⟩
    | gone =>
      have hstate := (hseen t).state
      rw [hp] at hstate
      exact absurd (Place.allows_gone hstate) halive
    | lost => exact absurd hp (hlost t)
  case running => exact fun t hrunning => hcpu t ((hseen t).eq_cpu hrunning (by simp [hpicks]))
  case current =>
    by_cases hq : ∃ q : Queue W B, place s.content.cur = q.place
    · obtain ⟨q, hq⟩ := hq
      refine Or.inr ⟨⟨q, (hseen _).onceIn hq⟩, ?_⟩
      have hstate := (hseen s.content.cur).state
      rw [hq] at hstate
      exact Queue.place_allows hstate hhands.state
    · exact Or.inl ((hseen _).nowhere fun q hp => hq ⟨q, hp⟩)
  case ready =>
    intro t hready
    have hstate := (hseen t).state
    rw [hready] at hstate
    rw [(hseen t).ready, Place.allows_ready hstate, Place.count_self]
  case idle =>
    have hruns := h.placed.idle
    cases hp : place idle with
    | cpu => exact Or.inl (hcpu idle hp).1.symm
    | chosen => exact absurd hp (hchosen idle)
    | list l =>
      rw [hp] at hruns
      have hlist := (hseen idle).ready
      cases l <;> first | exact Or.inr (by rw [hlist, hp, Place.count_self]) | cases hruns
    | _ =>
      rw [hp] at hruns
      cases hruns

section Runs

variable {idle main : τ} {priority : τ → Nat} {clock : Nat}

omit [DecidableEq W] [DecidableEq B] in
/-- The code of the tasks when the scheduler has been started. -/
theorem boot_code {f : Instr (Lock W B) (Op τ) (Body τ W B) → Bool}
    (h : f (.code .yield) = false ∧ f (.code (.body .idle)) = false ∧ f (.code (.body .app)) = false) (t : τ) :
    ∀ d ∈ code (W := W) (B := B) idle t, f (.code d) = false := by
  unfold code
  split <;> simp [h]

omit [DecidableEq W] [DecidableEq B] in
theorem boot_saved {f : Instr (Lock W B) (Op τ) (Body τ W B) → Bool}
    (h : f (.code .yield) = false ∧ f (.code (.body .idle)) = false ∧ f (.code (.body .app)) = false) (t : τ) :
    ∀ i ∈ (boot idle main priority clock : State (Lock W B) (Op τ) (Body τ W B) (Content τ W B) τ).saved t,
      f i = false := by
  exact (Everywhere.init (G := fun i => f i = false) (boot_code h)).2 t

theorem boot_codeInv : CodeInv idle
    (boot idle main priority clock : State (Lock W B) (Op τ) (Body τ W B) (Content τ W B) τ) where
  locks := boot_lockInv
  kept := by
    refine ⟨Follows.push trivial fun d hd => ?_, fun t i hi => ?_, fun t i hi => ?_, Or.inr ⟨?_, rfl⟩⟩
    · simpa using boot_code (f := holds) ⟨rfl, rfl, rfl⟩ idle d hd
    · simpa using boot_saved (f := holds) ⟨rfl, rfl, rfl⟩ t i hi
    · exact boot_saved ⟨rfl, rfl, rfl⟩ t i hi
    · exact forall_mem_push (boot_code ⟨rfl, rfl, rfl⟩ idle) (by simp)
  alone hrestore := absurd hrestore (by simp [boot, init, push])
  under := by
    refine BelowEverywhere.init fun t => push_underHandlers trivial fun d hd hP => ?_
    rfl
  parks := by
    refine BelowEverywhere.init fun t => Below.push trivial fun d hd k => ThenParks.of_none ?_
    have hsome := boot_code (f := fun i => (blocking i).isSome) ⟨rfl, rfl, rfl⟩ t d hd
    simpa using hsome
  idle := by
    refine ⟨fun _ i hi => ?_, by simp [boot, init]⟩
    have hstack : i = .code .yield ∨ i = .code (.body .idle) := by simpa [boot, init, code, push] using hi
    rcases hstack with rfl | rfl <;> exact Bool.false_ne_true

theorem boot_placed (hne : idle ≠ main) : Placed idle (startPlace idle main)
    (boot idle main priority clock : State (Lock W B) (Op τ) (Body τ W B) (Content τ W B) τ) := by
  have hhands : hands (boot idle main priority clock : State (Lock W B) (Op τ) (Body τ W B) (Content τ W B) τ) = [] ∧
      picks (boot idle main priority clock : State (Lock W B) (Op τ) (Body τ W B) (Content τ W B) τ) = [] := by
    simp [hands, picks, boot, init, code, push, carried, picked, Body.carried, Body.picked]
  refine ⟨fun u => ?_, fun u hu => ?_, by simp [startPlace, Place.runs]⟩
  · rw [hhands.1, hhands.2]
    have hmain' : ¬ main = idle := fun heq => hne heq.symm
    have hlist : ∀ l : Lock W B, ((start idle main priority clock : Content τ W B).list l).count u =
        (startPlace idle main u : Place W B).count (.list l) := by
      intro l
      by_cases hidle : u = idle
      · subst hidle
        cases l <;> simp [startPlace, start, Place.count, hmain']
      · by_cases hmain : u = main
        · subst hmain
          cases l <;> simp [startPlace, start, Place.count, hidle]
        · have hmain'' : ¬ main = u := fun heq => hmain heq.symm
          cases l <;> simp [startPlace, start, Place.count, hidle, hmain, hmain'']
    refine ⟨hlist, ?_, ?_, ?_, ?_, ?_, ?_, ?_⟩ <;> by_cases hidle : u = idle <;> by_cases hmain : u = main <;>
      simp_all [startPlace, boot, init, start, Place.count, Place.isList, Place.allows]
  · obtain rfl : u = idle := by
      by_contra hidle
      by_cases hmain : u = main
      · subst hmain
        simp [startPlace, hidle] at hu
      · simp [startPlace, hidle, hmain] at hu
    refine ⟨rfl, fun i hi => ?_⟩
    have hstack : i = .code .yield ∨ i = .code (.body .idle) := by simpa [boot, init, code, push] using hi
    rcases hstack with rfl | rfl <;> rfl

theorem boot_placeInv (hne : idle ≠ main) : PlaceInv idle (startPlace idle main)
    (boot idle main priority clock : State (Lock W B) (Op τ) (Body τ W B) (Content τ W B) τ) where
  code := boot_codeInv
  active := Or.inr (Or.inl (by simp [boot, init, start]))
  placed := boot_placed hne

theorem boot_handsInv :
    HandsInv (boot idle main priority clock : State (Lock W B) (Op τ) (Body τ W B) (Content τ W B) τ) where
  backed := by
    refine BelowEverywhere.init fun t => Below.push trivial fun d hd k => Backed.of_not ?_
    exact boot_code (f := accepts) ⟨rfl, rfl, rfl⟩ t d hd
  adds := by
    refine Everywhere.init fun t d hd => addsOnly_of_none ?_
    have hsome := boot_code (f := fun i => (adds i).isSome) ⟨rfl, rfl, rfl⟩ t d hd
    simpa using hsome
  state := by simp [boot, init, start]

/-- Where the tasks are in a state of a run, when no mailbox has thrown one away. -/
theorem exec_placeInv {actions : List (Action (List (HandlerCall τ W B)) (Choice τ W B))} (hne : idle ≠ main)
    (hok : Run.Allowed (step (spec C)) (fun s a => ∀ b ∈ takes s a, b.Clears s.content)
      (boot idle main priority clock) actions)
    (hrun : Run.exec (step (spec C)) (boot idle main priority clock) actions = some s) :
    ∃ place, PlaceInv idle place s ∧ HandsInv s ∧ ∀ u, place u ≠ .lost := by
  refine Run.exec_inv_of_allowed (fun s => ∃ place, PlaceInv idle place s ∧ HandsInv s ∧ ∀ u, place u ≠ .lost)
    ?_ ⟨_, boot_placeInv hne, boot_handsInv, fun u => ?_⟩ hok hrun
  · rintro s a s' ⟨place, hinv, hhands, hlost⟩ hclears hstep
    obtain ⟨place', hinv', hlost'⟩ := hinv.step hstep
    refine ⟨place', hinv', hhands.step hinv hstep, fun u hu => ?_⟩
    rcases hlost' u hu with hu | ⟨b, hb, hnot⟩
    · exact hlost u hu
    · exact hnot (hclears b hb)
  · unfold startPlace
    split
    · simp
    · split <;> simp

/-- The kernel queues are sound. -/
structure QueuesSound (idle : τ) (s : State (Lock W B) (Op τ) (Body τ W B) (Content τ W B) τ) : Prop where
  conserved : AtRest s → Conserved idle s
  /-- `pick_next` finds a task. -/
  pop : ∀ k, s.stack = .code (.body .popNext) :: k →
    popHighestPriority s.content.priority s.content.readyLinkedList ≠ none
  /-- The link of a task that is put into a list is free. A step of a task does not come before
  a PendSV that is pending. -/
  link : ∀ b k t, s.stack = .code (.body b) :: k → (s.pendsv = true → taskLevel s.stack = false) →
    b.links s.content = some t → s.content.linked t = false

/-- No task is lost or duplicated, unless the second access of `wait_until_timeout` finds
another task that waits without a timeout. -/
theorem exec_queuesSound {actions : List (Action (List (HandlerCall τ W B)) (Choice τ W B))} (hne : idle ≠ main)
    (hok : Run.Allowed (step (spec C)) (fun s a => ∀ b ∈ takes s a, b.Clears s.content)
      (boot idle main priority clock) actions)
    (hrun : Run.exec (step (spec C)) (boot idle main priority clock) actions = some s) : QueuesSound idle s := by
  obtain ⟨place, hinv, hhands, hlost⟩ := exec_placeInv hne hok hrun
  exact ⟨hinv.conserved hhands hlost, fun k hk => hinv.pop_ne_none hk, fun b k t hk hready hlinks =>
    hinv.links_free hready hk hlinks⟩

/-- Whom `wait_until_timeout` throws away. -/
def Body.discards (c : Content τ W B) : Body τ W B → Option τ
  | .takeResult m =>
    match c.waitTask m with
    | .withoutTimeout t => some t
    | _ => none
  | _ => none

omit [DecidableEq τ] [DecidableEq W] [DecidableEq B] in
theorem Body.clears_iff : b.Clears c ↔ b.discards c = none := by
  cases b with
  | takeResult m => cases hwait : c.waitTask m <;> simp [Body.Clears, Body.discards, hwait]
  | _ => simp [Body.Clears, Body.discards]

instance : Decidable (b.Clears c) := decidable_of_iff _ Body.clears_iff.symm

/-- The next step of the innermost context. -/
def next (call : Call (Fin 3) Unit Unit) : Action (List (HandlerCall (Fin 3) Unit Unit)) (Choice (Fin 3) Unit Unit) :=
  .run ⟨call, false⟩

def nexts (n : Nat) : List (Action (List (HandlerCall (Fin 3) Unit Unit)) (Choice (Fin 3) Unit Unit)) :=
  List.replicate n (next .yieldCurrent)

/-- The main task makes a task with its own priority, and waits on a mailbox with a timeout. The
mailbox is notified while the other task runs. -/
def timedWait : List (Action (List (HandlerCall (Fin 3) Unit Unit)) (Choice (Fin 3) Unit Unit)) :=
  nexts 1 ++ [.pendsv] ++ nexts 13 ++ [next (.spawn 2)] ++ nexts 11 ++
    [next (.mailWaitUntilTimeout () 5)] ++ nexts 22 ++ [.pendsv] ++ nexts 13 ++ [.preempt [.mailNotify ()]] ++ nexts 30

/-- The other task runs, and the main task is ready. -/
theorem exec_queuesSound_timedWait : ∃ s, Run.exec (step (spec ⟨true, 16⟩))
      (boot 0 1 (fun t => if t = 0 then 15 else 5) 0) timedWait = some s ∧
    s.content.cur = 2 ∧ s.content.readyLinkedList = [0, 1] ∧ QueuesSound 0 s := by
  have hrun : (Run.exec (step (spec ⟨true, 16⟩)) (boot 0 1 (fun t => if t = 0 then 15 else 5) 0) timedWait).map
      (fun s => (s.content.cur, s.content.readyLinkedList)) = some (2, [0, 1]) := by decide +kernel
  obtain ⟨s, hrun, hs⟩ := Option.map_eq_some_iff.mp hrun
  obtain ⟨hcur, hlist⟩ := Prod.mk.inj hs
  exact ⟨s, hrun, hcur, hlist, exec_queuesSound (by decide) (by decide +kernel) hrun⟩

/-- The other task waits without a timeout, and then the main task throws it away. -/
def thrownAway : List (Action (List (HandlerCall (Fin 3) Unit Unit)) (Choice (Fin 3) Unit Unit)) :=
  timedWait ++ [next (.mailWait ())] ++ nexts 12 ++ [.pendsv] ++ nexts 22

/-- The other task is alive, it is not the current one, and it is in no queue. -/
theorem exec_loses : ∃ s, Run.exec (step (spec ⟨true, 16⟩))
      (boot 0 1 (fun t => if t = 0 then 15 else 5) 0) thrownAway = some s ∧ AtRest s ∧
    s.content.spawned 2 = true ∧ s.content.state 2 = .blocked ∧ s.content.cur = 1 ∧ s.content.Nowhere 2 ∧
    ¬ Conserved 0 s := by
  have hrun : (Run.exec (step (spec ⟨true, 16⟩)) (boot 0 1 (fun t => if t = 0 then 15 else 5) 0) thrownAway).map
      (fun s => ([.ready, .sleep, .waitQueue (), .mailbox ()].map fun l => (marks own l s.stack).length,
        [.list .ready, .list .sleep, .list (.waitQueue ()), .buffer, .slot ()].map (s.content.occurs 2),
        s.content.spawned 2, s.content.state 2, s.content.cur)) =
      some ([0, 0, 0, 0], [0, 0, 0, 0, 0], true, .blocked, 1) := by decide +kernel
  obtain ⟨s, hrun, hs⟩ := Option.map_eq_some_iff.mp hrun
  simp only [Prod.mk.injEq, List.map_cons, List.map_nil, List.cons.injEq, List.length_eq_zero_iff] at hs
  obtain ⟨⟨hready, hsleep, hqueue, hmailbox, -⟩, ⟨h₁, h₂, h₃, h₄, h₅, -⟩, hspawned, hstate, hcur⟩ := hs
  have hrest : AtRest s := by
    rintro (_ | _ | ⟨⟨⟩⟩ | ⟨⟨⟩⟩)
    exacts [hready, hsleep, hqueue, hmailbox]
  have hnowhere : s.content.Nowhere 2 := by
    rintro ((_ | _ | ⟨⟨⟩⟩ | _) | _ | ⟨⟨⟩⟩)
    exacts [h₁, h₂, h₃, rfl, h₄, h₅]
  refine ⟨s, hrun, hrest, hspawned, hstate, hcur, hnowhere, fun h => ?_⟩
  rcases h.once 2 hspawned (by simp [hstate]) with ⟨q, hq, -⟩ | ⟨heq, -⟩
  · rw [hnowhere q] at hq
    cases hq
  · rw [hcur] at heq
    exact absurd heq (by decide)

end Runs

end Hopter.Kernel
