-- SUMMARY: Tasks on the CPU and tasks in the hands of code: what blocks a task, what a blocked task does next, and what built-in steps leave alone.
import Hopter.Exec.Tasks
import Hopter.Kernel.Places
import Hopter.Kernel.Preemption

/-!
# Placement

Every task is in one place in every state (`Conservation`). A step moves one task at most (`Places`);
a task that blocks has to be on the CPU when it does. A task that has blocked
does nothing but go on to yield (`Parks`), and then PendSV switches it out.
-/

namespace Hopter.Kernel

open Exec Hopter.Task

variable {τ W B : Type} [DecidableEq τ] [DecidableEq W] [DecidableEq B]
  {C : Config} {c c' : Content τ W B} {b : Body τ W B} {cs : List (KCode τ W B)}
  {s s' : State (Lock W B) (Op τ) (Body τ W B) (Content τ W B) τ}
  {k : List (Instr (Lock W B) (Op τ) (Body τ W B))} {i : Instr (Lock W B) (Op τ) (Body τ W B)}

-- ---------------------------------------------------------------------------
-- Code that runs on the CPU
-- ---------------------------------------------------------------------------

def Op.isWait : Op τ → Bool
  | .wait | .waitUntil | .waitUntilTimeout _ => true
  | _ => false

/-- Code of tasks, other than the code with which a task yields. -/
def forTask : Instr (Lock W B) (Op τ) (Body τ W B) → Bool
  | .code (.body b) => b.ofTask || b.blocks
  | .code (.suspended _) => true
  | .code (.access _ _ op) | .guard _ _ op => op.isWait
  | _ => false

omit [DecidableEq τ] [DecidableEq W] [DecidableEq B] in
theorem forall_not_forTask {ds : List (KCode τ W B)} (h : (ds.all fun d => !forTask (.code d)) = true) :
    ∀ d ∈ ds, ¬ forTask (.code d) = true :=
  fun d hd => by simpa using List.all_eq_true.mp h d hd

theorem ofTask_spec : OfTask (spec (τ := τ) (W := W) (B := B) C) fun i => forTask i = true where
  control i hi := by
    cases i with
    | code d => cases d <;> first | exact Bool.false_ne_true | exact absurd hi (by simp [Instr.isControl])
    | guard l must op => simp [Instr.isControl] at hi
    | _ => exact Bool.false_ne_true
  guard l must op h := h
  suspended b h := rfl
  full l must op := by
    change ∀ d ∈ fullAccess l op, _
    unfold fullAccess
    split <;> first | exact fun d hd h => absurd h (forall_not_forTask rfl d hd) | exact fun _ _ _ => rfl
  pend l op := by
    change ∀ d ∈ pendOnlyAccess l op, _
    unfold pendOnlyAccess
    split <;> exact forall_not_forTask rfl
  pended l := by cases l <;> exact forall_not_forTask rfl
  handler := forall_handlerCode fun call => by cases call <;> exact forall_not_forTask rfl
  pickNext := forall_not_forTask rfl
  exec := by
    intro c b x c' cs hexec
    cases exec_outcome hexec with
    | @subCount m p => cases p <;> exact fun d hd h => absurd h (forall_not_forTask rfl d hd)
    | _ => first | exact fun _ _ _ => rfl | exact fun d hd h => absurd h (forall_not_forTask rfl d hd)

-- ---------------------------------------------------------------------------
-- Tasks that yield next
-- ---------------------------------------------------------------------------

/-- The task yields; when `flag` says so, because `should_block` is set. -/
def yields (flag : Bool) : Instr (Lock W B) (Op τ) (Body τ W B) → Bool
  | .code .yield => true
  | .code (.body (.waited _)) | .code (.body (.waitedUntil _)) | .code (.body (.waitedTimeout _)) => flag
  | _ => false

/-- The task does nothing but yield. -/
def Parks (flag : Bool) : List (Instr (Lock W B) (Op τ) (Body τ W B)) → Prop
  | [] => False
  | i :: k => yields flag i = true ∨ forTask i = false ∧ Parks flag k

omit [DecidableEq τ] [DecidableEq W] [DecidableEq B] in
theorem Parks.push {flag : Bool} (h : Parks flag k) (hcs : ∀ d ∈ cs, ¬ forTask (.code d) = true) :
    Parks flag (push cs k) := by
  induction cs with
  | nil => exact h
  | cons d cs ih =>
    rw [List.forall_mem_cons] at hcs
    exact Or.inr ⟨by simpa using hcs.1, ih hcs.2⟩

omit [DecidableEq τ] [DecidableEq W] [DecidableEq B] in
theorem Parks.mono {flag : Bool} (h : Parks false k) : Parks flag k := by
  induction k with
  | nil => exact h
  | cons i k ih =>
    rcases h with hi | ⟨hi, hk⟩
    · refine Or.inl ?_
      unfold yields at hi ⊢
      split at hi <;> first | rfl | cases hi
    · exact Or.inr ⟨hi, ih hk⟩

/-- The code blocks the task: `some true` when it sets `should_block`. -/
def Body.blocking : Body τ W B → Option Bool
  | .pushWait _ | .addCurTask _ | .dropCurrentTask => some false
  | .checkCondition _ | .checkCount _ | .checkCountTimeout _ _ => some true
  | _ => none

def Op.blocking : Lock W B → Op τ → Option Bool
  | .waitQueue _, .wait => some false
  | .waitQueue _, .waitUntil | .mailbox _, .wait | .mailbox _, .waitUntilTimeout _ => some true
  | _, _ => none

def blocking : Instr (Lock W B) (Op τ) (Body τ W B) → Option Bool
  | .code (.body b) | .code (.suspended b) => b.blocking
  | .code (.access l _ op) | .guard l _ op => op.blocking l
  | _ => none

/-- A task that may block yields afterwards. -/
def ThenParks (i : Instr (Lock W B) (Op τ) (Body τ W B)) (k : List (Instr (Lock W B) (Op τ) (Body τ W B))) :
    Prop := ∀ flag, blocking i = some flag → Parks flag k

omit [DecidableEq τ] [DecidableEq W] [DecidableEq B] in
theorem ThenParks.of_none (h : blocking i = none) : ThenParks i k := by
  intro flag hflag
  rw [h] at hflag
  cases hflag

omit [DecidableEq τ] [DecidableEq W] [DecidableEq B] in
theorem below_push {ds : List (KCode τ W B)} (h : Below ThenParks k)
    (hds : (ds.all fun d => (blocking (.code d)).isNone) = true) : Below ThenParks (push ds k) :=
  h.push fun d hd k => ThenParks.of_none (by simpa using List.all_eq_true.mp hds d hd)

theorem keeps_thenParks : Keeps (spec (τ := τ) (W := W) (B := B) C) ThenParks where
  control i k hi := by
    refine ThenParks.of_none ?_
    cases i with
    | code d => cases d <;> first | rfl | exact absurd hi (by simp [Instr.isControl])
    | guard l must op => simp [Instr.isControl] at hi
    | _ => rfl
  guard l must op k h flag hflag := Or.inr ⟨rfl, h flag hflag⟩
  suspended b k h flag hflag := Or.inr ⟨rfl, h flag hflag⟩
  full l must op k h hk := by
    change Below ThenParks (push (fullAccess l op) _)
    have hguard : ThenParks (.swapPending l) k := ThenParks.of_none rfl
    have hblocking : ∀ {b : Body τ W B}, blocking (.guard l must op) = b.blocking →
        Below ThenParks (push [.body b] (.swapPending l :: k)) := fun heq =>
      ⟨fun flag hflag => Or.inr ⟨rfl, h flag (heq.trans hflag)⟩, hguard, hk⟩
    unfold fullAccess
    split <;> first | exact hblocking rfl | exact below_push ⟨hguard, hk⟩ rfl
  pend l op k h hk := by
    change Below ThenParks (push (pendOnlyAccess l op) _)
    have hguard : ThenParks (.setPending l) k := ThenParks.of_none rfl
    unfold pendOnlyAccess
    split <;> exact below_push ⟨hguard, hk⟩ rfl
  pended l k hk := by
    have hguard : ThenParks (.unlock l) k := ThenParks.of_none rfl
    cases l <;> exact below_push ⟨hguard, hk⟩ rfl
  handler calls k hk := by
    have hguard : ThenParks .iret k := ThenParks.of_none rfl
    refine Below.push ⟨hguard, hk⟩ fun d hd k => ThenParks.of_none ?_
    revert d
    exact forall_handlerCode (fun call => by cases call <;> simp [HandlerCall.code, blocking, Op.blocking, Body.blocking]) calls
  pickNext := ⟨ThenParks.of_none rfl, ThenParks.of_none rfl, trivial⟩
  exec := by
    intro c b x c' cs k hexec h hk
    cases exec_outcome hexec with
    | app call =>
      have hnone : ∀ {i : Instr (Lock W B) (Op τ) (Body τ W B)} {k}, blocking i = none → ThenParks i k :=
        ThenParks.of_none
      cases call with
      | wait w | waitUntil w | mailWait m | mailWaitUntilTimeout m ms =>
        refine ⟨hnone rfl, fun flag hflag => Or.inl ?_, hnone rfl, hnone rfl, hk⟩
        cases hflag
        rfl
      | exit =>
        refine ⟨fun flag hflag => Or.inl ?_, hnone rfl, hk⟩
        cases hflag
        rfl
      | _ => exact below_push hk rfl
    | retry _ =>
      refine ⟨ThenParks.of_none rfl, ThenParks.of_none rfl, fun flag hflag => Or.inl ?_, ThenParks.of_none rfl, hk⟩
      cases hflag
      rfl
    | sleep _ =>
      refine ⟨ThenParks.of_none rfl, fun flag hflag => Or.inl ?_, ThenParks.of_none rfl, hk⟩
      cases hflag
      rfl
    | @subCount m p => cases p <;> exact below_push hk rfl
    | _ => exact below_push hk rfl

/-- The built-in steps lead on to the yield. -/
theorem Parks.control {flag : Bool} (h : Parks flag s.stack) (hstep : Control (spec C) s s') :
    s'.pendsv = true ∨ Parks flag s'.stack ∨
      s'.stack = Exec.push (spec (τ := τ) (W := W) (B := B) C).pickNext [.restore] := by
  have hof := ofTask_spec (τ := τ) (W := W) (B := B) (C := C)
  -- The instruction on top of the stack does not yield.
  have hrest : ∀ {i k}, s.stack = i :: k → yields flag i = false → forTask i = false ∧ Parks flag k := by
    intro i k hk hi
    rw [hk] at h
    exact h.resolve_left (by simp [hi])
  have hskip : ∀ {i : Instr (Lock W B) (Op τ) (Body τ W B)} {k}, forTask i = false → Parks flag k →
      Parks flag (i :: k) := fun hi hk => Or.inr ⟨hi, hk⟩
  cases hstep with
  | access hk =>
    obtain ⟨hi, hp⟩ := hrest hk rfl
    exact Or.inr (Or.inl (hskip hi (hskip rfl hp)))
  | suspended hk => exact absurd (hrest hk rfl).1 (by simp [forTask])
  | win hk _ =>
    obtain ⟨hi, hp⟩ := hrest hk rfl
    exact Or.inr (Or.inl (Parks.push (hskip rfl hp) fun d hd hP => by simp [hof.full _ _ _ d hd hP] at hi))
  | lose hk _ =>
    obtain ⟨hi, hp⟩ := hrest hk rfl
    exact Or.inr (Or.inl (Parks.push (hskip rfl hp) (hof.pend _ _)))
  | settle hk _ =>
    obtain ⟨hi, hp⟩ := hrest hk rfl
    exact Or.inr (Or.inl (Parks.push (hskip rfl hp) (hof.pended _)))
  | yield hk => exact Or.inl rfl
  | mayBlock hk _ _ => exact Or.inr (Or.inl (hrest hk rfl).2)
  | setPending hk | leave hk _ | iret hk => exact Or.inr (Or.inl (hrest hk rfl).2)
  | reschedule hk _ => exact Or.inr (Or.inl (hrest hk rfl).2)
  | pass hk _ | unlock hk | retry hk _ | relock hk _ | resume hk =>
    exact Or.inr (Or.inl (hskip rfl (hrest hk rfl).2))
  | restore hk => exact absurd (hrest hk rfl).2 id
  | preempt n => exact Or.inr (Or.inl (Parks.push (hskip rfl h) (hof.handler n)))
  | pendsv _ _ => exact Or.inr (Or.inr rfl)

/-- A step of the kernel queues. -/
theorem Parks.body {x : Choice τ W B} (h : Parks (c.shouldBlock c.cur) (.code (.body b) :: k))
    (hexec : exec C c b x = some (c', cs)) (hcur : ∀ t, b ≠ .updateCurTask t) :
    Parks (c'.shouldBlock c'.cur) (Exec.push cs k) := by
  rcases h with hb | ⟨hb, hk⟩
  · -- `should_block` is set, and the step goes on with the yield.
    have hyield : ∀ {ds : List (KCode τ W B)}, cs = .yield :: ds →
        Parks (c'.shouldBlock c'.cur) (Exec.push cs k) := by
      rintro ds rfl
      exact Or.inl rfl
    cases b with
    | waited m | waitedUntil w | waitedTimeout m =>
      simp only [exec, Option.some.injEq, Prod.mk.injEq, show c.shouldBlock c.cur = true from hb, if_true] at hexec
      exact hyield hexec.2.symm
    | _ => cases hb
  · have hnot : ∀ d ∈ cs, ¬ forTask (.code d) = true := fun d hd hP => by
      have := (ofTask_spec (C := C)).exec hexec d hd hP
      simp [this] at hb
    have hblock : b.blocks = false := (Bool.or_eq_false_iff.mp hb).2
    have hout := exec_outcome hexec
    rw [hout.cur_eq hcur, hout.shouldBlock_eq hblock]
    exact hk.push hnot

-- ---------------------------------------------------------------------------
-- PendSV
-- ---------------------------------------------------------------------------

/-- `pick_next` runs in PendSV. Outside of it, the current task is the one whose context the
CPU holds. -/
structure Switching (s : State (Lock W B) (Op τ) (Body τ W B) (Content τ W B) τ) : Prop where
  saved : ∀ t, ∀ i ∈ s.saved t, chooses i = false
  stack : .restore ∈ s.stack ∨ (∀ i ∈ s.stack, chooses i = false) ∧ s.content.cur = s.running

omit [DecidableEq τ] [DecidableEq W] [DecidableEq B] in
theorem forall_not_chooses {ds : List (KCode τ W B)} (h : (ds.all fun d => !chooses (.code d)) = true) :
    ∀ d ∈ ds, chooses (.code d) = false :=
  fun d hd => by simpa using List.all_eq_true.mp h d hd

/-- Only choices lead on to choices. -/
theorem Outcome.chooses (h : Outcome C c b c' cs)
    (hb : chooses (.code (.body b) : Instr (Lock W B) (Op τ) (Body τ W B)) = false) :
    ∀ d ∈ cs, chooses (.code d) = false := by
  cases h with
  | cleanUpRunning | cleanUp | popNext => cases hb
  | app call => cases call <;> exact forall_not_chooses rfl
  | @subCount m p => cases p <;> exact forall_not_chooses rfl
  | _ => exact forall_not_chooses rfl

theorem Switching.body (h : Switching s) (hk : s.stack = .code (.body b) :: k)
    (hstep : Outcome C s.content b c' cs) : Switching { s with content := c', stack := push cs k } := by
  refine ⟨h.saved, ?_⟩
  rcases h.stack with hrestore | ⟨hstack, hcur⟩
  · rw [hk] at hrestore
    exact Or.inl (List.mem_append_right _ (by simpa using hrestore))
  · rw [hk, List.forall_mem_cons] at hstack
    refine Or.inr ⟨forall_mem_push (hstep.chooses hstack.1) hstack.2, ?_⟩
    rw [← hcur]
    refine hstep.cur_eq ?_
    rintro t rfl
    cases hstack.1

omit [DecidableEq τ] [DecidableEq W] [DecidableEq B] in
/-- The accesses of tasks and handlers choose nothing. -/
theorem full_not_chooses {l : Lock W B} {must : Bool} {op : Op τ} (hproper : op.proper l must = true)
    (h : chooses (.guard l must op : Instr (Lock W B) (Op τ) (Body τ W B)) = false) :
    ∀ d ∈ fullAccess l op, chooses (.code d : Instr (Lock W B) (Op τ) (Body τ W B)) = false := by
  unfold fullAccess
  split <;> try exact forall_not_chooses rfl
  cases must with
  | true => cases h
  | false => cases hproper

theorem Switching.control (hproper : Everywhere (fun i => proper i = true) s) (h : Switching s)
    (hstep : Control (spec C) s s') : Switching s' := by
  -- A step that stays in the context.
  have hsame : ∀ {i k N}, s.stack = i :: k → s'.stack = N ++ k → s'.saved = s.saved →
      s'.running = s.running → (.restore ∈ i :: k → .restore ∈ k) →
      (chooses i = false → ∀ j ∈ N, chooses j = false) → Switching s' := by
    intro i k N hk hk' hsaved hrunning hrestore hnew
    refine ⟨by rw [hsaved]; exact h.saved, ?_⟩
    rw [hk', hrunning, hstep.content_eq]
    have hstack := h.stack
    rw [hk] at hstack
    rcases hstack with hmem | ⟨hall, hcur⟩
    · exact Or.inl (List.mem_append_right _ (hrestore hmem))
    · rw [List.forall_mem_cons] at hall
      refine Or.inr ⟨fun j hj => ?_, hcur⟩
      rcases List.mem_append.mp hj with hj | hj
      · exact hnew hall.1 j hj
      · exact hall.2 j hj
  have hcodes : ∀ {ds : List (KCode τ W B)} {j}, (∀ d ∈ ds, chooses (.code d) = false) → chooses j = false →
      ∀ j' ∈ (ds.map Instr.code ++ [j] : List (Instr (Lock W B) (Op τ) (Body τ W B))), chooses j' = false := by
    intro ds j hds hj j' hj'
    rcases List.mem_append.mp hj' with hj' | hj'
    · obtain ⟨d, hd, rfl⟩ := List.mem_map.mp hj'
      exact hds d hd
    · obtain rfl := List.mem_singleton.mp hj'
      exact hj
  cases hstep with
  | @access l must op k hk =>
    refine hsame (N := [.guard l must op, .resume]) hk rfl rfl rfl (by simp) fun hi => ?_
    refine List.forall_mem_cons.mpr ⟨?_, List.forall_mem_singleton.mpr rfl⟩
    cases l <;> cases must <;> cases op <;> first | rfl | exact hi
  | @suspended b k hk =>
    refine hsame (N := [.code (.body b), .resume]) hk rfl rfl rfl (by simp) fun hi => ?_
    have hb : b.suspends = true := hproper.1 (.code (.suspended b)) (by simp [hk])
    refine List.forall_mem_cons.mpr ⟨?_, List.forall_mem_singleton.mpr rfl⟩
    cases b <;> first | rfl | cases hb
  | @win l must op k hk _ =>
    refine hsame (N := (fullAccess l op).map Instr.code ++ [.swapPending l]) hk (by simp [Exec.push, spec]) rfl rfl
      (by simp) fun hi => hcodes (full_not_chooses ?_ hi) rfl
    exact hproper.1 (.guard l must op) (by simp [hk])
  | @lose l op k hk _ =>
    refine hsame (N := (pendOnlyAccess l op).map Instr.code ++ [.setPending l]) hk (by simp [Exec.push, spec]) rfl rfl
      (by simp) fun _ => hcodes ?_ rfl
    unfold pendOnlyAccess
    split <;> exact forall_not_chooses rfl
  | @settle l k hk _ =>
    refine hsame (N := (runPendedOp l).map Instr.code ++ [.unlock l]) hk (by simp [Exec.push, spec]) rfl rfl
      (by simp) fun _ => hcodes ?_ rfl
    cases l <;> exact forall_not_chooses rfl
  | mayBlock hk _ _ => exact hsame (N := []) hk rfl rfl rfl (by simp) (by simp)
  | yield hk | setPending hk | leave hk _ | iret hk => exact hsame (N := []) hk rfl rfl rfl (by simp) (by simp)
  | reschedule hk _ => exact hsame (N := []) hk rfl rfl rfl (by simp) (by simp)
  | pass hk _ | unlock hk | retry hk _ | relock hk _ | resume hk =>
    exact hsame (N := [_]) hk rfl rfl rfl (by simp) fun _ => List.forall_mem_singleton.mpr rfl
  | restore hk =>
    refine ⟨fun t i hi => ?_, Or.inr ⟨h.saved _, rfl⟩⟩
    by_cases ht : t = s.content.cur
    · subst ht
      simp [spec] at hi
    · exact h.saved t i (by simpa [spec, Function.update_of_ne ht] using hi)
  | preempt calls =>
    have hhandler : ∀ d ∈ calls.flatMap HandlerCall.code, chooses (.code d : Instr (Lock W B) (Op τ) (Body τ W B)) = false :=
      forall_handlerCode (fun call => by cases call <;> exact forall_not_chooses rfl) calls
    refine ⟨h.saved, ?_⟩
    rcases h.stack with hmem | ⟨hall, hcur⟩
    · exact Or.inl (List.mem_append_right _ (List.mem_cons_of_mem _ hmem))
    · exact Or.inr ⟨forall_mem_push hhandler (List.forall_mem_cons.mpr ⟨rfl, hall⟩), hcur⟩
  | pendsv _ htask =>
    refine ⟨fun t i hi => ?_, Or.inl (List.mem_append_right _ (List.mem_singleton_self _))⟩
    by_cases ht : t = s.running
    · subst ht
      rcases h.stack with hmem | ⟨hall, -⟩
      · exact absurd (List.all_eq_true.mp htask _ hmem) (by simp [Instr.isFrame])
      · exact hall i (by simpa using hi)
    · exact h.saved t i (by simpa [Function.update_of_ne ht] using hi)

-- ---------------------------------------------------------------------------
-- Tasks in the hands of code
-- ---------------------------------------------------------------------------

/-- Code that has a task in its hands, or is about to have the current one. -/
def holds : Instr (Lock W B) (Op τ) (Body τ W B) → Bool
  | .code (.body (.addCurTask _)) => true
  | i => (carried i).isSome

omit [DecidableEq τ] [DecidableEq W] [DecidableEq B] in
theorem carried_of_not_holds (h : ¬ holds i = true) : carried i = none := by
  cases hi : carried i with
  | none => rfl
  | some t =>
    refine absurd ?_ h
    unfold holds
    split
    · rfl
    · simp [hi]

omit [DecidableEq τ] [DecidableEq W] [DecidableEq B] in
theorem picked_of_not_chooses (h : chooses i = false) : picked i = none := by
  unfold picked
  split
  · rename_i b
    cases b <;> first | rfl | cases h
  · rfl

omit [DecidableEq τ] [DecidableEq W] [DecidableEq B] in
theorem forall_not_holds {ds : List (KCode τ W B)} (h : (ds.all fun d => !holds (.code d)) = true) :
    ∀ d ∈ ds, ¬ holds (.code d) = true :=
  fun d hd => by simpa using List.all_eq_true.mp h d hd

theorem shelters : Shelters own (spec (τ := τ) (W := W) (B := B) C) fun i => holds i = true where
  control i hi := by
    cases i with
    | code d => cases d <;> first | exact Bool.false_ne_true | exact absurd hi (by simp [Instr.isControl])
    | guard l must op => simp [Instr.isControl] at hi
    | _ => exact Bool.false_ne_true
  full l must op := by
    change ∀ d ∈ fullAccess l op, _
    unfold fullAccess
    split <;> first | exact fun _ _ _ => rfl | exact fun d hd h => absurd h (forall_not_holds rfl d hd)
  pend l op := by
    change ∀ d ∈ pendOnlyAccess l op, _
    unfold pendOnlyAccess
    split <;> first | exact fun _ _ _ => rfl | exact fun d hd h => absurd h (forall_not_holds rfl d hd)
  pended l := by cases l <;> exact forall_not_holds rfl
  handler := forall_handlerCode fun call => by cases call <;> exact forall_not_holds rfl
  pickNext := forall_not_holds rfl
  exec := by
    intro c b x c' cs hexec
    cases exec_outcome hexec with
    | app call => cases call <;> exact fun d hd h => absurd h (forall_not_holds rfl d hd)
    | @subCount m p => cases p <;> exact fun d hd h => absurd h (forall_not_holds rfl d hd)
    | addCurTask => exact fun _ _ _ => Or.inl rfl
    | _ => first | exact fun d hd h => absurd h (forall_not_holds rfl d hd) | exact fun _ _ _ => Or.inr rfl

/-- The tasks in the hands of the code on the stack. -/
def hands (s : State (Lock W B) (Op τ) (Body τ W B) (Content τ W B) τ) : List τ := s.stack.filterMap carried

/-- The task that `pick_next` has chosen, when it has not made it current yet. -/
def picks (s : State (Lock W B) (Op τ) (Body τ W B) (Content τ W B) τ) : List τ := s.stack.filterMap picked

omit [DecidableEq τ] [DecidableEq W] [DecidableEq B] in
/-- An access takes its task over from the code that begins it. -/
theorem codeCarried_full {l : Lock W B} {must : Bool} {op : Op τ} (h : op.proper l must = true) :
    codeCarried (fullAccess l op) = op.carried.toList := by
  cases l <;> cases must <;> cases op <;> first | rfl | cases h

omit [DecidableEq τ] [DecidableEq W] [DecidableEq B] in
theorem codeCarried_pend {l : Lock W B} {op : Op τ} (h : op.proper l false = true) :
    codeCarried (pendOnlyAccess l op) = op.carried.toList := by
  cases l <;> cases op <;> first | rfl | cases h

/-- What the built-in steps leave in the hands of code. -/
structure Kept (s : State (Lock W B) (Op τ) (Body τ W B) (Content τ W B) τ) : Prop where
  sheltered : Follows (fun i => holds i = true) (· = .resume) s.stack
  saved : ∀ t, ∀ i ∈ s.saved t, ¬ holds i = true
  switching : Switching s

omit [DecidableEq τ] [DecidableEq W] [DecidableEq B] in
theorem codePicked_full (l : Lock W B) (op : Op τ) : codePicked (fullAccess l op) = [] := by
  cases l <;> cases op <;> rfl

omit [DecidableEq τ] [DecidableEq W] [DecidableEq B] in
theorem codePicked_pend (l : Lock W B) (op : Op τ) : codePicked (pendOnlyAccess l op) = [] := by
  cases l <;> cases op <;> rfl

omit [DecidableEq τ] [DecidableEq W] [DecidableEq B] in
theorem Kept.hands_nil (h : Kept s) {t : τ} : (s.saved t).filterMap carried = [] ∧ (s.saved t).filterMap picked = [] :=
  ⟨List.filterMap_eq_nil_iff.mpr fun i hi => carried_of_not_holds (h.saved t i hi),
    List.filterMap_eq_nil_iff.mpr fun i hi => picked_of_not_chooses (h.switching.saved t i hi)⟩

omit [DecidableEq τ] [DecidableEq W] [DecidableEq B] in
theorem handlerCode_nil {α : Type} {f : Instr (Lock W B) (Op τ) (Body τ W B) → Option α}
    (h : ∀ call : HandlerCall τ W B, ∀ d ∈ call.code, f (.code d) = none) (calls : List (HandlerCall τ W B)) :
    (calls.flatMap HandlerCall.code).filterMap (fun d => f (.code d)) = [] :=
  List.filterMap_eq_nil_iff.mpr (forall_handlerCode h calls)

omit [DecidableEq τ] in
/-- Sheltered code is not on the stack when PendSV switches tasks. -/
theorem Sound.not_sheltered (hsound : Sound own s) {P : Instr (Lock W B) (Op τ) (Body τ W B) → Prop}
    (h : Follows P (· = .resume) s.stack) (hsus : s.suspendCnt = 0) : ∀ i ∈ s.stack, ¬ P i := by
  refine h.not_mem fun j hj => ?_
  have hcount := hsound.suspend
  rw [hsus, eq_comm, List.countP_eq_zero] at hcount
  simpa using hcount j hj

theorem conveys_carried (hinv : LockInv s) :
    Conveys (spec (τ := τ) (W := W) (B := B) C) carried s where
  control i hi := by
    cases i with
    | code d => cases d <;> first | rfl | exact absurd hi (by simp [Instr.isControl])
    | guard l must op => simp [Instr.isControl] at hi
    | _ => rfl
  guard l must op := rfl
  suspended b hb := by
    have hb : b.suspends = true := hinv.proper.1 _ hb
    cases b <;> first | rfl | cases hb
  full l must op hop := codeCarried_full (hinv.proper.1 _ hop)
  pend l op hop := codeCarried_pend (hinv.proper.1 _ hop)
  pended l := by cases l <;> rfl
  handler := handlerCode_nil fun call => by
    cases call <;> simp [HandlerCall.code, carried, Body.carried, Op.carried]
  pickNext := rfl

theorem conveys_picked (hinv : LockInv s) :
    Conveys (spec (τ := τ) (W := W) (B := B) C) picked s where
  control i hi := by
    cases i with
    | code d => cases d <;> first | rfl | exact absurd hi (by simp [Instr.isControl])
    | guard l must op => simp [Instr.isControl] at hi
    | _ => rfl
  guard l must op := rfl
  suspended b hb := by
    have hb : b.suspends = true := hinv.proper.1 _ hb
    cases b <;> first | rfl | cases hb
  full l must op hop := codePicked_full l op
  pend l op hop := codePicked_pend l op
  pended l := by cases l <;> rfl
  handler := handlerCode_nil fun call => by cases call <;> simp [HandlerCall.code, picked, Body.picked]
  pickNext := rfl

/-- The built-in steps leave the tasks where they are. -/
theorem Control.hands_eq (hinv : LockInv s) (hkept : Kept s) (hstep : Control (spec C) s s') :
    hands s' = hands s ∧ picks s' = picks s := by
  refine ⟨(conveys_carried hinv).filterMap_eq (fun t => hkept.hands_nil.1) (fun hsus _ => ?_) hstep,
    (conveys_picked hinv).filterMap_eq (fun t => hkept.hands_nil.2) (fun _ htask => ?_) hstep⟩
  · exact List.filterMap_eq_nil_iff.mpr fun i hi =>
      carried_of_not_holds (Sound.not_sheltered hinv.sound hkept.sheltered hsus i hi)
  · rcases hkept.switching.stack with hmem | ⟨hall, -⟩
    · exact absurd (List.all_eq_true.mp htask _ hmem) (by simp [Instr.isFrame])
    · exact List.filterMap_eq_nil_iff.mpr fun i hi => picked_of_not_chooses (hall i hi)

end Hopter.Kernel
