-- SUMMARY: One mailbox: its fields, what the accesses to it have left to do, and how a step changes them.
import Hopter.Kernel.Removals

/-!
# One mailbox

A step changes one mailbox at most. What it does to the mailbox `m` is read off here: to the
fields of the mailbox (`Mail`), and to the parts of accesses that are still to be done (`Chore`).
When a step of a full access runs, no other part of an access to the mailbox is in progress.

As in the model, `count` and `pending_count` are below `2^32` and do not wrap around.
-/

namespace Hopter.Kernel

open Exec Hopter.Task

variable {τ W B : Type} [DecidableEq τ] [DecidableEq W] [DecidableEq B]
  {C : Config} {c c' : Content τ W B} {b : Body τ W B} {cs : List (KCode τ W B)} {m : B}
  {s s' : State (Lock W B) (Op τ) (Body τ W B) (Content τ W B) τ}
  {k : List (Instr (Lock W B) (Op τ) (Body τ W B))}

-- ---------------------------------------------------------------------------
-- The fields
-- ---------------------------------------------------------------------------

/-- The fields of a mailbox, with its history. -/
structure Mail (τ : Type) where
  waitTask : WaitTask τ
  count : Nat
  pendingCount : Nat
  taskNotified : Bool
  issued : Nat
  received : Nat
  handed : Bool

def Content.mail (c : Content τ W B) (m : B) : Mail τ where
  waitTask := c.waitTask m
  count := c.count m
  pendingCount := c.pendingCount m
  taskNotified := c.taskNotified m
  issued := c.issued m
  received := c.received m
  handed := c.handed m

/-- The task waits, with a timeout or without one. -/
def WaitTask.waiting (timed : Bool) (t : τ) : WaitTask τ :=
  if timed = true then .withTimeout t else .withoutTimeout t

-- ---------------------------------------------------------------------------
-- What is left to do
-- ---------------------------------------------------------------------------

/-- A part of an access to a mailbox. -/
inductive Chore where
  /-- The closure of a wait. -/
  | check
  /-- A notification with pend-only access: it is counted, and then the flag is set. -/
  | pend
  | flag
  -- `run_pended_op`
  | swap
  | add (n : Nat)
  | take
  | sub (timed : Bool)
  /-- `task_notified` is set. -/
  | note
  deriving DecidableEq

def Body.chore (m : B) : Body τ W B → Option Chore
  | .checkCount m' | .checkCountTimeout m' _ => if m' = m then some .check else none
  | .addPending m' => if m' = m then some .pend else none
  | .swapPendingCount m' => if m' = m then some .swap else none
  | .addCount m' n => if m' = m then some (.add n) else none
  | .takePended m' => if m' = m then some .take else none
  | .subCount m' timed => if m' = m then some (.sub timed) else none
  | .setNotified m' => if m' = m then some .note else none
  | _ => none

def chore (m : B) : Instr (Lock W B) (Op τ) (Body τ W B) → Option Chore
  | .code (.body b) => b.chore m
  | .setPending l => if l = .mailbox m then some .flag else none
  | _ => none

/-- What the accesses to the mailbox have left to do, the next first. -/
def chores (m : B) (s : State (Lock W B) (Op τ) (Body τ W B) (Content τ W B) τ) : List Chore :=
  s.stack.filterMap (chore m)

def codeChores (m : B) (cs : List (KCode τ W B)) : List Chore := cs.filterMap fun d => chore m (.code d)

omit [DecidableEq τ] in
theorem chores_body (hk : s.stack = .code (.body b) :: k) :
    chores m s = (b.chore m).toList ++ k.filterMap (chore m) ∧
      chores m { s with content := c', stack := push cs k } = codeChores m cs ++ k.filterMap (chore m) := by
  rw [chores, chores, hk, filterMap_top, filterMap_push]
  exact ⟨rfl, rfl⟩

-- ---------------------------------------------------------------------------
-- Steps of the kernel queues
-- ---------------------------------------------------------------------------

/-- What a step does to a mailbox: the fields after the step, and the chores that it goes on with. -/
inductive MailStep (c : Content τ W B) (m : B) : Body τ W B → Mail τ → List Chore → Prop where
  /-- The step is about something else. -/
  | other {b : Body τ W B} (hchore : b.chore m = none) (hengages : ∀ timed, b.engages c ≠ some (m, timed))
      (hover : b.disengages ≠ some m) : MailStep c m b (c.mail m) []
  /-- A wait gets a notification and does not block. -/
  | receive {b : Body τ W B} {timed} (hb : b.opening = some ⟨m, timed, false⟩) (hwait : c.waitTask m = .noTask)
      (hcount : 0 < c.count m) :
    MailStep c m b
      { c.mail m with count := c.count m - 1, received := c.received m + 1, handed := false } []
  | block {b : Body τ W B} {timed} (hb : b.opening = some ⟨m, timed, false⟩) (hwait : c.waitTask m = .noTask)
      (hcount : c.count m = 0) :
    MailStep c m b
      { c.mail m with
        waitTask := .waiting timed c.cur
        taskNotified := if timed = true then false else c.taskNotified m } []
  | takeNotified (hnotified : c.taskNotified m = true) :
    MailStep c m (.takeResult m)
      { c.mail m with waitTask := .noTask, received := c.received m + 1, handed := false } []
  | takeTimeout (hnotified : c.taskNotified m = false) :
    MailStep c m (.takeResult m) { c.mail m with waitTask := .noTask } []
  | notify {timed t} (hwait : c.waitTask m = .waiting timed t) :
    MailStep c m (.takeWaiter m)
      { c.mail m with waitTask := .noTask, issued := c.issued m + 1, handed := true }
      (if timed = true then [.note] else [])
  | notifyCount (hwait : c.waitTask m = .noTask) :
    MailStep c m (.takeWaiter m)
      { c.mail m with count := c.count m + 1, issued := c.issued m + 1 } []
  | setNotified : MailStep c m (.setNotified m) { c.mail m with taskNotified := true } []
  | addPending :
    MailStep c m (.addPending m)
      { c.mail m with pendingCount := c.pendingCount m + 1, issued := c.issued m + 1 } []
  | swapPendingCount :
    MailStep c m (.swapPendingCount m) { c.mail m with pendingCount := 0 } [.add (c.pendingCount m)]
  | addCount {n} : MailStep c m (.addCount m n) { c.mail m with count := c.count m + n } [.take]
  | pended {timed t} (hwait : c.waitTask m = .waiting timed t) :
    MailStep c m (.takePended m) { c.mail m with waitTask := .noTask, handed := true } [.sub timed]
  | pendedNone (hwait : c.waitTask m = .noTask) : MailStep c m (.takePended m) (c.mail m) []
  | subCount {timed} :
    MailStep c m (.subCount m timed)
      { c.mail m with count := if c.count m = 0 then 2 ^ 32 - 1 else c.count m - 1 }
      (if timed = true then [.note] else [])
  /-- The blocked `wait` returns. -/
  | resumed : MailStep c m (.resumed m) { c.mail m with received := c.received m + 1, handed := false } []

/-- The mailbox that a step is about. -/
def Body.mailbox : Body τ W B → Option B
  | .checkCount m | .checkCountTimeout m _ | .takeResult m | .takeWaiter m | .setNotified m | .addPending m
  | .swapPendingCount m | .addCount m _ | .takePended m | .subCount m _ | .resumed m => some m
  | _ => none

omit [DecidableEq τ] in
/-- A step that is about another mailbox, or about none. -/
theorem MailStep.of_ne (hb : b.mailbox ≠ some m) (hmail : c'.mail m = c.mail m) (hcs : codeChores m cs = []) :
    MailStep c m b (c'.mail m) (codeChores m cs) := by
  rw [hmail, hcs]
  refine .other ?_ (fun timed => ?_) ?_
  · cases b <;> first | rfl | exact if_neg fun heq => hb (congrArg some heq)
  · cases b with
    | checkCount m' | checkCountTimeout m' ms =>
      simp only [Body.engages]
      split
      · exact fun heq => hb (congrArg some (Prod.mk.inj (Option.some.inj heq)).1)
      · exact (Option.some_ne_none _).symm
    | _ => exact (Option.some_ne_none _).symm
  · cases b with
    | takeResult m' | resumed m' => exact hb
    | _ => exact (Option.some_ne_none _).symm

theorem Outcome.mail_of_ne (h : Outcome C c b c' cs) (hb : b.mailbox ≠ some m) :
    c'.mail m = c.mail m ∧ codeChores m cs = [] := by
  have hne : ∀ {m'}, b.mailbox = some m' → m ≠ m' ∧ m' ≠ m := by
    rintro m' hm'
    rw [hm'] at hb
    exact ⟨fun heq => hb (congrArg some heq.symm), fun heq => hb (congrArg some heq)⟩
  cases h with
  | count | countTimeout | block | blockTimeout | takeNotified | takeTimeout | notifyTimeout | notifyWaiter
  | notifyCount | setNotified | addPending | swapPendingCount | addCount | pendedTimeout | pendedWaiter
  | pendedNone | resumed =>
    obtain ⟨hne, hne'⟩ := hne rfl
    exact ⟨by simp [Content.mail, hne], by simp [codeChores, chore, Body.chore, hne']⟩
  | @subCount m' p =>
    obtain ⟨hne, hne'⟩ := hne rfl
    exact ⟨by simp [Content.mail, hne], by cases p <;> simp [codeChores, chore, Body.chore, hne']⟩
  | app call => exact ⟨rfl, by cases call <;> rfl⟩
  | _ => exact ⟨by simp [Content.mail], rfl⟩

theorem Outcome.mail (h : Outcome C c b c' cs) (m : B) : MailStep c m b (c'.mail m) (codeChores m cs) := by
  by_cases hb : b.mailbox = some m
  · have hsame : ∀ {μ : Mail τ} {ds : List Chore}, MailStep c m b μ ds → c'.mail m = μ → codeChores m cs = ds →
        MailStep c m b (c'.mail m) (codeChores m cs) := by
      rintro μ ds hstep rfl rfl
      exact hstep
    cases h with
    | count _ hwait hcount | countTimeout _ hwait hcount =>
      obtain rfl := Option.some.inj hb
      exact hsame (.receive rfl hwait hcount) (by simp [Content.mail]) (by simp [codeChores, chore, Body.chore])
    | block _ hwait hcount | blockTimeout _ hwait hcount =>
      obtain rfl := Option.some.inj hb
      exact hsame (.block rfl hwait hcount) (by simp [Content.mail, WaitTask.waiting])
        (by simp [codeChores, chore, Body.chore])
    | takeNotified _ hnotified =>
      obtain rfl := Option.some.inj hb
      exact hsame (.takeNotified hnotified) (by simp [Content.mail]) (by simp [codeChores, chore, Body.chore])
    | takeTimeout _ hnotified =>
      obtain rfl := Option.some.inj hb
      exact hsame (.takeTimeout hnotified) (by simp [Content.mail]) (by simp [codeChores, chore, Body.chore])
    | @notifyTimeout m' t _ hwait =>
      obtain rfl := Option.some.inj hb
      have hwaiting : c.waitTask m' = .waiting true t := hwait
      exact hsame (.notify hwaiting) (by simp [Content.mail])
        (by simp [codeChores, chore, Body.chore])
    | @notifyWaiter m' t _ hwait =>
      obtain rfl := Option.some.inj hb
      have hwaiting : c.waitTask m' = .waiting false t := hwait
      exact hsame (.notify hwaiting) (by simp [Content.mail])
        (by simp [codeChores, chore, Body.chore])
    | notifyCount _ hwait =>
      obtain rfl := Option.some.inj hb
      exact hsame (.notifyCount hwait) (by simp [Content.mail]) (by simp [codeChores, chore, Body.chore])
    | setNotified =>
      obtain rfl := Option.some.inj hb
      exact hsame .setNotified (by simp [Content.mail]) (by simp [codeChores, chore, Body.chore])
    | addPending =>
      obtain rfl := Option.some.inj hb
      exact hsame .addPending (by simp [Content.mail]) (by simp [codeChores])
    | swapPendingCount =>
      obtain rfl := Option.some.inj hb
      exact hsame .swapPendingCount (by simp [Content.mail]) (by simp [codeChores, chore, Body.chore])
    | addCount =>
      obtain rfl := Option.some.inj hb
      exact hsame .addCount (by simp [Content.mail]) (by simp [codeChores, chore, Body.chore])
    | @pendedTimeout m' t _ hwait =>
      obtain rfl := Option.some.inj hb
      have hwaiting : c.waitTask m' = .waiting true t := hwait
      exact hsame (.pended hwaiting) (by simp [Content.mail])
        (by simp [codeChores, chore, Body.chore])
    | @pendedWaiter m' t _ hwait =>
      obtain rfl := Option.some.inj hb
      have hwaiting : c.waitTask m' = .waiting false t := hwait
      exact hsame (.pended hwaiting) (by simp [Content.mail])
        (by simp [codeChores, chore, Body.chore])
    | pendedNone _ hwait =>
      obtain rfl := Option.some.inj hb
      exact hsame (.pendedNone hwait) (by simp [Content.mail]) (by simp [codeChores, chore, Body.chore])
    | @subCount m' p =>
      obtain rfl := Option.some.inj hb
      exact hsame .subCount (by simp [Content.mail]) (by cases p <;> simp [codeChores, chore, Body.chore])
    | resumed =>
      obtain rfl := Option.some.inj hb
      exact hsame .resumed (by simp [Content.mail]) (by simp [codeChores])
    | _ => cases hb
  · obtain ⟨hmail, hcs⟩ := h.mail_of_ne hb
    exact .of_ne hb hmail hcs

-- ---------------------------------------------------------------------------
-- One access at a time
-- ---------------------------------------------------------------------------

omit [DecidableEq τ] in
/-- A chore is part of an access, and no guard. -/
theorem mark_of_chore {i : Instr (Lock W B) (Op τ) (Body τ W B)} {d : Chore} (h : chore m i = some d) :
    ∃ x, i.mark own (.mailbox m) = some x ∧ x ≠ .hold ∧ x ≠ .wait := by
  have hif : ∀ {m' : B} {d' : Chore} {x : Mark}, (if m' = m then some d' else none) = some d →
      (if (.mailbox m' : Lock W B) = .mailbox m then some x else none) = some x := by
    intro m' d' x h
    split at h
    · rename_i hm
      rw [hm, if_pos rfl]
    · cases h
  cases i with
  | code d =>
    cases d with
    | body b =>
      cases b with
      | checkCount | checkCountTimeout | swapPendingCount | addCount | takePended | subCount | setNotified =>
        exact ⟨.body, hif h, nofun, nofun⟩
      | addPending => exact ⟨.note, hif h, nofun, nofun⟩
      | _ => cases h
    | _ => cases h
  | setPending l =>
    simp only [chore] at h
    split at h
    · rename_i hl
      exact ⟨.pend, if_pos hl, nofun, nofun⟩
    · cases h
  | _ => cases h

omit [DecidableEq τ] in
theorem chores_nil_of_marks (h : marks own (.mailbox m) k = []) : k.filterMap (chore m) = [] := by
  refine List.filterMap_eq_nil_iff.mpr fun i hi => ?_
  by_contra hne
  obtain ⟨d, hd⟩ := Option.ne_none_iff_exists'.mp hne
  obtain ⟨x, hx, -⟩ := mark_of_chore hd
  rw [List.filterMap_eq_nil_iff.mp h i hi] at hx
  cases hx

omit [DecidableEq τ] in
/-- When a step of a full access runs, there are no other chores. -/
theorem chores_nil_of_full (hsound : Sound own s) (hk : s.stack = .code (.body b) :: k)
    (hb : own b = some (.mailbox m, .full)) : k.filterMap (chore m) = [] := by
  have hlock := hsound.locks (.mailbox m)
  rw [hk, marks_cons] at hlock
  simp only [Instr.mark, Code.mark, hb, Option.bind_some, if_true, Option.toList_some, List.singleton_append,
    Access.mark] at hlock
  obtain ⟨-, hheld⟩ := hlock.held (by rintro ⟨⟩)
  refine List.filterMap_eq_nil_iff.mpr fun i hi => ?_
  by_contra hne
  obtain ⟨d, hd⟩ := Option.ne_none_iff_exists'.mp hne
  obtain ⟨x, hx, hhold, hwait⟩ := mark_of_chore hd
  have hmem : x ∈ marks own (.mailbox m) k := List.mem_filterMap.mpr ⟨i, hi, hx⟩
  generalize marks own (.mailbox m) k = ms at hheld hmem
  cases hheld with
  | body hms =>
    refine (List.mem_cons.mp hmem).elim hhold fun hmem => ?_
    induction hms with
    | nil => cases hmem
    | wait _ ih => exact (List.mem_cons.mp hmem).elim hwait fun hmem => ih (List.mem_cons_of_mem _ hmem) hmem

-- ---------------------------------------------------------------------------
-- Built-in steps
-- ---------------------------------------------------------------------------

/-- The pending flag of the mailbox. -/
def flagged (m : B) (s : State (Lock W B) (Op τ) (Body τ W B) (Content τ W B) τ) : Bool :=
  (s.flags (.mailbox m)).pending

/-- What a built-in step does to a mailbox. -/
inductive MailControl (m : B) (s s' : State (Lock W B) (Op τ) (Body τ W B) (Content τ W B) τ) : Prop where
  | same (hchores : chores m s' = chores m s) (hflag : flagged m s' = flagged m s)
  /-- The access of a task that waits. No other access is in progress. -/
  | wait (hchores : chores m s = []) (hchores' : chores m s' = [.check]) (hflag : flagged m s = false)
    (hflag' : flagged m s' = false)
  | pend (hchores : chores m s' = .pend :: .flag :: chores m s) (hflag : flagged m s' = flagged m s)
  | flag (hchores : chores m s = .flag :: chores m s') (hflag : flagged m s' = true)
  | settle (hchores : chores m s' = .swap :: chores m s) (hflag : flagged m s = true)

omit [DecidableEq τ] in
theorem codeChores_full {l : Lock W B} {must : Bool} {op : Op τ} (h : op.proper l must = true) :
    codeChores m (fullAccess l op) = [] ∨
      l = .mailbox m ∧ must = true ∧ codeChores m (fullAccess l op) = [.check] := by
  cases l with
  | mailbox m' =>
    cases op with
    | wait | waitUntilTimeout ms =>
      obtain rfl : must = true := by cases must <;> first | rfl | cases h
      by_cases hm : m' = m
      · exact Or.inr ⟨congrArg _ hm, rfl, by simp [codeChores, chore, fullAccess, Body.chore, hm]⟩
      · exact Or.inl (by simp [codeChores, chore, fullAccess, Body.chore, hm])
    | _ => exact Or.inl rfl
  | _ => cases op <;> exact Or.inl rfl

omit [DecidableEq τ] in
theorem codeChores_pend {l : Lock W B} {op : Op τ} (h : op.proper l false = true) :
    codeChores m (pendOnlyAccess l op) = [] ∧ l ≠ .mailbox m ∨
      codeChores m (pendOnlyAccess l op) = [.pend] ∧ l = .mailbox m := by
  cases l with
  | mailbox m' =>
    cases op with
    | notify =>
      by_cases hm : m' = m
      · exact Or.inr ⟨by simp [codeChores, chore, pendOnlyAccess, Body.chore, hm], congrArg _ hm⟩
      · exact Or.inl ⟨by simp [codeChores, chore, pendOnlyAccess, Body.chore, hm], by simpa using hm⟩
    | _ => cases h
  | _ => cases op <;> exact Or.inl ⟨rfl, nofun⟩

omit [DecidableEq τ] in
theorem codeChores_pended (l : Lock W B) :
    codeChores m (runPendedOp l : List (KCode τ W B)) = if l = .mailbox m then [.swap] else [] := by
  cases l with
  | mailbox m' => by_cases hm : m' = m <;> simp [codeChores, chore, runPendedOp, Body.chore, hm]
  | _ => rfl

omit [DecidableEq τ] in
theorem codeChores_handler (call : HandlerCall τ W B) : ∀ d ∈ call.code, chore m (.code d) = none := by
  cases call <;> simp [HandlerCall.code, chore, Body.chore]

omit [DecidableEq τ] in
theorem flagged_setPendingFlag (l : Lock W B) (b : Bool) :
    flagged m (setPendingFlag s l b) = if l = .mailbox m then b else flagged m s := by
  unfold flagged setPendingFlag
  by_cases hl : l = .mailbox m
  · simp [hl]
  · simp [hl, Ne.symm hl]

theorem LockInv.mail_control (hinv : LockInv s) (hstep : Control (spec C) s s') (m : B) : MailControl m s s' := by
  -- The top of the stack gives way to `N`.
  have htop : ∀ {i N k}, s.stack = i :: k → s'.stack = N ++ k → chore m i = none →
      N.filterMap (chore m) = [] → chores m s' = chores m s := by
    intro i N k hk hk' hi hN
    rw [chores, chores, hk, hk', filterMap_top, hi, List.filterMap_append, hN]
    rfl
  have hnil : ∀ {ds : List (KCode τ W B)} {j : Instr (Lock W B) (Op τ) (Body τ W B)}, codeChores m ds = [] →
      chore m j = none → (ds.map Instr.code ++ [j]).filterMap (chore m) = [] := by
    intro ds j hds hj
    rw [List.filterMap_append, List.filterMap_map]
    simp only [codeChores] at hds
    simp [hds, hj]
  have hpush : ∀ (ds : List (KCode τ W B)) (i : Instr (Lock W B) (Op τ) (Body τ W B)) k,
      (push ds (i :: k)).filterMap (chore m) =
        codeChores m ds ++ ((chore m i).toList ++ k.filterMap (chore m)) := by
    intro ds i k
    rw [filterMap_push, filterMap_top]
    rfl
  cases hstep with
  | @access l must op k hk =>
    exact .same (htop (N := [_, _]) hk rfl rfl rfl) rfl
  | @suspended b k hk =>
    have hb : b.suspends = true := hinv.proper.1 (.code (.suspended b)) (by simp [hk])
    have hnone : chore m (.code (.body b)) = none := by cases b <;> first | rfl | cases hb
    exact .same (htop (N := [_, .resume]) hk rfl rfl (by rw [filterMap_top, hnone]; rfl)) rfl
  | @win l must op k hk hfree =>
    have hproper : op.proper l must = true := hinv.proper.1 (.guard l must op) (by simp [hk])
    have hchores : chores m s = k.filterMap (chore m) := by rw [chores, hk, filterMap_top]; rfl
    rcases codeChores_full (m := m) hproper with hfull | ⟨rfl, rfl, hfull⟩
    · refine .same (htop (N := (fullAccess l op).map Instr.code ++ [.swapPending l]) hk ?_ rfl (hnil hfull rfl)) ?_
      · simp [push, spec]
      · simp [flagged]
    · -- The task has found the mailbox free, with no access in progress.
      have hground := hinv.grounded
      have hlock := hinv.sound.locks (.mailbox m)
      rw [hk] at hground hlock
      have hmarks := hground.1 (.mailbox m) (need_must _ op)
      rw [marks_cons, hmarks] at hlock
      have hflag : flagged m s = false := by
        rw [flagged, (LockOk.unlocked hlock).1]
      refine .wait (hchores.trans (chores_nil_of_marks hmarks)) ?_ hflag (by simpa [flagged] using hflag)
      refine (hpush (fullAccess (.mailbox m) op) (.swapPending (.mailbox m)) k).trans ?_
      rw [hfull, chores_nil_of_marks hmarks]
      rfl
  | @lose l op k hk hlocked =>
    have hproper : op.proper l false = true := hinv.proper.1 (.guard l false op) (by simp [hk])
    rcases codeChores_pend (m := m) hproper with ⟨hpend, hl⟩ | ⟨hpend, rfl⟩
    · refine .same (htop (N := (pendOnlyAccess l op).map Instr.code ++ [.setPending l]) hk ?_ rfl
        (hnil hpend (show chore m (.setPending l) = none from if_neg hl))) rfl
      simp [push, spec]
    · refine .pend ?_ rfl
      refine (hpush (pendOnlyAccess (.mailbox m) op) (.setPending (.mailbox m)) k).trans ?_
      rw [hpend, show chore m (.setPending (.mailbox m)) = some .flag from if_pos rfl, chores, hk, filterMap_top]
      rfl
  | @setPending l k hk =>
    by_cases hl : l = .mailbox m
    · refine .flag ?_ ?_
      · rw [chores, hk, filterMap_top]
        simp [chore, hl, chores]
      · exact (flagged_setPendingFlag l true).trans (if_pos hl)
    · refine .same (htop (N := []) hk rfl (if_neg hl) rfl) ?_
      exact (flagged_setPendingFlag l true).trans (if_neg hl)
  | @settle l k hk hpending =>
    have hpended := codeChores_pended (τ := τ) (m := m) l
    by_cases hl : l = .mailbox m
    · refine .settle ?_ (by rw [flagged, ← hl]; exact hpending)
      refine (hpush (runPendedOp l) (.unlock l) k).trans ?_
      rw [hpended, if_pos hl, chores, hk, filterMap_top]
      rfl
    · refine .same (htop (N := (runPendedOp l).map Instr.code ++ [.unlock l]) hk ?_ rfl
        (hnil (hpended.trans (if_neg hl)) rfl)) ?_
      · simp [push, spec]
      · exact (flagged_setPendingFlag l false).trans (if_neg hl)
  | mayBlock hk _ _ => exact .same (htop (N := []) hk rfl rfl rfl) rfl
  | yield hk | leave hk _ | iret hk => exact .same (htop (N := []) hk rfl rfl rfl) rfl
  | reschedule hk _ => exact .same (htop (N := []) hk rfl rfl rfl) rfl
  | @pass l k hk hpending =>
    refine .same (htop (N := [_]) hk rfl rfl rfl) ((flagged_setPendingFlag l false).trans ?_)
    split
    · rename_i hl
      subst hl
      exact (Bool.not_eq_true _ ▸ hpending).symm
    · rfl
  | unlock hk | relock hk _ => exact .same (htop (N := [_]) hk rfl rfl rfl) (by simp [flagged])
  | retry hk _ | resume hk => exact .same (htop (N := [_]) hk rfl rfl rfl) rfl
  | restore hk =>
    refine .same ?_ rfl
    rw [chores, chores, hk]
    exact chores_nil_of_marks (marks_eq_nil fun i hi => (hinv.sound.saved _ i hi).1)
  | preempt calls =>
    refine .same ?_ rfl
    have hcalls : codeChores m (calls.flatMap HandlerCall.code : List (KCode τ W B)) = [] :=
      handlerCode_nil (f := chore m) codeChores_handler calls
    refine (hpush (calls.flatMap HandlerCall.code) .iret s.stack).trans ?_
    rw [hcalls]
    rfl
  | pendsv hsus htask =>
    refine .same ?_ rfl
    have hclean : chores m s = [] :=
      chores_nil_of_marks (marks_eq_nil fun i hi => (hinv.sound.clean hsus htask i hi).1)
    rw [hclean]
    rfl

end Hopter.Kernel
