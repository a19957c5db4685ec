-- SUMMARY: Calls that wait on mailboxes: what the code of a task shows of the call that it is in.
import Hopter.Kernel.Conservation

/-!
# Calls that wait on mailboxes

A task that waits on a mailbox goes through three stages. Its access to the mailbox is still
to come (`opening`), the task has decided whether to block and has not yielded yet, or it has
yielded and comes back to the end of the call (`closing`). The code of a task shows in which
call it is, and there is one call at a time.
-/

namespace Hopter.Kernel

open Exec Hopter.Task

variable {τ W B : Type} [DecidableEq τ] [DecidableEq W] [DecidableEq B]
  {C : Config} {c c' : Content τ W B} {b : Body τ W B} {cs : List (KCode τ W B)}
  {s s' : State (Lock W B) (Op τ) (Body τ W B) (Content τ W B) τ}
  {k : List (Instr (Lock W B) (Op τ) (Body τ W B))} {i : Instr (Lock W B) (Op τ) (Body τ W B)}
  {a : Action (List (HandlerCall τ W B)) (Choice τ W B)}

-- ---------------------------------------------------------------------------
-- Calls
-- ---------------------------------------------------------------------------

/-- A call of `wait` or `wait_until_timeout`. -/
structure Wait (B : Type) where
  mailbox : B
  timed : Bool
  /-- The task is past the point where it yields. -/
  yielded : Bool
  deriving DecidableEq

/-- The call that the code is to end. -/
def Body.closing : Body τ W B → Option (Wait B)
  | .waited m => some ⟨m, false, false⟩
  | .resumed m => some ⟨m, false, true⟩
  | .waitedTimeout m => some ⟨m, true, false⟩
  | .takeResult m => some ⟨m, true, true⟩
  | _ => none

def Op.closing : Lock W B → Op τ → Option (Wait B)
  | .mailbox m, .timeoutOver => some ⟨m, true, true⟩
  | _, _ => none

def closing : Instr (Lock W B) (Op τ) (Body τ W B) → Option (Wait B)
  | .code (.body b) | .code (.suspended b) => b.closing
  | .code (.access l _ op) | .guard l _ op => op.closing l
  | _ => none

/-- The call that the code begins. -/
def Body.opening : Body τ W B → Option (Wait B)
  | .checkCount m => some ⟨m, false, false⟩
  | .checkCountTimeout m _ => some ⟨m, true, false⟩
  | _ => none

def Op.opening : Lock W B → Op τ → Option (Wait B)
  | .mailbox m, .wait => some ⟨m, false, false⟩
  | .mailbox m, .waitUntilTimeout _ => some ⟨m, true, false⟩
  | _, _ => none

def opening : Instr (Lock W B) (Op τ) (Body τ W B) → Option (Wait B)
  | .code (.body b) | .code (.suspended b) => b.opening
  | .code (.access l _ op) | .guard l _ op => op.opening l
  | _ => none

/-- The task that the code is to take out of the sleep queue. -/
def Body.removal : Body τ W B → Option τ
  | .remove t | .enqueueDelete t => some t
  | _ => none

def Op.removal : Op τ → Option τ
  | .removeTask t => some t
  | _ => none

def removal : Instr (Lock W B) (Op τ) (Body τ W B) → Option τ
  | .code (.body b) | .code (.suspended b) => b.removal
  | .code (.access _ _ op) | .guard _ _ op => op.removal
  | _ => none

/-- Code of a task that waits, and the end of a call. -/
def waitCode (i : Instr (Lock W B) (Op τ) (Body τ W B)) : Bool := forTask i || (closing i).isSome

omit [DecidableEq τ] [DecidableEq W] [DecidableEq B] in
theorem forall_not_waitCode {ds : List (KCode τ W B)} (h : (ds.all fun d => !waitCode (.code d)) = true) :
    ∀ d ∈ ds, ¬ waitCode (.code d) = true :=
  fun d hd => by simpa using List.all_eq_true.mp h d hd

theorem waitCode_spec : OfTask (spec (τ := τ) (W := W) (B := B) C) fun i => waitCode i = true where
  control i hi := by
    cases i with
    | code d => cases d <;> first | exact Bool.false_ne_true | exact absurd hi (by simp [Instr.isControl])
    | guard l must op => simp [Instr.isControl] at hi
    | _ => exact Bool.false_ne_true
  guard l must op h := h
  suspended b h := rfl
  full l must op := by
    change ∀ d ∈ fullAccess l op, _
    unfold fullAccess
    split <;> first | exact fun d hd h => absurd h (forall_not_waitCode rfl d hd) | exact fun _ _ _ => rfl
  pend l op := by
    change ∀ d ∈ pendOnlyAccess l op, _
    unfold pendOnlyAccess
    split <;> exact forall_not_waitCode rfl
  pended l := by cases l <;> exact forall_not_waitCode rfl
  handler := forall_handlerCode fun call => by cases call <;> exact forall_not_waitCode rfl
  pickNext := forall_not_waitCode rfl
  exec := by
    intro c b x c' cs hexec
    cases exec_outcome hexec with
    | @subCount m p => cases p <;> exact fun d hd h => absurd h (forall_not_waitCode rfl d hd)
    | _ => first | exact fun _ _ _ => rfl | exact fun d hd h => absurd h (forall_not_waitCode rfl d hd)

-- ---------------------------------------------------------------------------
-- One call at a time
-- ---------------------------------------------------------------------------

/-- Below code of a task there is no removal in progress, and no call but the one that the code
begins. After the end of a call, the task goes on without yielding. -/
structure Waits (i : Instr (Lock W B) (Op τ) (Body τ W B)) (k : List (Instr (Lock W B) (Op τ) (Body τ W B))) :
    Prop where
  closing : waitCode i = true → k.filterMap closing = (opening i).toList
  opening : waitCode i = true → k.filterMap opening = []
  removal : waitCode i = true → k.filterMap removal = []
  goesOn : (Kernel.closing i).isSome = true → ∀ flag, ¬ Parks flag k

omit [DecidableEq τ] [DecidableEq W] [DecidableEq B] in
theorem Waits.of_not (h : waitCode i = false) : Waits i k := by
  have hnot : ∀ {P : Prop}, waitCode i = true → P := fun hi => absurd hi (by simp [h])
  exact ⟨hnot, hnot, hnot, fun hi => hnot (by simp [waitCode, hi])⟩

omit [DecidableEq τ] [DecidableEq W] [DecidableEq B] in
theorem below_waits {ds : List (KCode τ W B)} (h : Below Waits k)
    (hds : (ds.all fun d => !waitCode (.code d)) = true) : Below Waits (push ds k) :=
  h.push fun d hd k => Waits.of_not (by simpa using List.all_eq_true.mp hds d hd)

/-- The code is not part of a call, and removes nothing. -/
def plainTask (d : KCode τ W B) : Bool :=
  (closing (.code d)).isNone && (opening (.code d)).isNone && (removal (.code d)).isNone

omit [DecidableEq τ] [DecidableEq W] [DecidableEq B] in
/-- Code of a task that is in no call. -/
theorem below_waits_plain {ds : List (KCode τ W B)} (h : Below Waits k) (hclosing : k.filterMap closing = [])
    (hopening : k.filterMap opening = []) (hremoval : k.filterMap removal = []) (hds : ds.all plainTask = true) :
    Below Waits (push ds k) ∧ (push ds k).filterMap closing = [] ∧ (push ds k).filterMap opening = [] ∧
      (push ds k).filterMap removal = [] := by
  induction ds with
  | nil => exact ⟨h, hclosing, hopening, hremoval⟩
  | cons d ds ih =>
    simp only [List.all_cons, Bool.and_eq_true, plainTask, Option.isNone_iff_eq_none] at hds
    obtain ⟨⟨⟨hc, ho⟩, hr⟩, hds⟩ := hds
    obtain ⟨hbelow, hclosing, hopening, hremoval⟩ := ih hds
    have hpush : push (d :: ds) k = .code d :: push ds k := rfl
    refine ⟨⟨⟨fun _ => by rw [ho]; exact hclosing, fun _ => hopening, fun _ => hremoval, ?_⟩, hbelow⟩, ?_, ?_, ?_⟩
    · simp [hc]
    · rw [hpush, filterMap_top, hc, hclosing]
      rfl
    · rw [hpush, filterMap_top, ho, hopening]
      rfl
    · rw [hpush, filterMap_top, hr, hremoval]
      rfl

omit [DecidableEq τ] [DecidableEq W] [DecidableEq B] in
theorem not_parks_app {flag : Bool} : ¬ Parks flag (.code (.body .app) :: k) := by
  rintro (h | ⟨h, -⟩) <;> cases h

theorem keeps_waits : Keeps (spec (τ := τ) (W := W) (B := B) C) Waits where
  control i k hi := by
    refine Waits.of_not ?_
    cases i with
    | code d => cases d <;> first | rfl | exact absurd hi (by simp [Instr.isControl])
    | guard l must op => simp [Instr.isControl] at hi
    | _ => rfl
  guard l must op k h := by
    refine ⟨h.closing, h.opening, h.removal, fun hi flag hparks => ?_⟩
    rcases hparks with hyields | ⟨-, hparks⟩
    · cases hyields
    · exact h.goesOn hi flag hparks
  suspended b k h := by
    have hwait : waitCode (.code (.suspended b) : Instr (Lock W B) (Op τ) (Body τ W B)) = true := rfl
    refine ⟨fun _ => h.closing hwait, fun _ => h.opening hwait, fun _ => h.removal hwait, fun hi flag hparks => ?_⟩
    rcases hparks with hyields | ⟨-, hparks⟩
    · cases hyields
    · exact h.goesOn hi flag hparks
  full l must op k h hk := by
    change Below Waits (push (fullAccess l op) _)
    have hguard : Waits (.swapPending l) k := Waits.of_not rfl
    -- The closure of a task takes the place of its access.
    have hsame : ∀ {b : Body τ W B}, waitCode (.guard l must op : Instr (Lock W B) (Op τ) (Body τ W B)) = true →
        b.opening = op.opening l → b.closing = op.closing l → Below Waits (push [.body b] (.swapPending l :: k)) := by
      intro b hwait hopening hclosing
      refine ⟨⟨fun _ => ?_, fun _ => h.opening hwait, fun _ => h.removal hwait, fun hi flag hparks => ?_⟩,
        hguard, hk⟩
      · exact (h.closing hwait).trans (congrArg Option.toList hopening.symm)
      · rcases hparks with hyields | ⟨-, hparks⟩
        · cases hyields
        · exact h.goesOn (by rw [← hi]; exact congrArg Option.isSome hclosing.symm) flag hparks
    unfold fullAccess
    split <;> first | exact below_waits ⟨hguard, hk⟩ rfl | exact hsame rfl rfl rfl
  pend l op k h hk := by
    change Below Waits (push (pendOnlyAccess l op) _)
    have hguard : Waits (.setPending l) k := Waits.of_not rfl
    unfold pendOnlyAccess
    split <;> exact below_waits ⟨hguard, hk⟩ rfl
  pended l k hk := by
    have hguard : Waits (.unlock l) k := Waits.of_not rfl
    cases l <;> exact below_waits ⟨hguard, hk⟩ rfl
  handler calls k hk := by
    have hguard : Waits .iret k := Waits.of_not rfl
    have hcalls : ∀ d ∈ calls.flatMap HandlerCall.code, ¬ waitCode (.code d : Instr (Lock W B) (Op τ) (Body τ W B)) = true :=
      forall_handlerCode (fun call => by cases call <;> exact forall_not_waitCode rfl) calls
    exact below_waits ⟨hguard, hk⟩ (List.all_eq_true.mpr fun d hd => by simpa using hcalls d hd)
  pickNext := ⟨Waits.of_not rfl, Waits.of_not rfl, trivial⟩
  exec := by
    intro c b x c' cs k hexec h hk
    have hplain : ∀ {ds : List (KCode τ W B)}, waitCode (.code (.body b) : Instr (Lock W B) (Op τ) (Body τ W B)) = true →
        b.opening = none → ds.all plainTask = true → Below Waits (push ds k) := by
      intro ds hb hopening hds
      refine (below_waits_plain hk ?_ (h.opening hb) (h.removal hb) hds).1
      exact (h.closing hb).trans (congrArg Option.toList hopening)
    cases exec_outcome hexec with
    | app call =>
      have hclosing := h.closing rfl
      have hopening := h.opening rfl
      have hremoval := h.removal rfl
      obtain ⟨happ, hnil, hnil', hnil''⟩ := below_waits_plain hk hclosing hopening hremoval
        (show ([.body .app] : List (KCode τ W B)).all plainTask = true from rfl)
      -- A call of a mailbox, with its end below it.
      have hcall : ∀ {e : Body τ W B} {l : Lock W B} {op : Op τ}, e.closing = op.opening l → e.opening = none →
          e.removal = none → op.closing l = none →
          Below Waits (push [.mayBlock, .access l true op, .body e, .body .app] k) := by
        intro e l op heq he he' hop
        change Below Waits (.code .mayBlock :: .code (.access l true op) :: .code (.body e) :: push [.body .app] k)
        refine ⟨Waits.of_not rfl, ⟨fun _ => ?_, fun _ => ?_, fun _ => ?_, fun hi => ?_⟩,
          ⟨fun _ => ?_, fun _ => hnil', fun _ => hnil'', fun _ _ => not_parks_app⟩, happ⟩
        · rw [filterMap_top, hnil, List.append_nil]
          exact congrArg Option.toList heq
        · rw [filterMap_top, hnil', List.append_nil]
          exact congrArg Option.toList he
        · rw [filterMap_top, hnil'', List.append_nil]
          exact congrArg Option.toList he'
        · rw [show Kernel.closing (.code (.access l true op)) = op.closing l from rfl, hop] at hi
          cases hi
        · exact hnil.trans (congrArg Option.toList he.symm)
      cases call with
      | mailWait m => exact hcall rfl rfl rfl rfl
      | mailWaitUntilTimeout m ms => exact hcall rfl rfl rfl rfl
      | _ => exact hplain rfl rfl rfl
    | yield _ | yieldTimeout _ =>
      exact ⟨Waits.of_not rfl, ⟨fun _ => h.closing rfl, fun _ => h.opening rfl, fun _ => h.removal rfl,
        fun _ => h.goesOn rfl⟩, hk⟩
    | @subCount m p => cases p <;> exact below_waits hk rfl
    | _ => first | exact below_waits hk rfl | exact hplain rfl rfl rfl

omit [DecidableEq τ] [DecidableEq W] [DecidableEq B] in
theorem opening_of_closing (h : (closing i).isSome = true) : opening i = none := by
  cases i with
  | code d =>
    cases d with
    | body b | suspended b => cases b <;> first | rfl | cases h
    | access l must op => cases l <;> cases op <;> first | rfl | cases h
    | _ => rfl
  | guard l must op => cases l <;> cases op <;> first | rfl | cases h
  | _ => rfl

omit [DecidableEq τ] [DecidableEq W] [DecidableEq B] in
/-- There is one call at a time. -/
theorem closing_unique (h : Below Waits k) : (k.filterMap closing).length ≤ 1 := by
  induction k with
  | nil => simp
  | cons i k ih =>
    rw [filterMap_top]
    cases hi : closing i with
    | none => simpa using ih h.2
    | some w =>
      have hopening : opening i = none := opening_of_closing (by simp [hi])
      have hrest := h.1.closing (by rw [waitCode, hi]; exact Bool.or_true _)
      rw [hopening] at hrest
      simp [hrest]

-- ---------------------------------------------------------------------------
-- What the code of a task carries
-- ---------------------------------------------------------------------------

/-- Built-in steps hand on what belongs to an access, as there are no other accesses than the proper
ones. -/
theorem conveys_of {α : Type} {f : Instr (Lock W B) (Op τ) (Body τ W B) → Option α} (hinv : LockInv s)
    (hcontrol : ∀ i, i.isControl = true → f i = none)
    (hguard : ∀ l must op, f (.guard l must op) = f (.code (.access l must op)))
    (hsuspended : ∀ b, b.suspends = true → f (.code (.body b)) = f (.code (.suspended b)))
    (hfull : ∀ l must op, op.proper l must = true →
      (fullAccess l op).filterMap (fun d => f (.code d)) = (f (.guard l must op)).toList)
    (hpend : ∀ l op, op.proper l false = true →
      (pendOnlyAccess l op).filterMap (fun d => f (.code d)) = (f (.guard l false op)).toList)
    (hpended : ∀ l, (runPendedOp l).filterMap (fun d => f (.code d)) = [])
    (hhandler : ∀ call : HandlerCall τ W B, ∀ d ∈ call.code, f (.code d) = none)
    (hpickNext : f (.code (.access .ready true .pickNext)) = none) :
    Conveys (spec (τ := τ) (W := W) (B := B) C) f s where
  control := hcontrol
  guard := hguard
  suspended b hb := hsuspended b (hinv.proper.1 _ hb)
  full l must op hop := hfull l must op (hinv.proper.1 _ hop)
  pend l op hop := hpend l op (hinv.proper.1 _ hop)
  pended := hpended
  handler := handlerCode_nil hhandler
  pickNext := by simp [spec, hpickNext]

theorem conveys_closing (hinv : LockInv s) : Conveys (spec (τ := τ) (W := W) (B := B) C) closing s := by
  refine conveys_of hinv (fun i hi => ?_) (fun _ _ _ => rfl) (fun _ _ => rfl) (fun l must op _ => ?_)
    (fun l op hproper => ?_) (fun l => by cases l <;> rfl) (fun call => ?_) rfl
  · cases i with
    | code d => cases d <;> first | rfl | exact absurd hi (by simp [Instr.isControl])
    | guard l must op => simp [Instr.isControl] at hi
    | _ => rfl
  · cases l <;> cases op <;> rfl
  · cases l <;> cases op <;> first | rfl | cases hproper
  · cases call <;> simp [HandlerCall.code, closing, Op.closing, Body.closing]

theorem conveys_opening (hinv : LockInv s) : Conveys (spec (τ := τ) (W := W) (B := B) C) opening s := by
  refine conveys_of hinv (fun i hi => ?_) (fun _ _ _ => rfl) (fun _ _ => rfl) (fun l must op _ => ?_)
    (fun l op hproper => ?_) (fun l => by cases l <;> rfl) (fun call => ?_) rfl
  · cases i with
    | code d => cases d <;> first | rfl | exact absurd hi (by simp [Instr.isControl])
    | guard l must op => simp [Instr.isControl] at hi
    | _ => rfl
  · cases l <;> cases op <;> rfl
  · cases l <;> cases op <;> first | rfl | cases hproper
  · cases call <;> simp [HandlerCall.code, opening, Op.opening, Body.opening]

theorem conveys_removal (hinv : LockInv s) : Conveys (spec (τ := τ) (W := W) (B := B) C) removal s := by
  refine conveys_of hinv (fun i hi => ?_) (fun _ _ _ => rfl) (fun _ _ => rfl) (fun l must op hproper => ?_)
    (fun l op hproper => ?_) (fun l => by cases l <;> rfl) (fun call => ?_) rfl
  · cases i with
    | code d => cases d <;> first | rfl | exact absurd hi (by simp [Instr.isControl])
    | guard l must op => simp [Instr.isControl] at hi
    | _ => rfl
  · cases l <;> cases op <;> first | rfl | (cases must <;> cases hproper)
  · cases l <;> cases op <;> first | rfl | cases hproper
  · cases call <;> simp [HandlerCall.code, removal, Op.removal, Body.removal]

omit [DecidableEq τ] [DecidableEq W] [DecidableEq B] in
theorem forall_no_removal {ds : List (KCode τ W B)} (h : (ds.all fun d => (removal (.code d)).isNone) = true) :
    ∀ d ∈ ds, ¬ (removal (.code d)).isSome = true :=
  fun d hd => by simpa using List.all_eq_true.mp h d hd

/-- A removal is part of an access to a mailbox. -/
theorem shelters_removal : Shelters own (spec (τ := τ) (W := W) (B := B) C) fun i => (removal i).isSome = true where
  control i hi := by
    cases i with
    | code d => cases d <;> first | exact Bool.false_ne_true | exact absurd hi (by simp [Instr.isControl])
    | guard l must op => simp [Instr.isControl] at hi
    | _ => exact Bool.false_ne_true
  full l must op := by
    change ∀ d ∈ fullAccess l op, _
    unfold fullAccess
    split <;> first | exact fun d hd h => absurd h (forall_no_removal rfl d hd) | exact fun _ _ _ => rfl
  pend l op := by
    change ∀ d ∈ pendOnlyAccess l op, _
    unfold pendOnlyAccess
    split <;> first | exact fun d hd h => absurd h (forall_no_removal rfl d hd) | exact fun _ _ _ => rfl
  pended l := by cases l <;> exact forall_no_removal rfl
  handler := forall_handlerCode fun call => by cases call <;> exact forall_no_removal rfl
  pickNext := forall_no_removal rfl
  exec := by
    intro c b x c' cs hexec
    cases exec_outcome hexec with
    | app call => cases call <;> exact fun d hd h => absurd h (forall_no_removal rfl d hd)
    | @subCount m p => cases p <;> exact fun d hd h => absurd h (forall_no_removal rfl d hd)
    | _ => first | exact fun d hd h => absurd h (forall_no_removal rfl d hd) | exact fun _ _ _ => Or.inr rfl

-- ---------------------------------------------------------------------------
-- The code of a run
-- ---------------------------------------------------------------------------

/-- What holds of the calls in a run. -/
structure CallInv (s : State (Lock W B) (Op τ) (Body τ W B) (Content τ W B) τ) : Prop where
  waits : BelowEverywhere Waits s
  alone : Alone (fun i => waitCode i = true) s
  under : BelowEverywhere (UnderHandlers fun i => waitCode i = true) s
  sheltered : Follows (fun i => (removal i).isSome = true) (· = .resume) s.stack
  saved : ∀ t, ∀ i ∈ s.saved t, ¬ (removal i).isSome = true

theorem CallInv.step (hinv : LockInv s) (h : CallInv s) (hstep : step (spec C) s a = some s') : CallInv s' := by
  rcases step_cases hstep with ⟨x, b, k, c, cs, hk, hexec, rfl⟩ | hcontrol
  · exact ⟨h.waits.body keeps_waits hk hexec, h.alone.body waitCode_spec hk hexec,
      h.under.body waitCode_spec.keeps hk hexec, shelters_removal.follows_body hinv.sound h.sheltered hk hexec,
      h.saved⟩
  · exact ⟨h.waits.control keeps_waits hcontrol, h.alone.control waitCode_spec hinv.sound hcontrol,
      h.under.control waitCode_spec.keeps hcontrol, shelters_removal.follows_control h.saved h.sheltered hcontrol,
      Shelters.saved_free hinv.sound h.sheltered h.saved hcontrol⟩

omit [DecidableEq W] [DecidableEq B] in
theorem boot_callInv {idle main : τ} {priority : τ → Nat} {clock : Nat} :
    CallInv (boot idle main priority clock : State (Lock W B) (Op τ) (Body τ W B) (Content τ W B) τ) where
  waits := by
    refine BelowEverywhere.init fun t => ?_
    exact (below_waits_plain (k := []) trivial rfl rfl rfl (by unfold code; split <;> rfl)).1
  alone hrestore := absurd hrestore (by simp [boot, init, push])
  under := by
    refine BelowEverywhere.init fun t => push_underHandlers trivial fun d hd hP => ?_
    rfl
  sheltered := Follows.push trivial fun d hd => by
    have hnone : removal (.code d) = none := by
      simpa using boot_code (f := fun i => (removal i).isSome) ⟨rfl, rfl, rfl⟩ idle d hd
    simp [hnone]
  saved t i hi := by
    have := boot_saved (f := fun i => (removal i).isSome) ⟨rfl, rfl, rfl⟩ t i hi
    simpa using this

/-- Removals are on the stack, or nowhere. -/
theorem CallInv.removals_eq (hinv : LockInv s) (h : CallInv s) (hstep : Control (spec C) s s') :
    s'.stack.filterMap removal = s.stack.filterMap removal := by
  refine (conveys_removal hinv).filterMap_eq (fun t => ?_) (fun hsus _ => ?_) hstep
  · exact List.filterMap_eq_nil_iff.mpr fun i hi => by simpa using h.saved t i hi
  · exact List.filterMap_eq_nil_iff.mpr fun i hi => by
      simpa using Sound.not_sheltered hinv.sound h.sheltered hsus i hi

omit [DecidableEq τ] in
/-- Code of a task runs while its context is loaded. -/
theorem CallInv.running {idle : τ} (hcode : CodeInv idle s) (h : CallInv s) (hk : s.stack = .code (.body b) :: k)
    (hb : waitCode (.code (.body b) : Instr (Lock W B) (Op τ) (Body τ W B)) = true) :
    s.content.cur = s.running ∧ s.saved s.running = [] ∧ ∀ i ∈ s.stack, chooses i = false := by
  have hrestore : .restore ∉ s.stack := fun hmem => h.alone hmem (.code (.body b)) (by simp [hk]) hb
  obtain ⟨hchooses, hcur⟩ := hcode.kept.switching.stack.resolve_left hrestore
  refine ⟨hcur, hcode.locks.sound.home ?_, hchooses⟩
  rintro i hi rfl
  exact hrestore hi

/-- A task that has yielded in a call and goes on is on the CPU. -/
theorem CallInv.on_cpu {idle : τ} {place : τ → Place W B} (hplace : PlaceInv idle place s) (h : CallInv s)
    (hready : s.pendsv = true → taskLevel s.stack = false) (hk : s.stack = .code (.body b) :: k) {w : Wait B}
    (hb : b.closing = some w) (hw : w.yielded = true) : place s.content.cur = .cpu := by
  have hclosing : (closing (.code (.body b) : Instr (Lock W B) (Op τ) (Body τ W B))).isSome = true := by
    simp [closing, hb]
  have hwait : waitCode (.code (.body b) : Instr (Lock W B) (Op τ) (Body τ W B)) = true := by
    rw [waitCode, hclosing]
    exact Bool.or_true _
  obtain ⟨-, -, hchooses⟩ := h.running hplace.code hk hwait
  have hbelow := h.under.1
  have hthen := h.waits.1
  rw [hk] at hbelow hthen
  have hrunning : s.content.state s.content.cur = .running := by
    rcases hplace.active with ⟨i, hi, hchoose⟩ | hrunning | ⟨-, hpendsv | hparks⟩
    · simp [hchooses i hi] at hchoose
    · exact hrunning
    · -- PendSV would have come first.
      have hlevel := hready hpendsv
      have htask := hbelow.1 hwait
      rw [hk] at hlevel
      simp only [taskLevel, List.all_cons, Instr.isFrame] at hlevel htask
      simp [htask] at hlevel
    · rw [hk] at hparks
      rcases hparks with hyields | ⟨-, hparks⟩
      · cases b <;> first | cases hyields | (obtain rfl := Option.some.inj hb; cases hw) | cases hb
      · exact absurd hparks (hthen.1.goesOn hclosing _)
  refine (hplace.placed.seen _).eq_cpu hrunning fun hmem => ?_
  obtain ⟨i, hi, hchoose⟩ := chooses_of_mem_picks hmem
  simp [hchooses i hi] at hchoose

-- ---------------------------------------------------------------------------
-- Blocked tasks
-- ---------------------------------------------------------------------------

/-- The task is in the call, and it is to block, or it has blocked, in it. -/
def InWait (s : State (Lock W B) (Op τ) (Body τ W B) (Content τ W B) τ) (t : τ) (w : Wait B) : Prop :=
  w ∈ carries closing s t ∧
    (w.yielded = true ∨ carries opening s t = [] ∧ s.content.shouldBlock t = true)

theorem InWait.control (hinv : LockInv s) (hstep : Control (spec C) s s') {t : τ} {w : Wait B} :
    InWait s' t w ↔ InWait s t w := by
  rw [InWait, InWait, (conveys_closing hinv).carries_eq hinv.sound hstep,
    (conveys_opening hinv).carries_eq hinv.sound hstep, hstep.content_eq]

/-- A task blocks in one call at a time. -/
theorem InWait.unique (hinv : LockInv s) (hcalls : CallInv s) {t : τ} {w w' : Wait B} (h : InWait s t w)
    (h' : InWait s t w') : w = w' := by
  have hlength : (carries closing s t).length ≤ 1 := by
    by_cases ht : t = s.running
    · subst ht
      by_cases hrestore : .restore ∈ s.stack
      · have hnil : s.stack.filterMap closing = [] := List.filterMap_eq_nil_iff.mpr fun i hi => by
          have hnot := hcalls.alone hrestore i hi
          simp only [waitCode, Bool.or_eq_true, not_or] at hnot
          simpa using hnot.2
        rw [carries, hnil]
        simpa using closing_unique (hcalls.waits.2 _)
      · rw [carries_running (hinv.sound.home fun i hi heq => hrestore (heq ▸ hi))]
        exact closing_unique hcalls.waits.1
    · rw [carries_of_ne ht]
      exact closing_unique (hcalls.waits.2 t)
  obtain ⟨hw, -⟩ := h
  obtain ⟨hw', -⟩ := h'
  generalize carries closing s t = l at hlength hw hw'
  cases l with
  | nil => cases hw
  | cons v l =>
    obtain rfl : l = [] := List.length_eq_zero_iff.mp (by simpa using hlength)
    rw [List.mem_singleton.mp hw, List.mem_singleton.mp hw']

/-- What the code that a step goes on with is to end and to begin. -/
def codeClosing (cs : List (KCode τ W B)) : List (Wait B) := cs.filterMap fun d => closing (.code d)

def codeOpening (cs : List (KCode τ W B)) : List (Wait B) := cs.filterMap fun d => opening (.code d)

theorem Outcome.shouldBlock_of_ne {t : τ} (h : Outcome C c b c' cs) (ht : t ≠ c.cur) :
    c'.shouldBlock t = c.shouldBlock t := by
  by_cases hb : b.blocks = true
  · cases h with
    | conditionMet | conditionNotMet | count | block | countTimeout | blockTimeout => simp [ht]
    | pushWait | addCurTask | dropCurrentTask => simp
    | _ => cases hb
  · rw [h.shouldBlock_eq (by simpa using hb)]

omit [DecidableEq W] [DecidableEq B] in
theorem carries_body_of_ne {α : Type} {f : Instr (Lock W B) (Op τ) (Body τ W B) → Option α} {t : τ}
    (ht : t ≠ s.running) : carries f { s with content := c', stack := push cs k } t = carries f s t := by
  rw [carries_of_ne ht, carries_of_ne (s := { s with content := c', stack := push cs k }) ht]

/-- A step that is not part of a call. -/
theorem Outcome.inWait_of_not (h : Outcome C s.content b c' cs) (hk : s.stack = .code (.body b) :: k)
    (hb : waitCode (.code (.body b) : Instr (Lock W B) (Op τ) (Body τ W B)) = false) {t : τ} {w : Wait B} :
    InWait { s with content := c', stack := push cs k } t w ↔ InWait s t w := by
  obtain ⟨htask, hclosing⟩ := Bool.or_eq_false_iff.mp hb
  have hblocks : b.blocks = false := (Bool.or_eq_false_iff.mp htask).2
  have hopening : b.opening = none := by cases b <;> first | rfl | cases hblocks
  have hclosing : closing (.code (.body b) : Instr (Lock W B) (Op τ) (Body τ W B)) = none := by
    simpa using hclosing
  have hcode : codeClosing cs = [] ∧ codeOpening cs = [] := by
    cases h with
    | @subCount m p => cases p <;> exact ⟨rfl, rfl⟩
    | _ => first | exact ⟨rfl, rfl⟩ | cases htask
  -- The code carries what it has carried before.
  have hcarries : ∀ {f : Instr (Lock W B) (Op τ) (Body τ W B) → Option (Wait B)}, f (.code (.body b)) = none →
      (cs.filterMap fun d => f (.code d)) = [] →
      carries f { s with content := c', stack := push cs k } t = carries f s t := by
    intro f hf hcs
    simp only [carries, hk, filterMap_push, filterMap_top, hf, hcs]
    rfl
  rw [InWait, InWait, hcarries hclosing hcode.1, hcarries hopening hcode.2, h.shouldBlock_eq hblocks]

omit [DecidableEq W] [DecidableEq B] in
/-- What the code of the current task says of the call that it is in. -/
theorem CallInv.inWait_cur (hhome : s.saved s.running = []) (h : CallInv s) (hk : s.stack = .code (.body b) :: k)
    (hb : waitCode (.code (.body b) : Instr (Lock W B) (Op τ) (Body τ W B)) = true) {t : τ} (ht : t = s.running)
    {w : Wait B} :
    InWait s t w ↔ b.closing = some w ∧ (w.yielded = true ∨ s.content.shouldBlock t = true) := by
  subst ht
  have hbelow := h.waits.1
  rw [hk] at hbelow
  have hclosing : s.stack.filterMap closing = b.closing.toList ++ b.opening.toList := by
    rw [hk, filterMap_top, hbelow.1.closing hb]
    rfl
  have hopening : s.stack.filterMap opening = b.opening.toList := by
    rw [hk, filterMap_top, hbelow.1.opening hb, List.append_nil]
    rfl
  rw [InWait, carries_running hhome, carries_running hhome, hclosing, hopening]
  cases hopens : b.opening with
  | none => simp
  | some v =>
    have hnone : b.closing = none ∧ v.yielded = false := by
      cases b <;> first | cases hopens; exact ⟨rfl, rfl⟩ | cases hopens
    simp only [hnone.1, Option.toList_none, List.nil_append, Option.toList_some, List.mem_singleton]
    constructor
    · rintro ⟨rfl, hyielded | ⟨hnil, -⟩⟩
      · simp [hnone.2] at hyielded
      · cases hnil
    · rintro ⟨⟨⟩, -⟩

omit [DecidableEq W] [DecidableEq B] in
/-- What the step of the current task leads to. -/
theorem CallInv.inWait_next (hhome : s.saved s.running = []) (h : CallInv s) (hk : s.stack = .code (.body b) :: k)
    (hb : waitCode (.code (.body b) : Instr (Lock W B) (Op τ) (Body τ W B)) = true) {t : τ} (ht : t = s.running)
    {w : Wait B} :
    InWait { s with content := c', stack := push cs k } t w ↔
      w ∈ codeClosing cs ++ b.opening.toList ∧
        (w.yielded = true ∨ codeOpening cs = [] ∧ c'.shouldBlock t = true) := by
  subst ht
  have hbelow := h.waits.1
  rw [hk] at hbelow
  have hcarries : ∀ f : Instr (Lock W B) (Op τ) (Body τ W B) → Option (Wait B),
      carries f { s with content := c', stack := push cs k } s.running =
        (cs.filterMap fun d => f (.code d)) ++ k.filterMap f := fun f => by
    rw [carries_running (s := { s with content := c', stack := push cs k }) hhome, filterMap_push]
  rw [InWait, hcarries, hcarries, hbelow.1.closing hb, hbelow.1.opening hb, List.append_nil]
  rfl

/-- The task is to block, or it has blocked, in a call that waits on the mailbox. -/
def Engaged (s : State (Lock W B) (Op τ) (Body τ W B) (Content τ W B) τ) (t : τ) (m : B) (timed : Bool) : Prop :=
  ∃ yielded, InWait s t ⟨m, timed, yielded⟩

/-- The wait with which the step blocks the current task. -/
def Body.engages (c : Content τ W B) : Body τ W B → Option (B × Bool)
  | .checkCount m => if c.count m = 0 then some (m, false) else none
  | .checkCountTimeout m _ => if c.count m = 0 then some (m, true) else none
  | _ => none

/-- The mailbox whose wait is over with the step. -/
def Body.disengages : Body τ W B → Option B
  | .takeResult m | .resumed m => some m
  | _ => none

theorem Engaged.control (hinv : LockInv s) (hstep : Control (spec C) s s') {t : τ} {m : B} {timed : Bool} :
    Engaged s' t m timed ↔ Engaged s t m timed := by
  simp only [Engaged, InWait.control hinv hstep]

/-- A task waits in one call at a time. -/
theorem Engaged.unique (hinv : LockInv s) (hcalls : CallInv s) {t : τ} {m m' : B} {timed timed' : Bool}
    (h : Engaged s t m timed) (h' : Engaged s t m' timed') : m = m' ∧ timed = timed' := by
  obtain ⟨y, h⟩ := h
  obtain ⟨y', h'⟩ := h'
  have := h.unique hinv hcalls h'
  simp only [Wait.mk.injEq] at this
  exact ⟨this.1, this.2.1⟩

omit [DecidableEq τ] [DecidableEq W] [DecidableEq B] in
theorem Body.engages_of_not (hb : waitCode (.code (.body b) : Instr (Lock W B) (Op τ) (Body τ W B)) = false) :
    b.engages c = none ∧ b.disengages = none := by
  cases b <;> first | exact ⟨rfl, rfl⟩ | cases hb

omit [DecidableEq τ] [DecidableEq W] [DecidableEq B] in
/-- A step that is part of no call. -/
theorem engaged_plain {m : B} {timed : Bool} (hcode : codeClosing cs ++ b.opening.toList = [])
    (hengages : b.engages c = none) (hclosing : b.closing = none) :
    (∃ y, (⟨m, timed, y⟩ : Wait B) ∈ codeClosing cs ++ b.opening.toList ∧
        (y = true ∨ codeOpening cs = [] ∧ c'.shouldBlock c.cur = true)) ↔
      b.engages c = some (m, timed) ∨
        (∃ y, b.closing = some ⟨m, timed, y⟩ ∧ (y = true ∨ c.shouldBlock c.cur = true)) ∧ ¬ b.disengages = some m := by
  rw [hcode, hengages, hclosing]
  simp

/-- The calls that a step of the current task is part of. -/
theorem Outcome.engaged_cur (h : Outcome C c b c' cs) {x : Choice τ W B} (hexec : exec C c b x = some (c', cs))
    {m : B} {timed : Bool} :
    (∃ y, (⟨m, timed, y⟩ : Wait B) ∈ codeClosing cs ++ b.opening.toList ∧
        (y = true ∨ codeOpening cs = [] ∧ c'.shouldBlock c.cur = true)) ↔
      b.engages c = some (m, timed) ∨
        (∃ y, b.closing = some ⟨m, timed, y⟩ ∧ (y = true ∨ c.shouldBlock c.cur = true)) ∧ ¬ b.disengages = some m := by
  cases h with
  | app call =>
    cases call with
    | mailWait | mailWaitUntilTimeout =>
      simp [Body.engages, Body.closing, Body.opening, codeClosing, codeOpening, Call.code, closing, opening,
        Op.closing, Op.opening]
    | _ => exact engaged_plain rfl rfl rfl
  | waited | waitedTimeout =>
    have hblock : c.shouldBlock c.cur = false := by simpa [exec] using hexec
    simp [Body.engages, Body.disengages, Body.closing, Body.opening, codeClosing, hblock]
  | count _ _ hcount | countTimeout _ _ hcount =>
    simp [Body.engages, Body.closing, Body.opening, codeClosing, codeOpening, closing, opening,
      Nat.pos_iff_ne_zero.mp hcount]
  | block _ _ hcount | blockTimeout _ _ hcount =>
    simp [Body.engages, Body.closing, Body.opening, codeClosing, codeOpening, closing, opening, hcount]
    exact fun _ => eq_comm
  | yield hblock | yieldTimeout hblock =>
    simp [Body.engages, Body.disengages, Body.closing, Body.opening, codeClosing, codeOpening, closing, opening,
      Op.closing, hblock]
    exact fun _ => eq_comm
  | takeNotified | takeTimeout | resumed =>
    simp [Body.engages, Body.disengages, Body.closing, Body.opening, codeClosing, closing]
    exact fun h _ => h
  | @subCount m p =>
    cases p <;> exact engaged_plain rfl rfl rfl
  | _ => exact engaged_plain rfl rfl rfl

/-- How a step changes the calls in which tasks block. -/
theorem CallInv.engaged_iff {idle : τ} (hcode : CodeInv idle s) (h : CallInv s) {x : Choice τ W B}
    (hk : s.stack = .code (.body b) :: k) (hexec : exec C s.content b x = some (c', cs)) {t : τ} {m : B}
    {timed : Bool} :
    Engaged { s with content := c', stack := push cs k } t m timed ↔
      t = s.content.cur ∧ b.engages s.content = some (m, timed) ∨
        Engaged s t m timed ∧ ¬ (t = s.content.cur ∧ b.disengages = some m) := by
  have hout := exec_outcome hexec
  by_cases hb : waitCode (.code (.body b) : Instr (Lock W B) (Op τ) (Body τ W B)) = true
  · obtain ⟨hcur, hhome, -⟩ := h.running hcode hk hb
    by_cases ht : t = s.content.cur
    · subst ht
      simp only [Engaged, h.inWait_cur hhome hk hb hcur, h.inWait_next hhome hk hb hcur, true_and]
      exact hout.engaged_cur hexec
    · have hne : t ≠ s.running := hcur ▸ ht
      simp only [Engaged, InWait, carries_body_of_ne hne, hout.shouldBlock_of_ne ht, ht, false_and, not_false_eq_true,
        and_true, false_or]
  · obtain ⟨hengages, hdisengages⟩ := Body.engages_of_not (c := s.content) (by simpa using hb)
    simp only [Engaged, hout.inWait_of_not hk (by simpa using hb), hengages, hdisengages, reduceCtorEq, and_false,
      not_false_eq_true, and_true, false_or]

end Hopter.Kernel
