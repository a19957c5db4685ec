-- SUMMARY: Forced unwinding never starts inside a drop handler, and a deferred one starts when the last one is over.
import Hopter.Task.StackLimit
import Mathlib.Algebra.Group.Nat.Defs

/-!
# Forced unwinding

A task that goes over its stack limit is unwound by force. `more_stack` diverts the call to the
unwinder, but a drop handler must not be unwound, and so for a drop handler it sets `unwind_pending`.
The body of a drop handler counts itself in `nested_drop_cnt`. At its end it takes itself off the
count, and the last one calls `deferred_unwind` when `unwind_pending` is set.

The compiler generates the code for this at the start and at the end of functions. It is modelled as
`src/unwind/forced.rs` describes it. A run ends with forced unwinding, or with a panic.
-/

namespace Hopter.Unwind

open Hopter.Allocator Hopter.Task

variable {n : Nat}

-- ---------------------------------------------------------------------------
-- The functions of a task
-- ---------------------------------------------------------------------------

/-- A function that has been called and has not returned. -/
structure ActiveFn where
  dropHandler : Bool
  /-- It runs on a stacklet of its own. -/
  extended : Bool

inductive ForcedUnwind where
  /-- `diverted_unwind`, instead of a call. -/
  | diverted
  /-- `deferred_unwind`, instead of the return from a drop handler. -/
  | deferred
  deriving DecidableEq

/-- A task with its active functions, the innermost first. -/
structure Running (n : Nat) where
  stack : Stack n
  functions : List ActiveFn
  started : Option ForcedUnwind
  /-- History: a call has gone over the limit. -/
  exceeded : Bool

inductive RunningEvent where
  /-- A call for which there is room on the stacklet. -/
  | call (dropHandler : Bool)
  /-- A call for which there is none. -/
  | callMore (dropHandler : Bool)
  | ret
  | heap (c : Allocator.Call)
  | move (sp : Reg)

def Running.tls (s : Running n) : TaskLocalStorage := s.stack.machine.ctxt.tls

/-- The bodies of drop handlers that are not over. -/
def Running.drops (s : Running n) : Nat := s.functions.countP ActiveFn.dropHandler

/-- Why the prologue of a function calls `more_stack`. -/
def prologueReason (dropHandler : Bool) : MoreStackReason := if dropHandler then .drop else .normal

section Steps

variable (P : Platform) (cfg : Task.Config) (prog : Reg → BitVec 16)

/-- The stack makes a step. -/
def Running.onStack (s : Running n) (e : Event) : Option (Running n) :=
  (s.stack.step P cfg prog e).map fun stack => { s with stack := stack }

/-- The body of a function begins. -/
def Running.enter (s : Running n) (f : ActiveFn) : Option (Running n) :=
  let s : Running n := { s with functions := f :: s.functions }
  if f.dropHandler = true then
    s.onStack P cfg prog (.drops (s.tls.nestedDropCnt + 1) s.tls.unwindPending)
  else some s

/-- A function returns to its caller. -/
def Running.leave (s : Running n) (f : ActiveFn) : Option (Running n) :=
  if f.extended = true then s.onStack P cfg prog .lessStack else some s

/-- `deferred_unwind`. -/
def Running.deferredUnwind (s : Running n) : Option (Running n) :=
  (s.onStack P cfg prog (.drops 0 0)).map fun s => { s with started := some .deferred }

def Running.step (s : Running n) (e : RunningEvent) : Option (Running n) :=
  if s.started.isSome = true then none else
  match e with
  | .call dropHandler => s.enter P cfg prog ⟨dropHandler, false⟩
  | .callMore dropHandler =>
    (s.onStack P cfg prog (.moreStack (prologueReason dropHandler))).bind fun t =>
      let t : Running n := { t with exceeded := s.exceeded || s.stack.machine.limitExceeded prog }
      match moreStack P cfg prog (prologueReason dropHandler) s.stack.machine with
      | some (.extended _) => t.enter P cfg prog ⟨dropHandler, true⟩
      | some (.diverted _) => some { t with started := some .diverted }
      | none => none
  | .ret =>
    match s.functions with
    | [] => none
    | f :: functions =>
      let s : Running n := { s with functions := functions }
      if f.dropHandler = true then
        let cnt : Reg := s.tls.nestedDropCnt - 1
        (s.onStack P cfg prog (.drops cnt s.tls.unwindPending)).bind fun s =>
          if cnt = 0 ∧ s.tls.unwindPending ≠ 0 then s.deferredUnwind P cfg prog
          else s.leave P cfg prog f
      else s.leave P cfg prog f
  | .heap c => s.onStack P cfg prog (.heap c)
  | .move sp => s.onStack P cfg prog (.move sp)

end Steps

variable {P : Platform} {cfg : Task.Config} {prog : Reg → BitVec 16} {reason : MoreStackReason}
  {s s' : Running n} {st st' : Stack n} {m m' : Machine n}

-- ---------------------------------------------------------------------------
-- The stack
-- ---------------------------------------------------------------------------

theorem moreStack_drops {o : Outcome n} (h : moreStack P cfg prog reason m = some o) :
    o.machine.ctxt.tls.nestedDropCnt = m.ctxt.tls.nestedDropCnt ∧ o.machine.unwinding = m.unwinding := by
  simp only [moreStack] at h
  split at h
  · cases h
  simp only [Option.bind_eq_some_iff, Prod.exists] at h
  obtain ⟨frame, m₁, exceeded, hcount, h⟩ := h
  have hunwinding : m₁.unwinding = m.unwinding := (countStack_kept hcount).1
  obtain ⟨-, -, hctxt, -⟩ := countStack_cases hcount
  split at h
  · obtain ⟨m', halloc, rfl⟩ := Option.map_eq_some_iff.mp h
    obtain ⟨heap, ptr, -, -, -, rfl⟩ := allocStacklet_cases halloc
    exact ⟨by simp only [Outcome.machine, hctxt], hunwinding⟩
  · simp only [Option.bind_eq_some_iff, Prod.exists] at h
    obtain ⟨pending, abort, -, h⟩ := h
    split at h
    · obtain rfl := Option.some.inj h
      exact ⟨congrArg (fun c => c.tls.nestedDropCnt) hctxt, hunwinding⟩
    · obtain ⟨m', halloc, rfl⟩ := Option.map_eq_some_iff.mp h
      obtain ⟨heap, ptr, -, -, -, rfl⟩ := allocStacklet_cases halloc
      exact ⟨by simp only [Outcome.machine, hctxt], hunwinding⟩

theorem lessStack_drops (h : lessStack P cfg m = some m') :
    m'.ctxt.tls.nestedDropCnt = m.ctxt.tls.nestedDropCnt ∧
      m'.ctxt.tls.unwindPending = m.ctxt.tls.unwindPending ∧ m'.unwinding = m.unwinding := by
  simp only [lessStack] at h
  split at h
  · cases h
  · obtain rfl := Option.some.inj h
    exact ⟨rfl, rfl, rfl⟩

/-- What the code outside of drop handlers does not touch. -/
structure SameTls (st st' : Stack n) : Prop where
  drops : st'.machine.ctxt.tls.nestedDropCnt = st.machine.ctxt.tls.nestedDropCnt
  pending : st'.machine.ctxt.tls.unwindPending = st.machine.ctxt.tls.unwindPending
  unwinding : st'.machine.unwinding = st.machine.unwinding

theorem step_sameTls {e : Event} (hstep : st.step P cfg prog e = some st')
    (he : (∃ c, e = .heap c) ∨ (∃ sp, e = .move sp) ∨ e = .lessStack) : SameTls st st' := by
  obtain ⟨c, rfl⟩ | ⟨sp, rfl⟩ | rfl := he
  · simp only [Stack.step] at hstep
    split at hstep
    · obtain ⟨heap, -, rfl⟩ := Option.map_eq_some_iff.mp hstep
      exact ⟨rfl, rfl, rfl⟩
    · cases hstep
  · simp only [Stack.step] at hstep
    split at hstep
    · obtain rfl := Option.some.inj hstep
      exact ⟨rfl, rfl, rfl⟩
    · cases hstep
  · simp only [Stack.step] at hstep
    split at hstep
    · cases hstep
    · obtain ⟨m, hless, rfl⟩ := Option.map_eq_some_iff.mp hstep
      obtain ⟨hdrops, hpending, hunwinding⟩ := lessStack_drops hless
      exact ⟨hdrops, hpending, hunwinding⟩

-- ---------------------------------------------------------------------------
-- One step
-- ---------------------------------------------------------------------------

/-- What a task and its functions are like after the machine has made a step that is not its own. -/
structure Keeps (s s' : Running n) : Prop where
  functions : s'.functions = s.functions
  started : s'.started = s.started
  exceeded : s'.exceeded = s.exceeded
  tls : SameTls s.stack s'.stack

theorem onStack_keeps {e : Event} (h : s.onStack P cfg prog e = some s')
    (he : (∃ c, e = .heap c) ∨ (∃ sp, e = .move sp) ∨ e = .lessStack) : Keeps s s' := by
  obtain ⟨stack, hstep, rfl⟩ := Option.map_eq_some_iff.mp h
  exact ⟨rfl, rfl, rfl, step_sameTls hstep he⟩

theorem leave_keeps {f : ActiveFn} (h : s.leave P cfg prog f = some s') : Keeps s s' := by
  simp only [Running.leave] at h
  split at h
  · exact onStack_keeps h (.inr (.inr rfl))
  · obtain rfl := Option.some.inj h
    exact ⟨rfl, rfl, rfl, rfl, rfl, rfl⟩

theorem enter_spec {f : ActiveFn} (h : s.enter P cfg prog f = some s') :
    s'.functions = f :: s.functions ∧ s'.started = s.started ∧ s'.exceeded = s.exceeded ∧
      s'.tls.nestedDropCnt = s.tls.nestedDropCnt + (if f.dropHandler = true then 1 else 0) ∧
      s'.tls.unwindPending = s.tls.unwindPending ∧
      s'.stack.machine.unwinding = s.stack.machine.unwinding := by
  simp only [Running.enter] at h
  split at h
  · rename_i hdrop
    obtain rfl := Option.some.inj h
    exact ⟨rfl, rfl, rfl, by rw [if_pos hdrop]; rfl, rfl, rfl⟩
  · rename_i hnot
    obtain rfl := Option.some.inj h
    exact ⟨rfl, rfl, rfl, by rw [if_neg hnot]; exact (BitVec.add_zero _).symm, rfl, rfl⟩

/-- The counter counts the drop handlers, and forced unwinding is pending as long as the task is over
its limit. It starts when there is no drop handler. -/
structure Running.Inv (s : Running n) : Prop where
  unwinding : s.stack.machine.unwinding = false
  counts : s.started = none → s.tls.nestedDropCnt.toNat = s.drops
  pending : s.started = none → s.tls.unwindPending = if s.exceeded = true then 1 else 0
  waits : s.started = none → s.exceeded = true → 0 < s.drops
  unwound : s.started ≠ none →
    s.drops = 0 ∧ s.exceeded = true ∧ s.tls.nestedDropCnt = 0 ∧ s.tls.unwindPending = 0

theorem Running.Inv.keeps (h : s.Inv) (hkeeps : Keeps s s') : s'.Inv := by
  obtain ⟨hfns, hstarted, hexceeded, ⟨hcnt, hpending, hunwinding⟩⟩ := hkeeps
  have hdrops : s'.drops = s.drops := by rw [Running.drops, hfns, Running.drops]
  have hcnt' : s'.tls.nestedDropCnt = s.tls.nestedDropCnt := hcnt
  have hpending' : s'.tls.unwindPending = s.tls.unwindPending := hpending
  constructor <;> rw [hstarted] at * <;> simp only [hdrops, hcnt', hpending', hexceeded, hunwinding]
  exacts [h.unwinding, h.counts, h.pending, h.waits, h.unwound]

theorem drops_cons (f : ActiveFn) (fs : List ActiveFn) (s : Running n) (hs : s.functions = f :: fs) :
    s.drops = fs.countP ActiveFn.dropHandler + if f.dropHandler = true then 1 else 0 := by
  rw [Running.drops, hs, List.countP_cons]

/-- The body of a function begins, when a drop handler is over its limit or nothing is. -/
theorem Running.Inv.enter {f : ActiveFn} (h : s.enter P cfg prog f = some s')
    (hunwinding : s.stack.machine.unwinding = false)
    (hstarted : s.started = none) (hcounts : s.tls.nestedDropCnt.toNat = s.drops)
    (hpending : s.tls.unwindPending = if s.exceeded = true then 1 else 0)
    (hwaits : s.exceeded = true → f.dropHandler = true ∨ 0 < s.drops) (hroom : s.drops + 1 < 2 ^ 32) :
    s'.Inv := by
  obtain ⟨hfns, hstarted', hexceeded, hcnt, hpending', hunwinding'⟩ := enter_spec h
  have hdrops : s'.drops = s.drops + if f.dropHandler = true then 1 else 0 := drops_cons f _ s' hfns
  have hnone : s'.started = none := hstarted'.trans hstarted
  refine ⟨hunwinding'.trans hunwinding, fun _ => ?_, fun _ => ?_, fun _ hover => ?_,
    fun hsome => absurd hnone hsome⟩
  · rw [hcnt, hdrops, BitVec.toNat_add, hcounts]
    split
    · simp only [BitVec.ofNat_eq_ofNat, BitVec.toNat_ofNat]
      omega
    · simp only [BitVec.ofNat_eq_ofNat, BitVec.toNat_ofNat]
      omega
  · rw [hpending', hexceeded, hpending]
  · rw [hexceeded] at hover
    rw [hdrops]
    rcases hwaits hover with hdrop | hpos
    · rw [if_pos hdrop]
      exact Nat.succ_pos _
    · omega

theorem Running.Inv.callMore {dropHandler : Bool} (hunwind : cfg.unwind = true) (h : s.Inv)
    (hroom : s.drops + 1 < 2 ^ 32) (hnone : s.started = none)
    (hstep : s.step P cfg prog (.callMore dropHandler) = some s') : s'.Inv := by
  rw [Running.step, if_neg (by simp [hnone])] at hstep
  simp only [Running.onStack, Option.bind_eq_some_iff, Option.map_eq_some_iff] at hstep
  obtain ⟨-, ⟨stack, hstack, rfl⟩, hstep⟩ := hstep
  simp only [Stack.step, Option.map_eq_some_iff] at hstack
  obtain ⟨o, hmore, hstack⟩ := hstack
  obtain ⟨hcnt, hunwinding⟩ := moreStack_drops hmore
  have hcounts := h.counts hnone
  have hpending := h.pending hnone
  have hwaits := h.waits hnone
  have hoff : s.stack.machine.unwinding = false := h.unwinding
  have hreason : prologueReason dropHandler ≠ .unwind := by cases dropHandler <;> exact fun h => by cases h
  rcases moreStack_decides hunwind hmore with ⟨⟨hover, hnormal, -, hzero⟩, m', rfl, hsame⟩ |
    ⟨⟨hover, -, -, hdrop⟩, m', rfl, hset⟩ | ⟨hnot, hnot', m', rfl, hsame⟩
  · -- The call is diverted. There is no drop handler, and so nothing was pending.
    rw [hmore] at hstep
    simp only [Option.some.injEq] at hstep hstack
    subst hstack hstep
    have hzero' : s.drops = 0 := by
      rw [← hcounts, Running.tls, hzero]
      rfl
    have hclear : s.exceeded = false := by
      by_contra hexceeded
      rw [Bool.not_eq_false] at hexceeded
      exact absurd (hwaits hexceeded) (by omega)
    refine ⟨hunwinding.trans hoff, fun hnone => (by cases hnone), fun hnone => (by cases hnone),
      fun hnone => (by cases hnone), fun _ => ⟨hzero', by simp [hover], hcnt.trans hzero, ?_⟩⟩
    refine hsame.trans ?_
    rw [hclear] at hpending
    exact hpending
  · -- A drop handler gets its stacklet, and forced unwinding is pending.
    rw [hmore] at hstep
    subst hstack
    refine Running.Inv.enter hstep (hunwinding.trans hoff) hnone ((congrArg BitVec.toNat hcnt).trans hcounts) ?_ ?_
      hroom
    · simp only [hover, Bool.or_true, if_true]
      exact hset
    · intro _
      rcases hdrop with hdrop | hpos
      · refine .inl ?_
        cases dropHandler with
        | true => rfl
        | false => cases hdrop
      · refine .inr ?_
        have hpos' : 0 < s.tls.nestedDropCnt.toNat := hpos
        rw [hcounts] at hpos'
        exact hpos'
  · -- The call is not over the limit.
    rw [hmore] at hstep
    subst hstack
    have hunder : s.stack.machine.limitExceeded prog = false := by
      by_contra hover
      rw [Bool.not_eq_false] at hover
      by_cases hzero : s.stack.machine.ctxt.tls.nestedDropCnt = 0
      · cases dropHandler with
        | true => exact hnot' ⟨hover, hreason, hoff, .inl rfl⟩
        | false => exact hnot ⟨hover, rfl, hoff, hzero⟩
      · refine hnot' ⟨hover, hreason, hoff, .inr (Nat.pos_of_ne_zero fun hz => hzero ?_)⟩
        exact BitVec.eq_of_toNat_eq hz
    refine Running.Inv.enter hstep (hunwinding.trans hoff) hnone ((congrArg BitVec.toNat hcnt).trans hcounts) ?_ ?_
      hroom
    · simp only [hunder, Bool.or_false]
      exact hsame.trans hpending
    · intro hexceeded
      simp only [hunder, Bool.or_false] at hexceeded
      exact .inr (hwaits hexceeded)

theorem Running.Inv.ret (h : s.Inv) (hnone : s.started = none)
    (hstep : s.step P cfg prog .ret = some s') : s'.Inv := by
  rw [Running.step, if_neg (by simp [hnone])] at hstep
  have hcounts := h.counts hnone
  have hpending := h.pending hnone
  have hwaits := h.waits hnone
  split at hstep
  · cases hstep
  rename_i f functions hfns
  have hdrops := drops_cons f functions s hfns
  split at hstep
  · rename_i hdrop
    rw [if_pos hdrop] at hdrops
    have hlt := s.tls.nestedDropCnt.isLt
    have hcnt : (s.tls.nestedDropCnt - 1).toNat = functions.countP ActiveFn.dropHandler := by
      rw [BitVec.toNat_sub, hcounts, hdrops]
      simp only [BitVec.ofNat_eq_ofNat, BitVec.toNat_ofNat]
      omega
    obtain ⟨t, ht, hstep⟩ := Option.bind_eq_some_iff.mp hstep
    obtain rfl := Option.some.inj ht
    split at hstep
    · -- The last drop handler is over, and forced unwinding starts.
      rename_i hlast
      obtain ⟨hzero, hset⟩ := hlast
      obtain rfl := Option.some.inj hstep
      have hzero' : functions.countP ActiveFn.dropHandler = 0 := by
        rw [← hcnt]
        exact congrArg BitVec.toNat hzero
      refine ⟨h.unwinding, fun hnone => (by cases hnone), fun hnone => (by cases hnone),
        fun hnone => (by cases hnone), fun _ => ⟨hzero', ?_, rfl, rfl⟩⟩
      by_contra hnot
      have hset' : s.tls.unwindPending ≠ 0 := hset
      rw [if_neg hnot] at hpending
      exact hset' hpending
    · rename_i hlast
      have hinv : Running.Inv { s with
          functions := functions
          stack := { s.stack with machine := { s.stack.machine with ctxt := { s.stack.machine.ctxt with
            tls := ⟨s.tls.stkletBound, s.tls.nestedDropCnt - 1, s.tls.unwindPending⟩ } } } } := by
        refine ⟨h.unwinding, fun _ => hcnt, fun _ => hpending, fun _ hexceeded => ?_,
          fun hsome => absurd hnone hsome⟩
        by_contra hzero
        refine hlast ⟨BitVec.eq_of_toNat_eq (hcnt.trans (Nat.eq_zero_of_not_pos hzero)), fun hclear => ?_⟩
        have hclear' : s.tls.unwindPending = 0 := hclear
        have hexceeded' : s.exceeded = true := hexceeded
        rw [if_pos hexceeded', hclear'] at hpending
        exact absurd hpending (by decide)
      exact hinv.keeps (leave_keeps (f := f) hstep)
  · rename_i hnot
    rw [if_neg hnot, Nat.add_zero] at hdrops
    have hinv : Running.Inv { s with functions := functions } :=
      ⟨h.unwinding, fun _ => hcounts.trans hdrops, fun _ => hpending,
        fun _ hexceeded => (hwaits hexceeded).trans_eq hdrops, fun hsome => absurd hnone hsome⟩
    exact hinv.keeps (leave_keeps hstep)

/-- A run is over when forced unwinding starts. -/
theorem step_started {e : RunningEvent} (hstep : s.step P cfg prog e = some s') : s.started = none := by
  cases hstarted : s.started with
  | none => rfl
  | some f => simp [Running.step, hstarted] at hstep

theorem Running.Inv.step {e : RunningEvent} (hunwind : cfg.unwind = true) (h : s.Inv)
    (hroom : s.drops + 1 < 2 ^ 32) (hstep : s.step P cfg prog e = some s') : s'.Inv := by
  have hnone := step_started hstep
  cases e with
  | call dropHandler =>
    rw [Running.step, if_neg (by simp [hnone])] at hstep
    exact Running.Inv.enter hstep h.unwinding hnone (h.counts hnone) (h.pending hnone)
      (fun hexceeded => .inr (h.waits hnone hexceeded)) hroom
  | callMore dropHandler => exact h.callMore hunwind hroom hnone hstep
  | ret => exact h.ret hnone hstep
  | heap c =>
    rw [Running.step, if_neg (by simp [hnone])] at hstep
    exact h.keeps (onStack_keeps hstep (.inl ⟨c, rfl⟩))
  | move sp =>
    rw [Running.step, if_neg (by simp [hnone])] at hstep
    exact h.keeps (onStack_keeps hstep (.inr (.inl ⟨sp, rfl⟩)))

-- ---------------------------------------------------------------------------
-- Runs
-- ---------------------------------------------------------------------------

/-- A task that calls its first function. -/
structure Running.Fresh (s : Running n) : Prop where
  functions : s.functions = []
  started : s.started = none
  exceeded : s.exceeded = false
  unwinding : s.stack.machine.unwinding = false
  nestedDropCnt : s.tls.nestedDropCnt = 0
  unwindPending : s.tls.unwindPending = 0

/-- Forced unwinding starts outside of drop handlers, when the task has gone over its limit, and not
later than that the last drop handler is over. -/
structure Running.ForcedOk (s : Running n) : Prop where
  outside : s.started ≠ none → s.drops = 0 ∧ s.exceeded = true
  inTime : s.exceeded = true → s.started ≠ none ∨ 0 < s.drops
  /-- The unwinder finds a task without drop handlers. -/
  cleared : s.started ≠ none ∨ s.drops = 0 → s.tls.nestedDropCnt = 0 ∧ s.tls.unwindPending = 0

theorem Running.Inv.forcedOk (h : s.Inv) : s.ForcedOk := by
  refine ⟨fun hsome => ⟨(h.unwound hsome).1, (h.unwound hsome).2.1⟩, fun hexceeded => ?_, fun hover => ?_⟩
  · by_cases hnone : s.started = none
    · exact .inr (h.waits hnone hexceeded)
    · exact .inl hnone
  · by_cases hnone : s.started = none
    · have hzero : s.drops = 0 := hover.resolve_left fun hsome => hsome hnone
      have hclear : ¬ s.exceeded = true := fun hexceeded => absurd (h.waits hnone hexceeded) (by omega)
      have hpending := h.pending hnone
      rw [if_neg hclear] at hpending
      exact ⟨BitVec.eq_of_toNat_eq ((h.counts hnone).trans hzero), hpending⟩
    · exact (h.unwound hnone).2.2

theorem Running.Fresh.inv (h : s.Fresh) : s.Inv := by
  have hzero : s.drops = 0 := by rw [Running.drops, h.functions, List.countP_nil]
  refine ⟨h.unwinding, fun _ => ?_, fun _ => ?_, fun _ hexceeded => ?_, fun hsome => absurd h.started hsome⟩
  · rw [h.nestedDropCnt, hzero]
    rfl
  · rw [h.unwindPending, h.exceeded]
    rfl
  · rw [h.exceeded] at hexceeded
    cases hexceeded

/-- Whatever functions and drop handlers a task calls, and however deep they are nested, forced unwinding
waits for the drop handlers, and for nothing else. The counter has 32 bits. -/
theorem exec_forcedOk {s₀ : Running n} {events : List RunningEvent} (hunwind : cfg.unwind = true)
    (hfresh : s₀.Fresh)
    (hroom : Run.Allowed (Running.step P cfg prog) (fun s _ => s.drops + 1 < 2 ^ 32) s₀ events)
    (hrun : Run.exec (Running.step P cfg prog) s₀ events = some s) : s.ForcedOk := by
  have hinv : s.Inv := Run.exec_inv_of_allowed Running.Inv
    (fun h hroom hstep => h.step hunwind hroom hstep) hfresh.inv hroom hrun
  exact hinv.forcedOk

/-- A run of the stack. -/
def StackRun (P : Platform) (cfg : Task.Config) (prog : Reg → BitVec 16) (st st' : Stack n) : Prop :=
  ∃ events, Run.exec (Stack.step P cfg prog) st events = some st'

theorem StackRun.refl (st : Stack n) : StackRun P cfg prog st st := ⟨[], rfl⟩

theorem StackRun.trans {st'' : Stack n} (h : StackRun P cfg prog st st') (h' : StackRun P cfg prog st' st'') :
    StackRun P cfg prog st st'' := by
  obtain ⟨events, hrun⟩ := h
  obtain ⟨events', hrun'⟩ := h'
  exact ⟨events ++ events', Run.exec_append.mpr ⟨st', hrun, hrun'⟩⟩

theorem onStack_stackRun {e : Event} (h : s.onStack P cfg prog e = some s') :
    StackRun P cfg prog s.stack s'.stack := by
  obtain ⟨stack, hstep, rfl⟩ := Option.map_eq_some_iff.mp h
  exact ⟨[e], Run.exec_cons.mpr ⟨stack, hstep, rfl⟩⟩

theorem enter_stackRun {f : ActiveFn} (h : s.enter P cfg prog f = some s') :
    StackRun P cfg prog s.stack s'.stack := by
  simp only [Running.enter] at h
  split at h
  · exact onStack_stackRun (s := { s with functions := f :: s.functions }) h
  · obtain rfl := Option.some.inj h
    exact .refl _

theorem leave_stackRun {f : ActiveFn} (h : s.leave P cfg prog f = some s') :
    StackRun P cfg prog s.stack s'.stack := by
  simp only [Running.leave] at h
  split at h
  · exact onStack_stackRun h
  · obtain rfl := Option.some.inj h
    exact .refl _

theorem Running.step_stackRun {e : RunningEvent} (hstep : s.step P cfg prog e = some s') :
    StackRun P cfg prog s.stack s'.stack := by
  have hnone := step_started hstep
  cases e with
  | call dropHandler =>
    rw [Running.step, if_neg (by simp [hnone])] at hstep
    exact enter_stackRun hstep
  | callMore dropHandler =>
    rw [Running.step, if_neg (by simp [hnone])] at hstep
    obtain ⟨t, ht, hstep⟩ := Option.bind_eq_some_iff.mp hstep
    have hmore := onStack_stackRun ht
    dsimp only at hstep
    split at hstep
    · exact hmore.trans (enter_stackRun
        (s := { t with exceeded := s.exceeded || s.stack.machine.limitExceeded prog }) hstep)
    · obtain rfl := Option.some.inj hstep
      exact hmore
    · cases hstep
  | ret =>
    rw [Running.step, if_neg (by simp [hnone])] at hstep
    dsimp only at hstep
    split at hstep
    · cases hstep
    rename_i f functions _
    split at hstep
    · obtain ⟨t, ht, hstep⟩ := Option.bind_eq_some_iff.mp hstep
      have hdrops := onStack_stackRun (s := { s with functions := functions }) ht
      split at hstep
      · obtain ⟨u, hu, rfl⟩ := Option.map_eq_some_iff.mp hstep
        have hclear : StackRun P cfg prog t.stack u.stack := onStack_stackRun hu
        exact hdrops.trans hclear
      · exact hdrops.trans (leave_stackRun (f := f) hstep)
    · exact leave_stackRun (s := { s with functions := functions }) (f := f) hstep
  | heap c =>
    rw [Running.step, if_neg (by simp [hnone])] at hstep
    exact onStack_stackRun hstep
  | move sp =>
    rw [Running.step, if_neg (by simp [hnone])] at hstep
    exact onStack_stackRun hstep

/-- What holds of all runs of the segmented stack holds of the stack of the task. -/
theorem exec_stackRun {s₀ : Running n} {events : List RunningEvent}
    (hrun : Run.exec (Running.step P cfg prog) s₀ events = some s) : StackRun P cfg prog s₀.stack s.stack :=
  Run.exec_inv (fun s => StackRun P cfg prog s₀.stack s.stack)
    (fun h hstep => h.trans (Running.step_stackRun hstep)) (.refl _) hrun

/-- A task with a limit of 4 bytes. -/
def limitedRunning (client : Client) : Running 1 := ⟨limitedStack 4 client, [], none, false⟩

/-- A drop handler goes over the limit, and so does a function that it calls. -/
def dropOverLimit : List RunningEvent := [.callMore true, .callMore false, .ret, .ret]

theorem exec_forcedOk_board : ∃ s₀ s : Running 1, s₀.Fresh ∧
    Run.exec (Running.step board boardConfig smallFrames) s₀ dropOverLimit = some s ∧
      s.started = some .deferred ∧ s.ForcedOk := by
  obtain ⟨client, hheap, hstart⟩ := limitedStack_start 4
  have hvalues : (boardHeap.bind fun c => (Run.exec (Running.step board boardConfig smallFrames)
      (limitedRunning c) dropOverLimit).map Running.started) = some (some .deferred) := by decide +kernel
  have hroom : boardHeap.map (fun c => decide (Run.Allowed (Running.step board boardConfig smallFrames)
      (fun s _ => s.drops + 1 < 2 ^ 32) (limitedRunning c) dropOverLimit)) = some true := by decide +kernel
  simp only [hheap, Option.bind_some, Option.map_eq_some_iff] at hvalues
  simp only [hheap, Option.map_some, Option.some.injEq, decide_eq_true_eq] at hroom
  obtain ⟨s, hrun, hstarted⟩ := hvalues
  have hfresh : (limitedRunning client).Fresh := ⟨rfl, rfl, rfl, rfl, rfl, rfl⟩
  exact ⟨_, s, hfresh, hrun, hstarted, exec_forcedOk rfl hfresh hroom hrun⟩

end Hopter.Unwind
