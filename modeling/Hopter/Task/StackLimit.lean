-- SUMMARY: The stack size limit of a task: which extensions are refused, and how much stack a task gets.
import Hopter.Task.HotSplit
import Hopter.Task.StackAccounting

/-!
# The stack size limit

`more_stack` charges a task for a stacklet and then looks at its limit. Over the limit the
call is refused, and the task is unwound by force. The unwinder gets its stacklet anyway, and
so does a task that is already unwinding. A drop handler gets one too, and `unwind_pending`
tells it to start the unwinder when it is done. A task without a control block has no stack to
extend, and every request of it is over the limit.
-/

namespace Hopter.Task

open Allocator

variable {n : Nat} {P : Platform} {cfg : Config} {prog : Reg → BitVec 16} {reason : MoreStackReason}
  {s s' : Stack n} {m m' : Machine n}

-- ---------------------------------------------------------------------------
-- One request
-- ---------------------------------------------------------------------------

/-- The task is over its limit inside a drop handler, and has to be unwound afterwards. -/
def Machine.Pends (prog : Reg → BitVec 16) (reason : MoreStackReason) (m : Machine n) : Prop :=
  m.limitExceeded prog = true ∧ reason ≠ .unwind ∧ m.unwinding = false ∧
    (reason = .drop ∨ 0 < m.ctxt.tls.nestedDropCnt.toNat)

def Outcome.machine : Outcome n → Machine n
  | .extended m => m
  | .diverted m => m

theorem Machine.Refuses.not_pends (h : m.Refuses prog reason) : ¬ m.Pends prog reason := by
  obtain ⟨-, rfl, -, hdrops⟩ := h
  rintro ⟨-, -, -, hdrop | hdrop⟩
  · cases hdrop
  · simp [hdrops] at hdrop

theorem allocStacklet_pending {frameSize argSize : Reg}
    (h : allocStacklet P cfg frameSize argSize m = some m') :
    m'.ctxt.tls.unwindPending = m.ctxt.tls.unwindPending := by
  obtain ⟨heap, ptr, -, -, -, rfl⟩ := allocStacklet_cases h
  rfl

theorem allocStacklet_stackLimit {frameSize argSize : Reg}
    (h : allocStacklet P cfg frameSize argSize m = some m') : m'.stackLimit = m.stackLimit := by
  obtain ⟨heap, ptr, -, -, -, rfl⟩ := allocStacklet_cases h
  rfl

/-- What `handle_limit_exceed` decides. -/
theorem handleLimitExceed_cases (reason : MoreStackReason) (unwinding : Bool) (tls : TaskLocalStorage)
    (hunwind : cfg.unwind = true) :
    (reason = .normal ∧ unwinding = false ∧ tls.nestedDropCnt = 0 ∧
        handleLimitExceed cfg reason unwinding tls = some (tls.unwindPending, true)) ∨
      ((reason ≠ .unwind ∧ unwinding = false ∧ (reason = .drop ∨ 0 < tls.nestedDropCnt.toNat)) ∧
        handleLimitExceed cfg reason unwinding tls = some (1, false)) ∨
      ((reason = .unwind ∨ unwinding = true) ∧
        handleLimitExceed cfg reason unwinding tls = some (tls.unwindPending, false)) := by
  simp only [handleLimitExceed, hunwind, Bool.true_eq_false, if_false]
  by_cases hexempt : reason = .unwind ∨ unwinding = true
  · exact .inr (.inr ⟨hexempt, if_pos hexempt⟩)
  rw [if_neg hexempt]
  rw [not_or, Bool.not_eq_true] at hexempt
  by_cases hdrop : reason = .drop ∨ 0 < tls.nestedDropCnt.toNat
  · exact .inr (.inl ⟨⟨hexempt.1, hexempt.2, hdrop⟩, if_pos hdrop⟩)
  · rw [if_neg hdrop]
    rw [not_or, not_lt, Nat.le_zero] at hdrop
    refine .inl ⟨?_, hexempt.2, BitVec.eq_of_toNat_eq hdrop.2, rfl⟩
    cases reason with
    | normal => rfl
    | drop => exact absurd rfl hdrop.1
    | unwind => exact absurd rfl hexempt.1

/-- `more_stack` diverts exactly the requests that it refuses. It sets `unwind_pending` for a
drop handler that is over the limit, which gets its stacklet, and in no other case. -/
theorem moreStack_decides {o : Outcome n} (hunwind : cfg.unwind = true)
    (h : moreStack P cfg prog reason m = some o) :
    (m.Refuses prog reason ∧ ∃ m', o = .diverted m' ∧
        m'.ctxt.tls.unwindPending = m.ctxt.tls.unwindPending) ∨
      (m.Pends prog reason ∧ ∃ m', o = .extended m' ∧ m'.ctxt.tls.unwindPending = 1) ∨
      (¬ m.Refuses prog reason ∧ ¬ m.Pends prog reason ∧ ∃ m', o = .extended m' ∧
        m'.ctxt.tls.unwindPending = m.ctxt.tls.unwindPending) := by
  simp only [moreStack] at h
  split at h
  · cases h
  simp only [Option.bind_eq_some_iff, Prod.exists] at h
  obtain ⟨frame, m₁, exceeded, hcount, h⟩ := h
  have hunwinding : m₁.unwinding = m.unwinding := (countStack_kept hcount).1
  obtain ⟨rfl, rfl, hctxt, -⟩ := countStack_cases hcount
  split at h
  · rename_i hunder
    obtain ⟨m', halloc, rfl⟩ := Option.map_eq_some_iff.mp h
    have hnot : ¬ m.limitExceeded prog = true := by simp [hunder]
    exact .inr (.inr ⟨fun hr => hnot hr.1, fun hp => hnot hp.1, m', rfl,
      (allocStacklet_pending halloc).trans (by rw [hctxt])⟩)
  · rename_i hover
    rw [Bool.not_eq_false] at hover
    rw [hctxt, hunwinding] at h
    rcases handleLimitExceed_cases reason m.unwinding m.ctxt.tls hunwind
      with ⟨hreason, hunwinding, hdrops, heq⟩ | ⟨hpends, heq⟩ | ⟨hexempt, heq⟩
    · simp only [heq, Option.bind_some, if_true] at h
      obtain rfl := Option.some.inj h
      exact .inl ⟨⟨hover, hreason, hunwinding, hdrops⟩, _, rfl, rfl⟩
    · simp only [heq, Option.bind_some, Bool.false_eq_true, if_false] at h
      obtain ⟨m', halloc, rfl⟩ := Option.map_eq_some_iff.mp h
      exact .inr (.inl ⟨⟨hover, hpends⟩, m', rfl, allocStacklet_pending halloc⟩)
    · simp only [heq, Option.bind_some, Bool.false_eq_true, if_false] at h
      obtain ⟨m', halloc, rfl⟩ := Option.map_eq_some_iff.mp h
      have hpending := allocStacklet_pending halloc
      refine .inr (.inr ⟨?_, ?_, m', rfl, hpending⟩)
      · rintro ⟨-, rfl, hnot, -⟩
        simp [hnot] at hexempt
      · rintro ⟨-, hreason, hnot, -⟩
        simp [hnot, hreason] at hexempt

-- ---------------------------------------------------------------------------
-- The books in every state
-- ---------------------------------------------------------------------------

theorem moreStack_stackLimit {o : Outcome n} (h : moreStack P cfg prog reason m = some o) :
    o.machine.stackLimit = m.stackLimit := by
  simp only [moreStack] at h
  split at h
  · cases h
  simp only [Option.bind_eq_some_iff, Prod.exists] at h
  obtain ⟨frame, m₁, exceeded, hcount, h⟩ := h
  have hkept : m₁.stackLimit = m.stackLimit := (countStack_kept hcount).2
  split at h
  · obtain ⟨m', halloc, rfl⟩ := Option.map_eq_some_iff.mp h
    exact (allocStacklet_stackLimit halloc).trans hkept
  · simp only [Option.bind_eq_some_iff, Prod.exists] at h
    obtain ⟨pending, abort, -, h⟩ := h
    split at h
    · obtain rfl := Option.some.inj h
      exact hkept
    · obtain ⟨m', halloc, rfl⟩ := Option.map_eq_some_iff.mp h
      have hsame := allocStacklet_stackLimit halloc
      exact hsame.trans hkept

/-- What a step does to the control block and the limit of the task. -/
theorem Stack.step_scb {e : Event} (hstep : s.step P cfg prog e = some s') :
    s'.machine.stackLimit = s.machine.stackLimit ∧
      (s'.machine.scb = s.machine.scb ∨
        (∃ m₁, Prepared cfg prog s.machine m₁ ∧ s'.machine.scb = m₁.scb) ∨
        ∃ lr size, s'.machine.scb = s.machine.scb.map fun scb =>
          { svcLessStackAntiHotSplit lr scb with cumulatedSize := scb.cumulatedSize - size }) := by
  cases e with
  | heap call =>
    simp only [Stack.step] at hstep
    split at hstep
    · obtain ⟨heap, -, rfl⟩ := Option.map_eq_some_iff.mp hstep
      exact ⟨rfl, .inl rfl⟩
    · cases hstep
  | move sp =>
    simp only [Stack.step] at hstep
    split at hstep
    · obtain rfl := Option.some.inj hstep
      exact ⟨rfl, .inl rfl⟩
    · cases hstep
  | drops nestedDropCnt unwindPending =>
    obtain rfl := Option.some.inj hstep
    exact ⟨rfl, .inl rfl⟩
  | unwinding b =>
    obtain rfl := Option.some.inj hstep
    exact ⟨rfl, .inl rfl⟩
  | moreStack reason =>
    obtain ⟨o, hmore, rfl⟩ := Option.map_eq_some_iff.mp hstep
    have hlimit : o.machine.stackLimit = s.machine.stackLimit := moreStack_stackLimit hmore
    obtain ⟨m₁, hprep, ⟨m', rfl, halloc⟩ | rfl⟩ := moreStack_cases hmore
    · obtain ⟨heap, ptr, -, -, -, rfl⟩ := allocStacklet_cases halloc
      exact ⟨hlimit, .inr (.inl ⟨m₁, hprep, rfl⟩)⟩
    · exact ⟨hlimit, .inr (.inl ⟨m₁, hprep, rfl⟩)⟩
  | lessStack =>
    simp only [Stack.step] at hstep
    split at hstep
    · cases hstep
    · obtain ⟨m, hless, rfl⟩ := Option.map_eq_some_iff.mp hstep
      simp only [lessStack] at hless
      split at hless
      · cases hless
      · obtain rfl := Option.some.inj hless
        exact ⟨rfl, .inr (.inr ⟨_, _, rfl⟩)⟩

/-- The next entry to replace in the hot-split cache is one of its entries. -/
def IndexOk (s : Stack n) : Prop := ∀ scb, s.machine.scb = some scb → scb.roundRobinIdx < n

theorem Prepared.index (h : Prepared cfg prog m m') {scb' : StackCtrlBlock n}
    (hindex : ∀ scb, m.scb = some scb → scb.roundRobinIdx < n) (hscb' : m'.scb = some scb') :
    scb'.roundRobinIdx < n := by
  have hscb := h.scb
  split at hscb
  · rw [hscb] at hscb'
    cases hscb'
  · rename_i scb heq
    obtain ⟨scb₁, extendCnt', hsplit, hnew⟩ := hscb
    obtain rfl := Option.some.inj (hscb'.symm.trans hnew)
    obtain ⟨_, _, _, hsplit', hlt⟩ := svcMoreStackAntiHotSplit_index cfg m.tf.lr
      (getStackFrameSize prog m.tf) m.extendCnt (hindex scb heq)
    simp only [hsplit, Option.some.injEq, Prod.mk.injEq] at hsplit'
    obtain ⟨-, rfl, -⟩ := hsplit'
    exact hlt

theorem IndexOk.step {e : Event} (h : IndexOk s) (hstep : s.step P cfg prog e = some s') : IndexOk s' := by
  intro scb' hscb'
  obtain ⟨-, hsame | ⟨m₁, hprep, hmore⟩ | ⟨lr, size, hless⟩⟩ := Stack.step_scb hstep
  · exact h scb' (hsame ▸ hscb')
  · exact hprep.index h (hmore ▸ hscb')
  · obtain ⟨scb, hscb, rfl⟩ := Option.map_eq_some_iff.mp (hless ▸ hscb')
    exact h scb hscb

theorem countStack_total (cfg : Config) (size : Reg) (m : Machine n) (hindex : ∀ scb, m.scb = some scb → scb.roundRobinIdx < n) :
    ∃ counted, countStack cfg size m = some counted := by
  simp only [countStack]
  split
  · exact ⟨_, rfl⟩
  · rename_i scb hscb
    obtain ⟨_, _, _, hsplit, -⟩ := svcMoreStackAntiHotSplit_index cfg _ _ _ (hindex scb hscb)
    exact ⟨_, by rw [hsplit, Option.map_some]⟩

/-- A request that is to be refused is not too much for the hot-split cache. -/
theorem Machine.Refuses.diverted (h : m.Refuses prog reason) (hdynamic : cfg.allowDynamicStack = true)
    (hunwind : cfg.unwind = true) (hindex : ∀ scb, m.scb = some scb → scb.roundRobinIdx < n) :
    ∃ m', moreStack P cfg prog reason m = some (.diverted m') := by
  obtain ⟨⟨frame, m₁, exceeded⟩, hcount⟩ := countStack_total cfg (getStackFrameSize prog m.tf)
    { m with stackExtendCount := m.stackExtendCount + 1 } hindex
  have hunwinding : m₁.unwinding = m.unwinding := (countStack_kept hcount).1
  obtain ⟨-, rfl, hctxt, -⟩ := countStack_cases hcount
  obtain ⟨hover, rfl, hnot, hdrops⟩ := h
  rcases handleLimitExceed_cases .normal m.unwinding m.ctxt.tls hunwind
    with ⟨-, -, -, heq⟩ | ⟨⟨-, -, hdrop | hdrop⟩, -⟩ | ⟨hreason | hunwinds, -⟩
  · simp only [moreStack, hdynamic, Bool.true_eq_false, if_false, Machine.tf, Machine.mem] at hcount ⊢
    rw [hcount, Option.bind_some]
    simp only [hover, Bool.true_eq_false, if_false, hctxt, hunwinding, heq, Option.bind_some, if_true]
    exact ⟨_, rfl⟩
  · cases hdrop
  · simp [hdrops] at hdrop
  · cases hreason
  · simp [hnot] at hunwinds

-- ---------------------------------------------------------------------------
-- The size of the stack
-- ---------------------------------------------------------------------------

/-- The size of the chunk that a request asks the allocator for. -/
def requestSize (cfg : Config) (prog : Reg → BitVec 16) (s : Stack n) : Event → Nat
  | .moreStack _ =>
    (s.machine.frameSize prog).toNat + (s.machine.argSize prog).toNat + overheadSize + cfg.additionAllocSize
  | _ => 0

/-- The task does not get a stacklet that takes it over its limit, neither for the unwinder or
while it unwinds, nor for a drop handler. -/
def NotExempt (prog : Reg → BitVec 16) (s : Stack n) : Event → Prop
  | .moreStack reason => s.machine.limitExceeded prog = true → s.machine.Refuses prog reason
  | _ => True

/-- What the calls have asked for. -/
def heldSize (prog : Reg → BitVec 16) (calls : List (OpenCall n)) : Nat :=
  (calls.map fun c => (c.before.frameSize prog).toNat).sum

/-- The task has what it was charged for at most, and at most its limit. What it was refused is
charged too, so that the counted size is between what it has and all that it asked for. -/
structure Limited (P : Platform) (prog : Reg → BitVec 16) (limit : Option Nat) (total : Nat)
    (s : Stack n) : Prop where
  layout : Layout P prog s
  limit_eq : s.machine.stackLimit = limit
  static : s.machine.scb = none → s.calls = []
  covered : ∀ scb, s.machine.scb = some scb → heldSize prog s.calls ≤ scb.cumulatedSize.toNat
  counted : ∀ scb, s.machine.scb = some scb → scb.cumulatedSize.toNat ≤ total
  bounded : ∀ size, limit = some size → heldSize prog s.calls ≤ size

variable {limit : Option Nat} {total : Nat}

theorem Limited.congr (h : Limited P prog limit total s) (hlayout : Layout P prog s')
    (hlimit : s'.machine.stackLimit = s.machine.stackLimit) (hscb : s'.machine.scb = s.machine.scb)
    (hcalls : s'.calls = s.calls) : Limited P prog limit total s' := by
  refine ⟨hlayout, hlimit.trans h.limit_eq, ?_, ?_, ?_, ?_⟩
  · rw [hscb, hcalls]
    exact h.static
  · rw [hscb, hcalls]
    exact h.covered
  · rw [hscb]
    exact h.counted
  · rw [hcalls]
    exact h.bounded

/-- The counted size does not wrap around when a request is charged. -/
theorem Limited.prepared (h : Limited P prog limit total s) {size : Nat}
    (hsize : (s.machine.frameSize prog).toNat ≤ size) (hmax : total + size < 2 ^ 32)
    (hprep : Prepared cfg prog s.machine m) {scb' : StackCtrlBlock n} (hscb' : m.scb = some scb') :
    ∃ scb, s.machine.scb = some scb ∧
      scb'.cumulatedSize = scb.cumulatedSize + s.machine.frameSize prog ∧
      scb'.cumulatedSize.toNat = scb.cumulatedSize.toNat + (s.machine.frameSize prog).toNat := by
  have hcount := hprep.counters.2
  cases hscb : s.machine.scb with
  | none => simp [hscb, hscb'] at hcount
  | some scb =>
    simp only [hscb, hscb', Option.map_some, Option.some.injEq] at hcount
    have htotal := h.counted scb hscb
    refine ⟨scb, rfl, hcount, ?_⟩
    rw [hcount, BitVec.toNat_add, Nat.mod_eq_of_lt (by omega)]

theorem Prepared.scb_none (h : Prepared cfg prog m m') (hnone : m'.scb = none) : m.scb = none := by
  have hcount := h.counters.2
  cases hs : m.scb with
  | none => rfl
  | some scb => simp [hs, hnone] at hcount

/-- A request that is granted within the limit. -/
theorem Limited.extended (h : Limited P prog limit total s) {size : Nat}
    (hunder : s.machine.limitExceeded prog = false) (hsize : (s.machine.frameSize prog).toNat ≤ size)
    (hmax : total + size < 2 ^ 32) (hprep : Prepared cfg prog s.machine m) (hscb : s'.machine.scb = m.scb)
    (hlimit : s'.machine.stackLimit = s.machine.stackLimit) {st : Nat × Nat}
    (hcalls : s'.calls = ⟨s.machine, st⟩ :: s.calls) (hlayout : Layout P prog s') :
    Limited P prog limit (total + size) s' := by
  have hheld : heldSize prog s'.calls = (s.machine.frameSize prog).toNat + heldSize prog s.calls := by
    rw [hcalls, heldSize, List.map_cons, List.sum_cons, heldSize]
  refine ⟨hlayout, hlimit.trans h.limit_eq, ?_, fun scb' hscb' => ?_, fun scb' hscb' => ?_, fun limit' hsome => ?_⟩
  · intro hnone
    have hs := hprep.scb_none (hscb ▸ hnone)
    simp [Machine.limitExceeded, hs] at hunder
  · obtain ⟨scb, hs, -, hadd⟩ := h.prepared hsize hmax hprep (hscb ▸ hscb')
    have hcovered := h.covered scb hs
    omega
  · obtain ⟨scb, hs, -, hadd⟩ := h.prepared hsize hmax hprep (hscb ▸ hscb')
    have hcounted := h.counted scb hs
    omega
  · have hmachine := h.limit_eq.trans hsome
    cases hs : s.machine.scb with
    | none => simp [Machine.limitExceeded, hs] at hunder
    | some scb =>
      simp only [Machine.limitExceeded, hs, hmachine, decide_eq_false_iff_not, not_lt] at hunder
      have hcovered := h.covered scb hs
      have hcounted := h.counted scb hs
      have hmod := Nat.mod_le limit' (2 ^ 32)
      rw [BitVec.toNat_add, Nat.mod_eq_of_lt (by omega), BitVec.toNat_ofNat] at hunder
      omega

/-- A request that is refused. -/
theorem Limited.refused (h : Limited P prog limit total s) {size : Nat}
    (hsize : (s.machine.frameSize prog).toNat ≤ size) (hmax : total + size < 2 ^ 32)
    (hprep : Prepared cfg prog s.machine m) (hscb : s'.machine.scb = m.scb)
    (hlimit : s'.machine.stackLimit = s.machine.stackLimit) (hcalls : s'.calls = s.calls)
    (hlayout : Layout P prog s') : Limited P prog limit (total + size) s' := by
  refine ⟨hlayout, hlimit.trans h.limit_eq, ?_, fun scb' hscb' => ?_, fun scb' hscb' => ?_,
    hcalls ▸ h.bounded⟩
  · intro hnone
    rw [hcalls]
    exact h.static (hprep.scb_none (hscb ▸ hnone))
  · obtain ⟨scb, hs, -, hadd⟩ := h.prepared hsize hmax hprep (hscb ▸ hscb')
    have hcovered := h.covered scb hs
    rw [hcalls]
    omega
  · obtain ⟨scb, hs, -, hadd⟩ := h.prepared hsize hmax hprep (hscb ▸ hscb')
    have hcounted := h.counted scb hs
    omega

/-- A stacklet that is given back. -/
theorem Limited.returned (h : Limited P prog limit total s) {c : OpenCall n} {rest : List (OpenCall n)}
    (hcalls : s.calls = c :: rest) (hless : lessStack P cfg s.machine = some m)
    (hlimit : m.stackLimit = s.machine.stackLimit)
    (hlayout : Layout P prog { s with machine := m, calls := rest }) :
    Limited P prog limit total { s with machine := m, calls := rest } := by
  have hret := lessStack_returned (h.layout.switched hcalls) hless
  have hkept := h.layout.kept c (by simp [hcalls])
  have hheld : heldSize prog s.calls = (c.before.frameSize prog).toNat + heldSize prog rest := by
    rw [hcalls, heldSize, List.map_cons, List.sum_cons, heldSize]
  have hback : ∀ scb', m.scb = some scb' → ∃ scb, s.machine.scb = some scb ∧
      scb'.cumulatedSize.toNat = scb.cumulatedSize.toNat - (c.before.frameSize prog).toNat := by
    intro scb' hscb'
    rw [hret.scb] at hscb'
    obtain ⟨scb, hscb, rfl⟩ := Option.map_eq_some_iff.mp hscb'
    have hcovered := h.covered scb hscb
    refine ⟨scb, hscb, ?_⟩
    simp only [hkept.countSize]
    rw [BitVec.toNat_sub_of_le (BitVec.le_def.mpr (by omega))]
  refine ⟨hlayout, hlimit.trans h.limit_eq, ?_, fun scb' hscb' => ?_, fun scb' hscb' => ?_,
    fun size hsome => ?_⟩
  · intro hnone
    rw [hret.scb, Option.map_eq_none_iff] at hnone
    simp [h.static hnone] at hcalls
  · obtain ⟨scb, hscb, hsub⟩ := hback scb' hscb'
    have hcovered := h.covered scb hscb
    simp only
    omega
  · obtain ⟨scb, hscb, hsub⟩ := hback scb' hscb'
    have hcounted := h.counted scb hscb
    omega
  · have hbounded := h.bounded size hsome
    simp only
    omega

theorem Limited.step {e : Event} (h : Limited P prog limit total s) (hunwind : cfg.unwind = true)
    (hok : NotExempt prog s e) (hmax : total + requestSize cfg prog s e < 2 ^ 32)
    (hstep : s.step P cfg prog e = some s') :
    Limited P prog limit (total + requestSize cfg prog s e) s' := by
  have hfits : Fits cfg prog s e := by
    cases e with
    | moreStack reason =>
      simp only [requestSize] at hmax
      simp only [Fits, SizeFits]
      omega
    | heap call => trivial
    | move sp => trivial
    | drops nestedDropCnt unwindPending => trivial
    | unwinding b => trivial
    | lessStack => trivial
  have hlayout := h.layout.step hfits hstep
  have hlimit := (Stack.step_scb hstep).1
  cases e with
  | heap call =>
    simp only [Stack.step] at hstep
    split at hstep
    · obtain ⟨heap, -, rfl⟩ := Option.map_eq_some_iff.mp hstep
      exact h.congr hlayout rfl rfl rfl
    · cases hstep
  | move sp =>
    simp only [Stack.step] at hstep
    split at hstep
    · obtain rfl := Option.some.inj hstep
      exact h.congr hlayout rfl rfl rfl
    · cases hstep
  | drops nestedDropCnt unwindPending =>
    obtain rfl := Option.some.inj hstep
    exact h.congr hlayout rfl rfl rfl
  | unwinding b =>
    obtain rfl := Option.some.inj hstep
    exact h.congr hlayout rfl rfl rfl
  | moreStack reason =>
    obtain ⟨o, hmore, rfl⟩ := Option.map_eq_some_iff.mp hstep
    have hframe : (s.machine.frameSize prog).toNat ≤ requestSize cfg prog s (.moreStack reason) := by
      simp only [requestSize]
      omega
    obtain ⟨m, hprep, ⟨m', rfl, halloc⟩ | rfl⟩ := moreStack_cases hmore
    · have hunder : s.machine.limitExceeded prog = false := by
        rw [← Bool.not_eq_true]
        intro hover
        rcases moreStack_decides hunwind hmore with ⟨-, _, heq, -⟩ | ⟨hpends, -⟩ | ⟨hnot, -⟩
        · cases heq
        · exact (hok hover).not_pends hpends
        · exact hnot (hok hover)
      obtain ⟨heap, ptr, -, -, -, rfl⟩ := allocStacklet_cases halloc
      exact h.extended hunder hframe hmax hprep rfl hlimit rfl hlayout
    · exact h.refused hframe hmax hprep rfl hlimit rfl hlayout
  | lessStack =>
    simp only [Stack.step] at hstep
    split at hstep
    · cases hstep
    · rename_i c rest hcalls
      obtain ⟨m, hless, rfl⟩ := Option.map_eq_some_iff.mp hstep
      exact h.returned hcalls hless hlimit hlayout

/-- In every state of every run, `more_stack` diverts a request if and only if it has to be
refused, and it sets `unwind_pending` for a drop handler that is over the limit, and for nothing
else. While no request is granted over the limit and what is requested in total stays below
`2 ^ 32`, the stacklets of the task count for no more than its limit, and no drop handler is
diverted. -/
theorem exec_limited {s₀ : Stack n} {events : List Event} (hdynamic : cfg.allowDynamicStack = true)
    (hunwind : cfg.unwind = true) (hn : 0 < n) (hstart : Start P s₀)
    (hfresh : ∀ scb, s₀.machine.scb = some scb → scb = .default n)
    (hrun : Run.exec (Stack.step P cfg prog) s₀ events = some s) :
    (∀ reason,
      ((∃ m, moreStack P cfg prog reason s.machine = some (.diverted m)) ↔
        s.machine.Refuses prog reason) ∧
      ∀ o, moreStack P cfg prog reason s.machine = some o →
        (s.machine.Pends prog reason → ∃ m, o = .extended m ∧ m.ctxt.tls.unwindPending = 1) ∧
        (¬ s.machine.Pends prog reason →
          o.machine.ctxt.tls.unwindPending = s.machine.ctxt.tls.unwindPending)) ∧
      (Run.Allowed (Stack.step P cfg prog) (NotExempt prog) s₀ events →
        Run.cost (Stack.step P cfg prog) (requestSize cfg prog) s₀ events < 2 ^ 32 →
        (∀ size, s₀.machine.stackLimit = some size →
          (s.calls.map fun c => (word s.machine.mem (c.stacklet.1 + 12)).toNat).sum ≤ size) ∧
        ∀ reason m, moreStack P cfg prog reason s.machine = some (.diverted m) →
          reason ≠ .drop ∧ s.machine.ctxt.tls.nestedDropCnt = 0) := by
  have hindex : IndexOk s := by
    refine Run.exec_inv IndexOk (fun h hstep => h.step hstep) (fun scb hscb => ?_) hrun
    obtain rfl := hfresh scb hscb
    exact hn
  have hdiverts : ∀ reason, (∃ m, moreStack P cfg prog reason s.machine = some (.diverted m)) ↔
      s.machine.Refuses prog reason := fun reason =>
    ⟨fun ⟨m, hmore⟩ => (moreStack_diverted_cases hmore).1,
      fun hrefuses => hrefuses.diverted hdynamic hunwind hindex⟩
  refine ⟨fun reason => ⟨hdiverts reason, fun o hmore => ?_⟩, fun hok hmax => ⟨fun size hsize => ?_,
    fun reason m hmore => ?_⟩⟩
  · rcases moreStack_decides hunwind hmore with ⟨hrefuses, m, rfl, hkeep⟩ | ⟨hpends, m, rfl, hset⟩ |
      ⟨-, hnot, m, rfl, hkeep⟩
    · exact ⟨fun hpends => absurd hpends hrefuses.not_pends, fun _ => hkeep⟩
    · exact ⟨fun _ => ⟨m, rfl, hset⟩, fun hnot => absurd hpends hnot⟩
    · exact ⟨fun hpends => absurd hpends hnot, fun _ => hkeep⟩
  · have hlimited : Limited P prog (some size) (0 + Run.cost (Stack.step P cfg prog) (requestSize cfg prog)
        s₀ events) s := by
      refine Run.exec_inv_of_cost (Limited P prog (some size))
        (fun h hok hmax hstep => h.step hunwind hok hmax hstep) ?_ hok (by omega) hrun
      refine ⟨hstart.layout, hsize, fun _ => hstart.calls, fun scb hscb => ?_, fun scb hscb => ?_,
        fun _ _ => ?_⟩
      · rw [hstart.calls]
        exact Nat.zero_le _
      · obtain rfl := hfresh scb hscb
        exact Nat.le_refl 0
      · rw [hstart.calls]
        exact Nat.zero_le _
    have hheld : (s.calls.map fun c => (word s.machine.mem (c.stacklet.1 + 12)).toNat).sum =
        heldSize prog s.calls := by
      rw [heldSize, List.map_congr_left fun c hc => by rw [(hlimited.layout.kept c hc).countSize]]
    rw [hheld]
    exact hlimited.bounded size rfl
  · obtain ⟨-, rfl, -, hdrops⟩ := (hdiverts reason).mp ⟨m, hmore⟩
    exact ⟨by simp, hdrops⟩

/-- The task with the given limit, on its initial stacklet. -/
def limitedStack (limit : Nat) (client : Client) : Stack 1 :=
  { boardTask (.default 1) client with machine := limitedTask limit client }

theorem limitedStack_start (limit : Nat) : ∃ client, boardHeap = some client ∧
    Start board (limitedStack limit client) := by
  obtain ⟨client, hheap, hstart⟩ := boardHeap_start
  have h := hstart (.default 1)
  exact ⟨client, hheap, h.heap, h.calls, h.live, h.bound, h.large, h.sp⟩

/-- A task with a limit of 12 bytes calls a function with a frame of 8 bytes. -/
theorem exec_limited_board : ∃ s₀ s : Stack 1, s₀.machine.stackLimit = some 12 ∧
    Run.exec (Stack.step board boardConfig smallFrames) s₀ [.moreStack .normal] = some s ∧
      s.calls.length = 1 ∧
      (s.calls.map fun c => (word s.machine.mem (c.stacklet.1 + 12)).toNat).sum ≤ 12 := by
  obtain ⟨client, hheap, hstart⟩ := limitedStack_start 12
  have hvalues : (boardHeap.bind fun c => (Run.exec (Stack.step board boardConfig smallFrames)
      (limitedStack 12 c) [.moreStack .normal]).map fun s => (s.calls.length,
        (limitedStack 12 c).machine.limitExceeded smallFrames,
        Run.cost (Stack.step board boardConfig smallFrames) (requestSize boardConfig smallFrames)
          (limitedStack 12 c) [.moreStack .normal])) = some (1, false, 144) := by decide +kernel
  simp only [hheap, Option.bind_some, Option.map_eq_some_iff, Prod.mk.injEq] at hvalues
  obtain ⟨s, hrun, hcalls, hunder, hcost⟩ := hvalues
  have hok : Run.Allowed (Stack.step board boardConfig smallFrames) (NotExempt smallFrames)
      (limitedStack 12 client) [.moreStack .normal] :=
    ⟨fun hover => absurd hover (by simp [hunder]), fun _ _ => trivial⟩
  have hbound := (exec_limited rfl rfl (by decide) hstart (fun scb hscb => (Option.some.inj hscb).symm)
    hrun).2 hok (by rw [hcost]; decide)
  exact ⟨_, s, rfl, hrun, hcalls, hbound.1 12 rfl⟩

/-- A drop handler of a task that is over its limit panics. The unwinder gets its stacklet, and
`unwind_pending` stays as it was. -/
theorem moreStack_unwind_in_drop : ∃ (s₀ s : Stack 1) (m : Machine 1), Start board s₀ ∧
    s₀.machine.scb = some (.default 1) ∧ s₀.machine.stackLimit = some 4 ∧
      Run.exec (Stack.step board boardConfig smallFrames) s₀ [.drops 1 0] = some s ∧
      s.machine.limitExceeded smallFrames = true ∧ s.machine.unwinding = false ∧
      0 < s.machine.ctxt.tls.nestedDropCnt.toNat ∧
      moreStack board boardConfig smallFrames .unwind s.machine = some (.extended m) ∧
      s.machine.ctxt.tls.unwindPending = 0 ∧ m.ctxt.tls.unwindPending = 0 := by
  obtain ⟨client, hheap, hstart⟩ := limitedStack_start 4
  have hvalues : (boardHeap.bind fun c => (Run.exec (Stack.step board boardConfig smallFrames)
      (limitedStack 4 c) [.drops 1 0]).bind fun s =>
        (moreStack board boardConfig smallFrames .unwind s.machine).bind fun
          | .extended m => some (s.machine.limitExceeded smallFrames, s.machine.unwinding,
              s.machine.ctxt.tls.nestedDropCnt, s.machine.ctxt.tls.unwindPending,
              m.ctxt.tls.unwindPending)
          | .diverted _ => none) = some (true, false, 1, 0, 0) := by decide +kernel
  simp only [hheap, Option.bind_some, Option.bind_eq_some_iff] at hvalues
  obtain ⟨s, hrun, o, hmore, heq⟩ := hvalues
  cases o with
  | diverted m => cases heq
  | extended m =>
    simp only [Option.some.injEq, Prod.mk.injEq] at heq
    obtain ⟨hover, hnot, hdrops, hpending, hpending'⟩ := heq
    exact ⟨_, s, m, hstart, rfl, rfl, hrun, hover, hnot, by rw [hdrops]; decide, hmore, hpending,
      hpending'⟩

end Hopter.Task
