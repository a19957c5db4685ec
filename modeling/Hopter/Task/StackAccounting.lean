-- SUMMARY: A refused stack extension: what it leaves behind in the books of the task.
import Hopter.Task.StackSafety

/-!
# Stack accounting

`cumulated_size` and `call_chain_signature` describe the stacklets that a task has.
`more_stack` updates both before it knows whether there will be a stacklet, and it does
not take the updates back when it diverts the call to the unwinder.
-/

namespace Hopter.Task

open Allocator

variable {n : Nat} {P : Platform} {cfg : Config} {prog : Reg → BitVec 16} {reason : MoreStackReason}
  {s m : Machine n} {st : Nat × Nat}

-- ---------------------------------------------------------------------------
-- Diverted calls
-- ---------------------------------------------------------------------------

/-- The task runs on the stacklet `st`, where the hardware has pushed a trap frame. -/
structure Machine.RunsOn (s : Machine n) (st : Nat × Nat) : Prop where
  bound : s.ctxt.tls.stkletBound = stkletPtrToBound st.1
  sp : OnStacklet st s.ctxt.sp
  fits : st.1 + st.2 < 2 ^ 32

theorem Layout.runsOn {s : Stack n} (h : Layout P prog s) :
    s.machine.RunsOn (currentStacklet s.base s.calls) :=
  ⟨h.bound, h.sp, h.end_lt (h.live _ (currentStacklet_mem s.base s.calls))⟩

/-- The call is refused: it would take the task over its limit, and neither the unwinder nor
a drop handler needs the stack. -/
def Machine.Refuses (prog : Reg → BitVec 16) (reason : MoreStackReason) (s : Machine n) : Prop :=
  s.limitExceeded prog = true ∧ reason = .normal ∧ s.unwinding = false ∧
    s.ctxt.tls.nestedDropCnt = 0

theorem handleLimitExceed_abort {unwinding : Bool} {tls : TaskLocalStorage} {pending : Reg}
    (h : handleLimitExceed cfg reason unwinding tls = some (pending, true)) :
    pending = tls.unwindPending ∧ reason = .normal ∧ unwinding = false ∧ tls.nestedDropCnt = 0 := by
  unfold handleLimitExceed at h
  split at h
  · cases h
  split at h
  · simp at h
  · rename_i hunwind
    split at h
    · simp at h
    · rename_i hdrop
      simp only [Option.some.injEq, Prod.mk.injEq, and_true] at h
      rw [not_or, Bool.not_eq_true] at hunwind
      rw [not_or, not_lt, Nat.le_zero] at hdrop
      refine ⟨h.symm, ?_, hunwind.2, BitVec.eq_of_toNat_eq hdrop.2⟩
      cases reason with
      | normal => rfl
      | drop => exact absurd rfl hdrop.1
      | unwind => exact absurd rfl hunwind.1

/-- Counting a request changes neither the limit nor whether the task is unwinding. -/
theorem countStack_kept {size frame : Reg} {exceeded : Bool}
    (h : countStack cfg size s = some (frame, m, exceeded)) :
    m.unwinding = s.unwinding ∧ m.stackLimit = s.stackLimit := by
  simp only [countStack] at h
  split at h
  · simp only [Option.some.injEq, Prod.mk.injEq] at h
    obtain ⟨-, rfl, -⟩ := h
    exact ⟨rfl, rfl⟩
  · simp only [Option.map_eq_some_iff, Prod.exists, Prod.mk.injEq] at h
    obtain ⟨-, -, -, -, -, rfl, -⟩ := h
    exact ⟨rfl, rfl⟩

/-- What `more_stack` does when it diverts the call. -/
theorem moreStack_diverted_cases (h : moreStack P cfg prog reason s = some (.diverted m)) :
    s.Refuses prog reason ∧ ∃ s₁, Prepared cfg prog s s₁ ∧ s₁.ctxt = s.ctxt ∧
      m = s₁.setMem (setWord s₁.mem (s.ctxt.sp.toNat + 24) cfg.divertedUnwind) := by
  simp only [moreStack] at h
  split at h
  · cases h
  simp only [Option.bind_eq_some_iff, Prod.exists] at h
  obtain ⟨frame, s₁, exceeded, hcount, h⟩ := h
  have hunwinding : s₁.unwinding = s.unwinding := (countStack_kept hcount).1
  obtain ⟨rfl, rfl, hctxt, hprep⟩ := countStack_cases hcount
  split at h
  · simp at h
  rename_i hexceeded
  simp only [Option.bind_eq_some_iff, Prod.exists] at h
  obtain ⟨pending, abort, hhandle, h⟩ := h
  split at h
  · rename_i habort
    subst habort
    obtain ⟨hpending, hreason, hnot, hdrops⟩ := handleLimitExceed_abort hhandle
    rw [hctxt] at hdrops hpending
    refine ⟨⟨by simpa using hexceeded, hreason, hunwinding ▸ hnot, hdrops⟩, s₁, hprep, hctxt, ?_⟩
    simp only [Option.some.injEq, Outcome.diverted.injEq] at h
    rw [← h, hpending, hctxt]
    simp [Machine.setMem, Machine.mem, ← hctxt]
  · simp at h

/-- The books of the task, its context, and its stacklets are as they were before the call,
and so is the trap frame, apart from the program counter. -/
structure Unchanged (cfg : Config) (s m : Machine n) : Prop where
  live : m.heap.live = s.heap.live
  signature : m.scb.map StackCtrlBlock.callChainSignature = s.scb.map StackCtrlBlock.callChainSignature
  cumulated : m.scb.map StackCtrlBlock.cumulatedSize = s.scb.map StackCtrlBlock.cumulatedSize
  ctxt : m.ctxt = s.ctxt
  active : m.activeStackletCount = s.activeStackletCount
  frame : m.tf = { s.tf with pc := cfg.divertedUnwind }

/-- The trap frame after the call is diverted. -/
theorem load_setPc {m : Mem} {a : Nat} {v : Reg} :
    TrapFrame.load (setWord m (a + 24) v) a = { TrapFrame.load m a with pc := v } := by
  have hother : ∀ b, b + 4 ≤ a + 24 ∨ a + 28 ≤ b → word (setWord m (a + 24) v) b = word m b :=
    fun b hb => word_setWord_disjoint (by omega)
  simp only [TrapFrame.load, TrapFrame.mk.injEq, word_setWord_same, true_and]
  exact ⟨hother _ (by omega), hother _ (by omega), hother _ (by omega), hother _ (by omega),
    hother _ (by omega), hother _ (by omega), hother _ (by omega),
    funext fun i => hother _ (by omega), hother _ (by omega), hother _ (by omega)⟩

/-- The trap frame of the call does not overlap the metadata of the stacklet. -/
theorem Prepared.tf_eq {s₁ : Machine n} (h : Prepared cfg prog s s₁) (hs : s.RunsOn st) :
    TrapFrame.load s₁.mem s.ctxt.sp.toNat = s.tf := by
  obtain ⟨mem, hheap, hout⟩ := h.heap
  have hmem : s₁.mem = mem := by simp [Machine.mem, hheap]
  obtain ⟨hlo, hhi⟩ := hs.sp
  have hfits := hs.fits
  simp only [metaSize, trapFrameSize] at hlo hhi
  rw [hmem]
  refine TrapFrame.load_congr fun y hy _ => hout y ?_
  rw [hs.bound, boundToStkletMeta_stkletPtrToBound (by omega)]
  simp only [Outside]
  omega

/-- A diverted call is a refused one, and it changes nothing if and only if the task has no
control block, or the frame size is zero after hot-split alleviation and the return address
leaves the signature as it is. -/
theorem moreStack_unchanged (hs : s.RunsOn st) (h : moreStack P cfg prog reason s = some (.diverted m)) :
    s.Refuses prog reason ∧
      (Unchanged cfg s m ↔ ∀ scb, s.scb = some scb →
        s.frameSize prog = 0 ∧ extendSignature scb.callChainSignature s.tf.lr = scb.callChainSignature) := by
  obtain ⟨hrefuses, s₁, hprep, hctxt, rfl⟩ := moreStack_diverted_cases h
  obtain ⟨hsig, hsize⟩ := hprep.counters
  refine ⟨hrefuses, fun hsame scb hscb => ?_, fun hzero => ?_⟩
  · -- The updates that are not taken back show.
    have hsig' := hsig.symm.trans hsame.signature
    have hsize' := hsize.symm.trans hsame.cumulated
    simp only [hscb, Option.map_some, Option.some.injEq] at hsig' hsize'
    exact ⟨by simpa using hsize', hsig'⟩
  · have hscb : s.scb.map (fun scb => extendSignature scb.callChainSignature s.tf.lr) =
          s.scb.map StackCtrlBlock.callChainSignature ∧
        s.scb.map (fun scb => scb.cumulatedSize + s.frameSize prog) =
          s.scb.map StackCtrlBlock.cumulatedSize := by
      cases hcase : s.scb with
      | none => exact ⟨rfl, rfl⟩
      | some scb =>
        obtain ⟨hframe, hkeep⟩ := hzero scb hcase
        simp [hframe, hkeep]
    refine ⟨hprep.live, hsig.trans hscb.1, hsize.trans hscb.2, hctxt, hprep.active, ?_⟩
    have htf : TrapFrame.load (setWord s₁.mem (s.ctxt.sp.toNat + 24) cfg.divertedUnwind) s.ctxt.sp.toNat =
        { s.tf with pc := cfg.divertedUnwind } := by
      rw [load_setPc, hprep.tf_eq hs]
    rw [← htf, ← hctxt]
    rfl

/-- The first allocation of the board holds a task with the given limit. -/
def limitedTask (limit : Nat) (client : Client) : Machine 1 :=
  { (boardTask (.default 1) client).machine with stackLimit := some limit }

/-- A task without a control block. -/
def plainTask (client : Client) : Machine 1 :=
  { (boardTask (.default 1) client).machine with scb := none }

theorem moreStack_unchanged_board : ∃ (s m : Machine 1), s.scb = none ∧
    moreStack board boardConfig smallFrames .normal s = some (.diverted m) ∧
      Unchanged boardConfig s m := by
  obtain ⟨client, hheap, hstart⟩ := boardHeap_start
  have hlayout : Layout board smallFrames _ := (hstart (.default 1)).layout
  have hon := hlayout.runsOn
  have hruns : (plainTask client).RunsOn (boardTask (.default 1) client).base :=
    ⟨hon.bound, hon.sp, hon.fits⟩
  obtain ⟨m, hmore⟩ : ∃ m, moreStack board boardConfig smallFrames .normal (plainTask client) =
      some (.diverted m) := ⟨_, rfl⟩
  refine ⟨_, m, rfl, hmore, (moreStack_unchanged hruns hmore).2.mpr fun scb hscb => ?_⟩
  cases hscb

/-- A task with a limit of four bytes calls a function with a frame of eight: the call is
refused, and the task is charged for the frame. -/
theorem moreStack_refused_charges : ∃ (s : Machine 1) (m : Machine 1) (st : Nat × Nat),
    s.RunsOn st ∧ moreStack board boardConfig smallFrames .normal s = some (.diverted m) ∧
      m.heap.live = s.heap.live ∧ s.scb.map StackCtrlBlock.cumulatedSize = some 0 ∧
      m.scb.map StackCtrlBlock.cumulatedSize = some 8 ∧
      s.scb.map StackCtrlBlock.callChainSignature = some 0 ∧
      m.scb.map StackCtrlBlock.callChainSignature = some 0x08000C01 ∧
      ¬ Unchanged boardConfig s m := by
  obtain ⟨client, hheap, hstart⟩ := boardHeap_start
  have hlayout : Layout board smallFrames _ := (hstart (.default 1)).layout
  have hon := hlayout.runsOn
  have hruns : (limitedTask 4 client).RunsOn (boardTask (.default 1) client).base :=
    ⟨hon.bound, hon.sp, hon.fits⟩
  have hmore : (boardHeap.bind fun c =>
      (moreStack board boardConfig smallFrames .normal (limitedTask 4 c)).bind fun
        | .extended _ => none
        | .diverted m => m.scb.map fun scb => (scb.cumulatedSize, scb.callChainSignature)) =
      some (8, 0x08000C01) := by decide +kernel
  simp only [hheap, Option.bind_some, Option.bind_eq_some_iff] at hmore
  obtain ⟨o, hmore, hscb⟩ := hmore
  cases o with
  | extended m => cases hscb
  | diverted m =>
    obtain ⟨scb, hsome, heq⟩ := Option.map_eq_some_iff.mp hscb
    simp only [Prod.mk.injEq] at heq
    obtain ⟨-, s₁, hprep, -, hm⟩ := moreStack_diverted_cases hmore
    refine ⟨_, m, _, hruns, hmore, by rw [hm]; exact hprep.live, rfl, by simp [hsome, heq.1], rfl,
      by simp [hsome, heq.2], fun hsame => ?_⟩
    have hcum := hsame.cumulated
    rw [hsome, Option.map_some, heq.1] at hcum
    exact absurd hcum (by simp [limitedTask, boardTask, StackCtrlBlock.default])

end Hopter.Task
