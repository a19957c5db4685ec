-- SUMMARY: The initial stack of a task: for which sizes it is aligned.
import Hopter.Interrupt.ContextSwitch
import Hopter.Unwind.Restart

/-!
# The initial stack

`parse_stack_config` in `src/task/builder.rs`, `alloc_initial_stacklet` in
`src/task/segmented_stack.rs`, and the part of `initialize_common` in `src/task/task_struct.rs` that
makes the stack and the context of a task, for both architectures. A task is started by an exception
return, which pops a trap frame that is written to the bottom of the initial stacklet.
-/

namespace Hopter.Task

open Interrupt (TaskCtxt exReturn storeWords word_storeWords)
open Unwind (StackConfig)

-- ---------------------------------------------------------------------------
-- The configuration
-- ---------------------------------------------------------------------------

inductive TaskBuildError where
  | noStack
  | noMoreTask
  | noEntry
  | priorityNotAllowed
  deriving DecidableEq

/-- The fields of a task builder for the stack. -/
structure StackSettings where
  stackLimit : Option Reg
  stackInitSize : Option Reg
  stackIsDynamic : Bool

/-- `NonZeroUsize::new`. -/
def nonZeroUsize (n : Reg) : Option ℕ+ := if h : 0 < n.toNat then some ⟨n.toNat, h⟩ else none

/-- `parse_stack_config`. -/
def parseStackConfig (s : StackSettings) : Except TaskBuildError StackConfig :=
  if s.stackIsDynamic then .ok (.dynamic (s.stackInitSize.bind nonZeroUsize) (s.stackLimit.bind nonZeroUsize))
  else
    match s.stackLimit.bind nonZeroUsize with
    | some limit => .ok (.static limit)
    | none => .error .noStack

/-- What `initialize_common` requests. -/
def stackAllocSize : StackConfig → Nat
  | .static limit => limit
  | .dynamic initial _ => (initial.map PNat.val).getD 0

/-- The configured size. -/
def StackSettings.size (s : StackSettings) : Nat :=
  ((if s.stackIsDynamic then s.stackInitSize else s.stackLimit).map BitVec.toNat).getD 0

theorem nonZeroUsize_getD (n : Reg) : ((nonZeroUsize n).map PNat.val).getD 0 = n.toNat := by
  unfold nonZeroUsize
  split
  · rfl
  · simp
    omega

/-- A stack of the configured size is allocated. -/
theorem stackAllocSize_eq {s : StackSettings} {config : StackConfig} (h : parseStackConfig s = .ok config) :
    stackAllocSize config = s.size := by
  unfold parseStackConfig at h
  unfold StackSettings.size
  split at h
  · rename_i hdynamic
    cases h
    rw [if_pos hdynamic, stackAllocSize]
    cases s.stackInitSize with
    | none => rfl
    | some n => exact nonZeroUsize_getD n
  · rename_i hstatic
    rw [if_neg hstatic]
    split at h
    · rename_i limit hlimit
      cases h
      obtain ⟨n, hn, hlimit⟩ := Option.bind_eq_some_iff.mp hlimit
      have hsize := nonZeroUsize_getD n
      rw [hlimit] at hsize
      rw [hn]
      exact hsize
    · cases h

-- ---------------------------------------------------------------------------
-- The stacklet
-- ---------------------------------------------------------------------------

/-- `TRAP_FRAME_SIZE`: `TrapFrameGPRegs`, and `TrapFrameFPRegs` on armv7em. -/
def trapFrameSizeOf : Interrupt.Arch → Nat
  | .armv7em => 32 + 72
  | .armv6m => 32

/-- `R12_PRESERVE_SIZE` and `R0_R1_PRESERVE_SIZE`. -/
def preserveSize : Interrupt.Arch → Nat
  | .armv7em => 4
  | .armv6m => 8

/-- `OVERHEAD_SIZE`. -/
def overheadSizeOf (A : Interrupt.Arch) : Nat := metaSize + trapFramePadSize + trapFrameSizeOf A + preserveSize A

/-- `alloc_initial_stacklet`, with an allocator that returns `0` when it fails. `none` means that it does
not return. -/
def allocInitialStacklet (A : Interrupt.Arch) (alloc : Nat → Nat) (m : Mem) (freeSize : Nat) : Option (Mem × Nat × Nat) :=
  let totalSize := freeSize + overheadSizeOf A
  if 2 ^ 32 ≤ totalSize then none
  -- `Layout::from_size_align` for an alignment of 4
  else if 2 ^ 31 - 4 < totalSize then none
  else
    let stkletPtr := alloc totalSize
    if stkletPtr = 0 then none
    else if 2 ^ 31 - 1 < totalSize then none
    else some (storeWords m stkletPtr (List.replicate 4 0), stkletPtr, stkletPtr + totalSize)

/-- What the initial trap frame starts: the entry trampoline with the closure, and where it returns to. -/
structure Entry where
  entryTrampoline : Reg
  entryClosurePtr : Reg
  svcDestroyCurrentTask : Reg

/-- The writes of the initial trap frame. -/
def writeTrapFrame (A : Interrupt.Arch) (e : Entry) (m : Mem) (sp : Nat) : Mem :=
  let m := storeWords m sp (List.replicate (trapFrameSizeOf A / 4) 0)
  let m := setWord m (sp + 28) 0x01000000
  let m := setWord m (sp + 24) (e.entryTrampoline ||| 1)
  let m := setWord m (sp + 20) (e.svcDestroyCurrentTask ||| 1)
  setWord m sp e.entryClosurePtr

/-- `TaskCtxt::default`. -/
def defaultCtxt (A : Interrupt.Arch) : TaskCtxt A where
  tls := ⟨0, 0, 0⟩
  sp := 0
  gpRegs := ⟨0, 0, 0, 0, 0, 0, 0, 0⟩
  fpRegs _ := 0

/-- A task whose stack has been made. -/
structure InitialStack (A : Interrupt.Arch) where
  mem : Mem
  initialStklet : Nat
  ctxt : TaskCtxt A

/-- The part of `initialize_common` that makes the stack and the context. -/
def initializeStack (A : Interrupt.Arch) (alloc : Nat → Nat) (m : Mem) (e : Entry) (isIdle : Bool) (config : StackConfig) :
    Option (InitialStack A) :=
  (allocInitialStacklet A alloc m (stackAllocSize config)).map fun (m, stkletBegin, stkletEnd) =>
    let sp := if isIdle then stkletEnd else stkletEnd - trapFrameSizeOf A
    { mem := if isIdle then m else writeTrapFrame A e m sp
      initialStklet := stkletBegin
      ctxt :=
        { defaultCtxt A with
          sp := BitVec.ofNat 32 sp
          tls := { (defaultCtxt A).tls with stkletBound := BitVec.ofNat 32 (stkletBegin + overheadSizeOf A) } } }

-- ---------------------------------------------------------------------------
-- The exception return
-- ---------------------------------------------------------------------------

/-- What the hardware pops on exception return: the frame has floating point registers when bit 4 of the
pattern is clear. -/
def poppedSize (A : Interrupt.Arch) : Nat := if (exReturn A).2.getLsbD 4 then 32 else 104

/-- The stack pointer after the exception return. Bit 9 of `xpsr` says that the frame was padded. -/
def spAfterReturn (A : Interrupt.Arch) (m : Mem) (sp : Reg) : Reg :=
  sp + BitVec.ofNat 32 (poppedSize A) ||| if (word m (sp.toNat + 28)).getLsbD 9 then 4 else 0

/-- The initial stack of a task can be used: the trap frame is in the stacklet and above the metadata, the
stack pointer is aligned before and after it is popped, and then the configured size is available. -/
structure InitialStack.Usable {A : Interrupt.Arch} (r : InitialStack A) (size : Nat) : Prop where
  aboveMeta : r.initialStklet + metaSize ≤ r.ctxt.sp.toNat
  inside : r.ctxt.sp.toNat + trapFrameSizeOf A ≤ r.initialStklet + (size + overheadSizeOf A)
  aligned : r.ctxt.sp.toNat % 8 = 0
  alignedAfter : (spAfterReturn A r.mem r.ctxt.sp).toNat % 8 = 0
  available : (spAfterReturn A r.mem r.ctxt.sp - r.ctxt.tls.stkletBound).toNat = size

section Usable

variable {A : Interrupt.Arch} {alloc : Nat → Nat} {m : Mem} {e : Entry} {config : StackConfig} {r : InitialStack A}

/-- The hardware pops the frame that `initialize_common` has written. -/
theorem poppedSize_eq (A : Interrupt.Arch) : poppedSize A = trapFrameSizeOf A := by
  cases A <;> rfl

theorem word_xpsr_writeTrapFrame (A : Interrupt.Arch) (e : Entry) (m : Mem) (sp : Nat) :
    word (writeTrapFrame A e m sp) (sp + 28) = 0x01000000 := by
  unfold writeTrapFrame
  rw [word_setWord_disjoint (by omega), word_setWord_disjoint (by omega), word_setWord_disjoint (by omega),
    word_setWord_same]

/-- What `initialize_common` makes of a task that is not the idle task. -/
theorem initializeStack_eq (h : initializeStack A alloc m e false config = some r) :
    r.ctxt.sp = BitVec.ofNat 32 (r.initialStklet + (stackAllocSize config + overheadSizeOf A) - trapFrameSizeOf A) ∧
      r.ctxt.tls.stkletBound = BitVec.ofNat 32 (r.initialStklet + overheadSizeOf A) ∧
      word r.mem (r.initialStklet + (stackAllocSize config + overheadSizeOf A) - trapFrameSizeOf A + 28) = 0x01000000 := by
  obtain ⟨⟨m', stkletBegin, stkletEnd⟩, halloc, rfl⟩ := Option.map_eq_some_iff.mp h
  have hend : stkletEnd = stkletBegin + (stackAllocSize config + overheadSizeOf A) := by
    unfold allocInitialStacklet at halloc
    dsimp only at halloc
    split at halloc
    · cases halloc
    · split at halloc
      · cases halloc
      · split at halloc
        · cases halloc
        · split at halloc
          · cases halloc
          · cases halloc
            rfl
  subst hend
  exact ⟨rfl, rfl, word_xpsr_writeTrapFrame ..⟩

/-- The initial stack can be used exactly when its size is a multiple of 8 on armv7em, and 4 more than that on
armv6m. -/
theorem initialStack_usable_iff {s : StackSettings} (hparse : parseStackConfig s = .ok config)
    (hinit : initializeStack A alloc m e false config = some r) (halign : r.initialStklet % 8 = 0)
    (hfits : r.initialStklet + (s.size + overheadSizeOf A) ≤ 2 ^ 32) :
    r.Usable s.size ↔ s.size % 8 = match A with
      | .armv7em => 0
      | .armv6m => 4 := by
  obtain ⟨hsp, hbound, hxpsr⟩ := initializeStack_eq hinit
  rw [stackAllocSize_eq hparse] at hsp hxpsr
  have hoverhead : trapFrameSizeOf A + 24 ≤ overheadSizeOf A := by cases A <;> decide
  have htf : 32 ≤ trapFrameSizeOf A := by cases A <;> decide
  have hspNat : r.ctxt.sp.toNat = r.initialStklet + (s.size + overheadSizeOf A) - trapFrameSizeOf A := by
    rw [hsp, BitVec.toNat_ofNat, Nat.mod_eq_of_lt (by omega)]
  have hafter : (spAfterReturn A r.mem r.ctxt.sp) =
      BitVec.ofNat 32 (r.initialStklet + (s.size + overheadSizeOf A)) := by
    rw [spAfterReturn, hspNat, hxpsr, poppedSize_eq, hsp]
    have hbit : (0x01000000 : Reg).getLsbD 9 = false := rfl
    rw [hbit, if_neg Bool.false_ne_true, ← BitVec.ofNat_add, Nat.sub_add_cancel (by omega)]
    exact BitVec.or_zero
  have hdiff : (spAfterReturn A r.mem r.ctxt.sp - r.ctxt.tls.stkletBound).toNat = s.size := by
    rw [hafter, hbound, show r.initialStklet + (s.size + overheadSizeOf A) =
      s.size + (r.initialStklet + overheadSizeOf A) by omega, BitVec.ofNat_add, BitVec.add_sub_cancel,
      BitVec.toNat_ofNat, Nat.mod_eq_of_lt (by omega)]
  have hafterNat : (spAfterReturn A r.mem r.ctxt.sp).toNat % 8 =
      (r.initialStklet + (s.size + overheadSizeOf A)) % 8 := by
    rw [hafter, BitVec.toNat_ofNat]
    omega
  constructor
  · intro h
    have haligned := h.aligned
    rw [hspNat] at haligned
    cases A <;> simp only [overheadSizeOf, trapFrameSizeOf, metaSize, trapFramePadSize, preserveSize] at haligned ⊢ <;>
      omega
  · intro h
    have hresidue : (s.size + overheadSizeOf A) % 8 = 0 := by
      cases A <;> simp only [overheadSizeOf, trapFrameSizeOf, metaSize, trapFramePadSize, preserveSize] at h ⊢ <;> omega
    have htf8 : trapFrameSizeOf A % 8 = 0 := by cases A <;> rfl
    have hmeta : metaSize = 16 := rfl
    refine ⟨?_, ?_, ?_, ?_, hdiff⟩
    · omega
    · omega
    · omega
    · omega

/-- A static stack of 1024 bytes on armv7em. -/
theorem initialStack_usable_static : ∃ config r,
    parseStackConfig ⟨some 1024, none, false⟩ = .ok config ∧
    initializeStack .armv7em (fun _ => 0x20010000) (fun _ => 0) ⟨0x8000, 0x20020000, 0x9000⟩ false config = some r ∧
    r.Usable 1024 :=
  by
  have hinit : initializeStack .armv7em (fun _ => 0x20010000) (fun _ => 0) ⟨0x8000, 0x20020000, 0x9000⟩ false
    (.static ⟨1024, by decide⟩) = some _ := rfl
  exact ⟨_, _, rfl, hinit, (initialStack_usable_iff (s := ⟨some 1024, none, false⟩) rfl hinit rfl (by decide)).mpr rfl⟩

/-- A static stack of the same size on armv6m: the stack pointer is not aligned. -/
theorem initialStack_misaligned : ∃ config r,
    parseStackConfig ⟨some 1024, none, false⟩ = .ok config ∧
    initializeStack .armv6m (fun _ => 0x20010000) (fun _ => 0) ⟨0x8000, 0x20020000, 0x9000⟩ false config = some r ∧
    r.ctxt.sp.toNat % 8 = 4 ∧ ¬ r.Usable 1024 :=
  ⟨_, _, rfl, rfl, rfl, fun h => absurd h.aligned (by decide)⟩

end Usable

end Hopter.Task
