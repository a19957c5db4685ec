-- SUMMARY: The segmented stack of a task: growing and shrinking it, and the cache against hot splits.
import Hopter.Allocator.Client

/-!
# Segmented stacks

`src/task/segmented_stack.rs`, for armv7em. A task runs on a chain of stacklets
from the heap. A function that does not fit in the current stacklet asks for a new
one (`more_stack`), and when it returns the stacklet is freed (`less_stack`). Both
are supervisor calls: the CPU has pushed a trap frame on the stacklet that the task
was using, and what the handler leaves in memory at the new stack pointer is what
the task goes on with. So a trap frame here is a view of the memory at a stack
pointer.

Arithmetic on `u32` and `usize` is that of a release build, where it wraps.
-/

namespace Hopter.Task

open Allocator

/-- A `u32`: a register, an address, or a size. -/
abbrev Reg := BitVec 32

/-- The word at an address. -/
def word (m : Mem) (a : Nat) : Reg := BitVec.ofNat 32 (m.load32 a)

def setWord (m : Mem) (a : Nat) (v : Reg) : Mem := m.store32 a v.toNat

/-- `copy_nonoverlapping`. -/
def copy (m : Mem) (src dst n : Nat) : Mem := fun x =>
  if dst ≤ x ∧ x < dst + n then m (src + (x - dst)) else m x

-- ---------------------------------------------------------------------------
-- Trap frames
-- ---------------------------------------------------------------------------

/-- The registers that the hardware saves and restores (`src/interrupt/trap_frame.rs`). -/
structure TrapFrame where
  r0 : Reg
  r1 : Reg
  r2 : Reg
  r3 : Reg
  r12 : Reg
  lr : Reg
  pc : Reg
  xpsr : Reg
  /-- `s0` to `s15`. -/
  s : Fin 16 → Reg
  fpcsr : Reg
  padding : Reg

def trapFrameSize : Nat := 104
def trapFramePadSize : Nat := 4

/-- The trap frame at an address. -/
def TrapFrame.load (m : Mem) (a : Nat) : TrapFrame where
  r0 := word m a
  r1 := word m (a + 4)
  r2 := word m (a + 8)
  r3 := word m (a + 12)
  r12 := word m (a + 16)
  lr := word m (a + 20)
  pc := word m (a + 24)
  xpsr := word m (a + 28)
  s i := word m (a + 32 + 4 * i)
  fpcsr := word m (a + 96)
  padding := word m (a + 100)

-- ---------------------------------------------------------------------------
-- Data
-- ---------------------------------------------------------------------------

/-- The configuration, and the addresses of two functions. -/
structure Config where
  allowDynamicStack : Bool
  /-- `HOT_SPLIT_DETECTION_THRESHOLD`. -/
  threshold : Nat
  /-- `STACKLET_ADDITION_ALLOC_SIZE`. -/
  additionAllocSize : Nat
  /-- The feature `unwind`. -/
  unwind : Bool
  svcLessStack : Reg
  divertedUnwind : Reg

inductive MoreStackReason where
  | normal
  | drop
  | unwind
  deriving DecidableEq

/-- The size of `StackletMeta`: the boundary and the stack pointer of the previous
stacklet, `extend_cnt`, and `count_size`, a word each. -/
def metaSize : Nat := 16

def r12PreserveSize : Nat := 4

/-- `OVERHEAD_SIZE`. -/
def overheadSize : Nat := metaSize + trapFramePadSize + trapFrameSize + r12PreserveSize

/-- `bound_to_stklet_meta`. -/
def boundToStkletMeta (bound : Reg) : Nat := (bound - BitVec.ofNat 32 overheadSize).toNat

/-- `stklet_ptr_to_bound`. -/
def stkletPtrToBound (ptr : Nat) : Reg := BitVec.ofNat 32 (ptr + overheadSize)

/-- The control block, with `n` for `HOT_SPLIT_PREVENTION_CACHE_SIZE`. -/
structure StackCtrlBlock (n : Nat) where
  callChainSignature : Reg
  hotSplitCauseSignatures : Fin n → Reg
  /-- What a request at each hot-split site is multiplied by. -/
  addSizes : Fin n → Reg
  roundRobinIdx : Nat
  cumulatedSize : Reg

def StackCtrlBlock.default (n : Nat) : StackCtrlBlock n := ⟨0, fun _ => 0, fun _ => 0, 0, 0⟩

structure TaskLocalStorage where
  stkletBound : Reg
  nestedDropCnt : Reg
  unwindPending : Reg

structure TaskSvcCtxt where
  sp : Reg
  tls : TaskLocalStorage

/-- What the two supervisor calls work on: the memory with the heap, the context of
the calling task, its task struct, and the two global counters. -/
structure Machine (n : Nat) where
  heap : Client
  ctxt : TaskSvcCtxt
  scb : Option (StackCtrlBlock n)
  /-- `get_stack_limit`. -/
  stackLimit : Option Nat
  /-- `is_unwinding`. -/
  unwinding : Bool
  stackExtendCount : Reg
  activeStackletCount : Reg

variable {n : Nat}

def Machine.mem (s : Machine n) : Mem := s.heap.heap.mem

def Machine.setMem (s : Machine n) (m : Mem) : Machine n :=
  { s with heap := { s.heap with heap := { s.heap.heap with mem := m } } }

/-- The trap frame of the supervisor call. -/
def Machine.tf (s : Machine n) : TrapFrame := .load s.mem s.ctxt.sp.toNat

-- ---------------------------------------------------------------------------
-- The hot-split cache
-- ---------------------------------------------------------------------------

/-- The first entry of the cache with the given signature. -/
def StackCtrlBlock.lookup (scb : StackCtrlBlock n) (signature : Reg) : Option (Fin n) :=
  (List.finRange n).find? fun i => scb.hotSplitCauseSignatures i = signature

/-- The signature of a call chain with one more call, which returns to `lr`. -/
def extendSignature (signature lr : Reg) : Reg := signature.rotateRight 1 ^^^ lr

def scaledFrameSize (scb : StackCtrlBlock n) (lr frameSize : Reg) : Reg :=
  match scb.lookup (extendSignature scb.callChainSignature lr) with
  | some i => frameSize * scb.addSizes i
  | none => frameSize

/-- Record a hot split whose cause has the given signature. -/
def StackCtrlBlock.record (scb : StackCtrlBlock n) (cause : Reg) : Option (StackCtrlBlock n) :=
  match scb.lookup cause with
  | some i => some { scb with addSizes := Function.update scb.addSizes i (scb.addSizes i + 1) }
  | none =>
    if h : scb.roundRobinIdx < n then some
      { scb with
        hotSplitCauseSignatures :=
          Function.update scb.hotSplitCauseSignatures ⟨scb.roundRobinIdx, h⟩ cause
        addSizes := Function.update scb.addSizes ⟨scb.roundRobinIdx, h⟩ 2
        roundRobinIdx := if (scb.roundRobinIdx + 1) % n = 0 then 0 else scb.roundRobinIdx + 1 }
    else none

/-- `svc_more_stack_anti_hot_split`: the frame size, the control block, and
`extend_cnt` after it. -/
def svcMoreStackAntiHotSplit (cfg : Config) (lr frameSize : Reg) (scb : StackCtrlBlock n)
    (extendCnt : Reg) : Option (Reg × StackCtrlBlock n × Reg) :=
  let prevSignature := scb.callChainSignature
  let frameSize := scaledFrameSize scb lr frameSize
  let scb := { scb with callChainSignature := extendSignature prevSignature lr }
  let extendCnt := extendCnt + 1
  if extendCnt ≠ BitVec.ofNat 32 cfg.threshold then some (frameSize, scb, extendCnt)
  else (scb.record prevSignature).map fun scb => (frameSize, scb, extendCnt)

/-- `svc_less_stack_anti_hot_split`. -/
def svcLessStackAntiHotSplit (lr : Reg) (scb : StackCtrlBlock n) : StackCtrlBlock n :=
  { scb with callChainSignature := (scb.callChainSignature ^^^ lr).rotateLeft 1 }

-- ---------------------------------------------------------------------------
-- Growing the stack
-- ---------------------------------------------------------------------------

/-- `get_stack_frame_size`. The program is read by half-words. -/
def getStackFrameSize (prog : Reg → BitVec 16) (tf : TrapFrame) : Reg :=
  (prog tf.pc).zeroExtend 32 * 4

/-- `get_stack_arg_size`. -/
def getStackArgSize (prog : Reg → BitVec 16) (tf : TrapFrame) : Reg :=
  (prog (tf.pc + 2)).zeroExtend 32 * 4

/-- `handle_limit_exceed`: the new `unwind_pending`, and whether the call is diverted
to the unwinder. -/
def handleLimitExceed (cfg : Config) (reason : MoreStackReason) (unwinding : Bool)
    (tls : TaskLocalStorage) : Option (Reg × Bool) :=
  if cfg.unwind = false then none
  else if reason = .unwind ∨ unwinding = true then some (tls.unwindPending, false)
  else if reason = .drop ∨ 0 < tls.nestedDropCnt.toNat then some (1, false)
  else some (tls.unwindPending, true)

/-- The part of `more_stack` that runs with the current task: the frame size after
hot-split alleviation, the machine, and whether the size limit is exceeded. -/
def countStack (cfg : Config) (frameSize : Reg) (s : Machine n) :
    Option (Reg × Machine n × Bool) :=
  match s.scb with
  | none => some (frameSize, s, true)
  | some scb =>
    let extendCntPtr := boundToStkletMeta s.ctxt.tls.stkletBound + 8
    (svcMoreStackAntiHotSplit cfg s.tf.lr frameSize scb (word s.mem extendCntPtr)).map
      fun (frameSize, scb, extendCnt) =>
        let updatedSize := scb.cumulatedSize + frameSize
        (frameSize,
          { s.setMem (setWord s.mem extendCntPtr extendCnt) with
            scb := some { scb with cumulatedSize := updatedSize } },
          match s.stackLimit with
          | some limit => updatedSize.toNat > (BitVec.ofNat 32 limit).toNat
          | none => false)

/-- The size of the chunk that holds a new stacklet. -/
def totalSize (cfg : Config) (frameSize argSize : Reg) : Reg :=
  frameSize + argSize + BitVec.ofNat 32 overheadSize + BitVec.ofNat 32 cfg.additionAllocSize

/-- The bit of `xpsr` that says that the trap frame has a padding. -/
def padBit : Reg := 1 <<< 9

/-- The memory when the new stacklet at `ptr` is set up. -/
def fillStacklet (cfg : Config) (m : Mem) (ctxt : TaskSvcCtxt) (ptr : Nat)
    (frameSize argSize : Reg) : Mem :=
  let tf := TrapFrame.load m ctxt.sp.toNat
  let m := setWord m ptr ctxt.tls.stkletBound
  let m := setWord m (ptr + 4) ctxt.sp
  let m := setWord m (ptr + 8) 0
  let m := setWord m (ptr + 12) frameSize
  let tfSize := if tf.xpsr &&& padBit ≠ 0 then trapFrameSize + trapFramePadSize
    else trapFrameSize
  let dstArgPtr := BitVec.ofNat 32 ptr + (totalSize cfg frameSize argSize - argSize)
  let m := copy m (ctxt.sp.toNat + tfSize) dstArgPtr.toNat argSize.toNat
  let newTfPtr := (dstArgPtr - BitVec.ofNat 32 trapFrameSize).toNat
  let m := copy m ctxt.sp.toNat newTfPtr trapFrameSize
  let m := setWord m (newTfPtr + 28) (tf.xpsr &&& ~~~padBit)
  let m := setWord m (newTfPtr + 24) (tf.pc + 4)
  setWord m (newTfPtr + 20) cfg.svcLessStack

/-- The stack pointer that the task gets on the new stacklet at `ptr`. -/
def newStackPointer (cfg : Config) (ptr : Nat) (frameSize argSize : Reg) : Reg :=
  BitVec.ofNat 32 ptr + (totalSize cfg frameSize argSize - argSize) - BitVec.ofNat 32 trapFrameSize

/-- The second half of `more_stack`: allocate the stacklet and switch to it. -/
def allocStacklet (P : Platform) (cfg : Config) (frameSize argSize : Reg) (s : Machine n) :
    Option (Machine n) :=
  let total := (totalSize cfg frameSize argSize).toNat
  -- `Layout::from_size_align(total_size, 4).unwrap_or_die()`
  if 2 ^ 31 - 4 < total then none
  else (mcuMalloc P s.heap.heap total).bind fun (heap, ptr) =>
    if ptr = 0 then none
    else some
      { s with
        heap :=
          ⟨{ heap with mem := fillStacklet cfg heap.mem s.ctxt ptr frameSize argSize },
            (ptr, total) :: s.heap.live⟩
        ctxt :=
          { sp := newStackPointer cfg ptr frameSize argSize
            tls := { s.ctxt.tls with stkletBound := stkletPtrToBound ptr } }
        activeStackletCount := s.activeStackletCount + 1 }

/-- What a supervisor call that returns has done. -/
inductive Outcome (n : Nat) where
  /-- The task goes on with its function on a new stacklet. -/
  | extended (s : Machine n)
  /-- The task goes on in `diverted_unwind`. -/
  | diverted (s : Machine n)

/-- `more_stack`. -/
def moreStack (P : Platform) (cfg : Config) (prog : Reg → BitVec 16) (reason : MoreStackReason)
    (s : Machine n) : Option (Outcome n) :=
  if cfg.allowDynamicStack = false then none
  else
    let frameSize := getStackFrameSize prog s.tf
    let argSize := getStackArgSize prog s.tf
    let s := { s with stackExtendCount := s.stackExtendCount + 1 }
    (countStack cfg frameSize s).bind fun (frameSize, s, exceeded) =>
      if exceeded = false then (allocStacklet P cfg frameSize argSize s).map .extended
      else (handleLimitExceed cfg reason s.unwinding s.ctxt.tls).bind fun (pending, abort) =>
        let s := { s with ctxt := { s.ctxt with tls := { s.ctxt.tls with unwindPending := pending } } }
        if abort = true then
          some (.diverted (s.setMem (setWord s.mem (s.ctxt.sp.toNat + 24) cfg.divertedUnwind)))
        else (allocStacklet P cfg frameSize argSize s).map .extended

-- ---------------------------------------------------------------------------
-- Shrinking the stack
-- ---------------------------------------------------------------------------

/-- The memory when the results are in the trap frame of the caller. -/
def copyResults (m : Mem) (tfPtr prevTfPtr : Nat) : Mem :=
  let m := setWord m prevTfPtr (word m tfPtr)
  let m := setWord m (prevTfPtr + 4) (word m (tfPtr + 4))
  let m := setWord m (prevTfPtr + 8) (word m (tfPtr + 8))
  let m := setWord m (prevTfPtr + 12) (word m (tfPtr + 12))
  setWord m (prevTfPtr + 24) (word m (prevTfPtr + 20))

/-- `less_stack`. -/
def lessStack (P : Platform) (cfg : Config) (s : Machine n) : Option (Machine n) :=
  if cfg.allowDynamicStack = false then none
  else
    let ptr := boundToStkletMeta s.ctxt.tls.stkletBound
    let prevSp := word s.mem (ptr + 4)
    let m := copyResults s.mem s.ctxt.sp.toNat prevSp.toNat
    let s := s.setMem m
    some
      { s with
        heap := ⟨mcuFree P s.heap.heap ptr, s.heap.live.filter fun a => a.1 ≠ ptr⟩
        ctxt := { sp := prevSp, tls := { s.ctxt.tls with stkletBound := word m ptr } }
        scb := s.scb.map fun scb =>
          let scb := svcLessStackAntiHotSplit (word m (prevSp.toNat + 20)) scb
          { scb with cumulatedSize := scb.cumulatedSize - word m (ptr + 12) }
        activeStackletCount := s.activeStackletCount - 1 }

-- ---------------------------------------------------------------------------
-- Words in memory
-- ---------------------------------------------------------------------------

/-- The address `x` is not in the range `r`, which is an address and a length. -/
def Outside (r : Nat × Nat) (x : Nat) : Prop := x < r.1 ∨ r.1 + r.2 ≤ x

instance (r : Nat × Nat) (x : Nat) : Decidable (Outside r x) := inferInstanceAs (Decidable (_ ∨ _))

section Memory

variable {m m' : Mem} {a b y : Nat} {v : Reg}

theorem setWord_outside (h : y < a ∨ a + 4 ≤ y) : setWord m a v y = m y := by
  rcases h with h | h
  · exact Mem.store32_of_lt h
  · exact Mem.store32_of_ge h

theorem copy_outside {src dst len : Nat} (h : y < dst ∨ dst + len ≤ y) :
    copy m src dst len y = m y := by
  have : ¬ (dst ≤ y ∧ y < dst + len) := by omega
  simp [copy, this]

theorem word_congr (h : m.AgreeOn m' a (a + 4)) : word m' a = word m a := by
  rw [word, word, Mem.load32_congr h]

@[simp] theorem word_setWord_same : word (setWord m a v) a = v := by
  rw [word, setWord, Mem.load32_store32_same v.isLt, BitVec.ofNat_toNat, BitVec.setWidth_eq]

theorem word_setWord_disjoint (h : a + 4 ≤ b ∨ b + 4 ≤ a) : word (setWord m b v) a = word m a := by
  rw [word, word, setWord, Mem.load32_store32_disjoint h]

theorem boundToStkletMeta_stkletPtrToBound {ptr : Nat} (h : ptr < 2 ^ 32) :
    boundToStkletMeta (stkletPtrToBound ptr) = ptr := by
  simp only [boundToStkletMeta, stkletPtrToBound, BitVec.toNat_sub, BitVec.toNat_ofNat, overheadSize,
    metaSize, trapFramePadSize, trapFrameSize, r12PreserveSize]
  omega

end Memory

-- ---------------------------------------------------------------------------
-- What `less_stack` does
-- ---------------------------------------------------------------------------

/-- `less_stack` undoes the signature of the call that it returns from. -/
theorem rotateLeft_extendSignature (signature lr : Reg) :
    (extendSignature signature lr ^^^ lr).rotateLeft 1 = signature := by
  rw [extendSignature, BitVec.xor_assoc, BitVec.xor_self, BitVec.xor_zero]
  apply BitVec.eq_of_getLsbD_eq
  intro i hi
  rw [BitVec.getLsbD_rotateLeft_of_le (by decide)]
  by_cases h0 : i < 1
  · obtain rfl : i = 0 := by omega
    simp
  · have hlt : i - 1 < 32 - 1 := by omega
    simp [h0, hi, hlt, show 1 + (i - 1) = i by omega]

section CopyResults

variable {m : Mem} {tfPtr prev : Nat}

theorem copyResults_outside {y : Nat} (hy : Outside (prev, 28) y) :
    copyResults m tfPtr prev y = m y := by
  simp only [Outside] at hy
  simp only [copyResults]
  rw [setWord_outside (by omega), setWord_outside (by omega), setWord_outside (by omega),
    setWord_outside (by omega), setWord_outside (by omega)]

/-- The trap frame of the caller gets the results of the callee, and the caller goes on
where the callee returns to. -/
theorem load_copyResults (h : tfPtr + 16 ≤ prev ∨ prev + 28 ≤ tfPtr) :
    TrapFrame.load (copyResults m tfPtr prev) prev =
      { TrapFrame.load m prev with
        r0 := word m tfPtr
        r1 := word m (tfPtr + 4)
        r2 := word m (tfPtr + 8)
        r3 := word m (tfPtr + 12)
        pc := word m (prev + 20) } := by
  have hfar : ∀ a, prev + 28 ≤ a → word (copyResults m tfPtr prev) a = word m a :=
    fun a ha => word_congr fun y hy _ => copyResults_outside (by simp only [Outside]; omega)
  simp only [TrapFrame.load, TrapFrame.mk.injEq]
  refine ⟨?_, ?_, ?_, ?_, ?_, ?_, ?_, hfar _ (by omega), funext fun i => hfar _ (by omega),
    hfar _ (by omega), hfar _ (by omega)⟩ <;> simp only [copyResults]
  · rw [word_setWord_disjoint (by omega), word_setWord_disjoint (by omega),
      word_setWord_disjoint (by omega), word_setWord_disjoint (by omega), word_setWord_same]
  · rw [word_setWord_disjoint (by omega), word_setWord_disjoint (by omega),
      word_setWord_disjoint (by omega), word_setWord_same, word_setWord_disjoint (by omega)]
  · rw [word_setWord_disjoint (by omega), word_setWord_disjoint (by omega), word_setWord_same,
      word_setWord_disjoint (by omega), word_setWord_disjoint (by omega)]
  · rw [word_setWord_disjoint (by omega), word_setWord_same, word_setWord_disjoint (by omega),
      word_setWord_disjoint (by omega), word_setWord_disjoint (by omega)]
  · rw [word_setWord_disjoint (by omega), word_setWord_disjoint (by omega),
      word_setWord_disjoint (by omega), word_setWord_disjoint (by omega),
      word_setWord_disjoint (by omega)]
  · rw [word_setWord_disjoint (by omega), word_setWord_disjoint (by omega),
      word_setWord_disjoint (by omega), word_setWord_disjoint (by omega),
      word_setWord_disjoint (by omega)]
  · rw [word_setWord_same, word_setWord_disjoint (by omega), word_setWord_disjoint (by omega),
      word_setWord_disjoint (by omega), word_setWord_disjoint (by omega)]

end CopyResults

theorem TrapFrame.load_congr {m m' : Mem} {a : Nat} (h : m.AgreeOn m' a (a + trapFrameSize)) :
    TrapFrame.load m' a = TrapFrame.load m a := by
  simp only [trapFrameSize] at h
  have hw : ∀ b, a ≤ b → b + 4 ≤ a + 104 → word m' b = word m b :=
    fun b hb hb' => word_congr (h.mono hb hb')
  simp only [TrapFrame.load, TrapFrame.mk.injEq]
  refine ⟨hw _ (by omega) (by omega), hw _ (by omega) (by omega), hw _ (by omega) (by omega),
    hw _ (by omega) (by omega), hw _ (by omega) (by omega), hw _ (by omega) (by omega),
    hw _ (by omega) (by omega), hw _ (by omega) (by omega), funext fun i => ?_,
    hw _ (by omega) (by omega), hw _ (by omega) (by omega)⟩
  have := i.isLt
  exact hw _ (by omega) (by omega)

-- ---------------------------------------------------------------------------
-- What `more_stack` does
-- ---------------------------------------------------------------------------

section MoreStack

variable {P : Platform} {cfg : Config} {prog : Reg → BitVec 16} {reason : MoreStackReason}
  {s s₁ s' : Machine n}

/-- The size of the stack frame that the new stacklet is for. -/
def Machine.frameSize (prog : Reg → BitVec 16) (s : Machine n) : Reg :=
  match s.scb with
  | some scb => scaledFrameSize scb s.tf.lr (getStackFrameSize prog s.tf)
  | none => getStackFrameSize prog s.tf

def Machine.argSize (prog : Reg → BitVec 16) (s : Machine n) : Reg := getStackArgSize prog s.tf

/-- `extend_cnt` of the current stacklet. -/
def Machine.extendCnt (s : Machine n) : Reg :=
  word s.mem (boundToStkletMeta s.ctxt.tls.stkletBound + 8)

/-- The request takes the task over its stack size limit. A task without a control block
may not extend its stack at all. -/
def Machine.limitExceeded (prog : Reg → BitVec 16) (s : Machine n) : Bool :=
  match s.scb with
  | none => true
  | some scb =>
    match s.stackLimit with
    | some limit => (scb.cumulatedSize + s.frameSize prog).toNat > (BitVec.ofNat 32 limit).toNat
    | none => false

/-- The machine `s₁` right before the allocation, after hot-split alleviation and the
accounting of the stack size. -/
structure Prepared (cfg : Config) (prog : Reg → BitVec 16) (s s₁ : Machine n) : Prop where
  live : s₁.heap.live = s.heap.live
  heap : ∃ m, s₁.heap.heap = { s.heap.heap with mem := m } ∧ ∀ y,
    Outside (boundToStkletMeta s.ctxt.tls.stkletBound + 8, 4) y → m y = s.mem y
  sp : s₁.ctxt.sp = s.ctxt.sp
  bound : s₁.ctxt.tls.stkletBound = s.ctxt.tls.stkletBound
  drops : s₁.ctxt.tls.nestedDropCnt = s.ctxt.tls.nestedDropCnt
  pending : s.limitExceeded prog = false → s₁.ctxt.tls.unwindPending = s.ctxt.tls.unwindPending
  scb : match s.scb with
    | none => s₁.scb = none
    | some scb => ∃ scb' extendCnt', svcMoreStackAntiHotSplit cfg s.tf.lr
        (getStackFrameSize prog s.tf) scb s.extendCnt = some (s.frameSize prog, scb', extendCnt') ∧
        s₁.scb = some { scb' with cumulatedSize := scb'.cumulatedSize + s.frameSize prog }
  active : s₁.activeStackletCount = s.activeStackletCount

theorem StackCtrlBlock.lookup_none {scb : StackCtrlBlock n} {signature : Reg}
    (h : scb.lookup signature = none) (i : Fin n) : scb.hotSplitCauseSignatures i ≠ signature := by
  simpa using List.find?_eq_none.mp h i (List.mem_finRange i)

/-- What recording a hot split does. -/
inductive Recorded (scb : StackCtrlBlock n) (cause : Reg) : StackCtrlBlock n → Prop
  | found {i} (hfound : scb.lookup cause = some i) :
    Recorded scb cause { scb with addSizes := Function.update scb.addSizes i (scb.addSizes i + 1) }
  | installed (hnone : scb.lookup cause = none) (hindex : scb.roundRobinIdx < n) :
    Recorded scb cause
      { scb with
        hotSplitCauseSignatures :=
          Function.update scb.hotSplitCauseSignatures ⟨scb.roundRobinIdx, hindex⟩ cause
        addSizes := Function.update scb.addSizes ⟨scb.roundRobinIdx, hindex⟩ 2
        roundRobinIdx := if (scb.roundRobinIdx + 1) % n = 0 then 0 else scb.roundRobinIdx + 1 }

theorem StackCtrlBlock.record_cases {scb scb' : StackCtrlBlock n} {cause : Reg}
    (h : scb.record cause = some scb') : Recorded scb cause scb' := by
  unfold StackCtrlBlock.record at h
  split at h
  · rename_i i hfound
    obtain rfl := Option.some.inj h
    exact .found hfound
  · rename_i hnone
    split at h
    · rename_i hindex
      obtain rfl := Option.some.inj h
      exact .installed hnone hindex
    · exact absurd h (by simp)

theorem StackCtrlBlock.record_eq {scb scb' : StackCtrlBlock n} {cause : Reg}
    (h : scb.record cause = some scb') :
    scb'.callChainSignature = scb.callChainSignature ∧ scb'.cumulatedSize = scb.cumulatedSize := by
  cases StackCtrlBlock.record_cases h with
  | found _ => exact ⟨rfl, rfl⟩
  | installed _ _ => exact ⟨rfl, rfl⟩

theorem svcMoreStackAntiHotSplit_eq {lr frameSize frameSize' extendCnt extendCnt' : Reg}
    {scb scb' : StackCtrlBlock n}
    (h : svcMoreStackAntiHotSplit cfg lr frameSize scb extendCnt =
      some (frameSize', scb', extendCnt')) :
    frameSize' = scaledFrameSize scb lr frameSize ∧
      scb'.callChainSignature = extendSignature scb.callChainSignature lr ∧
      scb'.cumulatedSize = scb.cumulatedSize := by
  simp only [svcMoreStackAntiHotSplit] at h
  split at h
  · simp only [Option.some.injEq, Prod.mk.injEq] at h
    obtain ⟨rfl, rfl, -⟩ := h
    exact ⟨rfl, rfl, rfl⟩
  · simp only [Option.map_eq_some_iff, Prod.mk.injEq] at h
    obtain ⟨scb'', hrecord, rfl, rfl, -⟩ := h
    exact ⟨rfl, StackCtrlBlock.record_eq hrecord⟩

theorem countStack_cases {frameSize count : Reg} {exceeded : Bool}
    (h : countStack cfg (getStackFrameSize prog s.tf) { s with stackExtendCount := count } =
      some (frameSize, s₁, exceeded)) :
    frameSize = s.frameSize prog ∧ exceeded = s.limitExceeded prog ∧
      s₁.ctxt = s.ctxt ∧ Prepared cfg prog s s₁ := by
  simp only [countStack] at h
  cases hscb : s.scb with
  | none =>
    simp only [hscb, Option.some.injEq, Prod.mk.injEq] at h
    obtain ⟨rfl, rfl, rfl⟩ := h
    refine ⟨by simp [Machine.frameSize, hscb], by simp [Machine.limitExceeded, hscb], rfl,
      ⟨rfl, ⟨s.mem, rfl, fun _ _ => rfl⟩, rfl, rfl, rfl, fun _ => rfl, by simp [hscb], rfl⟩⟩
  | some scb =>
    simp only [hscb, Option.map_eq_some_iff, Prod.exists, Prod.mk.injEq] at h
    obtain ⟨frame, scb', extendCnt, hsplit, rfl, rfl, rfl⟩ := h
    obtain ⟨hframe, -, hsize⟩ := svcMoreStackAntiHotSplit_eq hsplit
    have hframe' : frame = s.frameSize prog := by
      simp only [Machine.frameSize, hscb]
      exact hframe
    refine ⟨hframe', ?_, rfl, ⟨rfl, ⟨_, rfl, fun y hy => setWord_outside hy⟩, rfl, rfl, rfl,
      fun _ => rfl, ?_, rfl⟩⟩
    · simp only [Machine.limitExceeded, hscb, ← hframe', ← hsize]
    · simp only [hscb, ← hframe']
      exact ⟨scb', extendCnt, hsplit, rfl⟩

/-- Everything that `more_stack` can do. -/
theorem moreStack_cases {o : Outcome n} (h : moreStack P cfg prog reason s = some o) :
    ∃ s₁, Prepared cfg prog s s₁ ∧
      ((∃ s', o = .extended s' ∧
          allocStacklet P cfg (s.frameSize prog) (s.argSize prog) s₁ = some s') ∨
        o = .diverted (s₁.setMem (setWord s₁.mem (s₁.ctxt.sp.toNat + 24) cfg.divertedUnwind))) := by
  simp only [moreStack] at h
  split at h
  · exact absurd h (by simp)
  simp only [Option.bind_eq_some_iff, Prod.exists] at h
  obtain ⟨frame, s₁, exceeded, hcount, h⟩ := h
  obtain ⟨rfl, rfl, hctxt, hprep⟩ := countStack_cases hcount
  split at h
  · obtain ⟨s', halloc, rfl⟩ := Option.map_eq_some_iff.mp h
    exact ⟨s₁, hprep, Or.inl ⟨s', rfl, halloc⟩⟩
  · rename_i hexceeded
    simp only [Option.bind_eq_some_iff, Prod.exists] at h
    obtain ⟨pending, abort, -, h⟩ := h
    have hprep' : Prepared cfg prog s { s₁ with
        ctxt := { s₁.ctxt with tls := { s₁.ctxt.tls with unwindPending := pending } } } :=
      { hprep with pending := fun hno => absurd hno hexceeded }
    refine ⟨_, hprep', ?_⟩
    split at h
    · obtain rfl := Option.some.inj h
      exact Or.inr rfl
    · obtain ⟨s', halloc, rfl⟩ := Option.map_eq_some_iff.mp h
      exact Or.inl ⟨s', rfl, halloc⟩

theorem allocStacklet_cases {frameSize argSize : Reg}
    (h : allocStacklet P cfg frameSize argSize s = some s') :
    ∃ heap ptr, (totalSize cfg frameSize argSize).toNat ≤ 2 ^ 31 - 4 ∧
      mcuMalloc P s.heap.heap (totalSize cfg frameSize argSize).toNat = some (heap, ptr) ∧ ptr ≠ 0 ∧
      s' = { s with
        heap :=
          ⟨{ heap with mem := fillStacklet cfg heap.mem s.ctxt ptr frameSize argSize },
            (ptr, (totalSize cfg frameSize argSize).toNat) :: s.heap.live⟩
        ctxt :=
          { sp := newStackPointer cfg ptr frameSize argSize
            tls := { s.ctxt.tls with stkletBound := stkletPtrToBound ptr } }
        activeStackletCount := s.activeStackletCount + 1 } := by
  simp only [allocStacklet] at h
  split at h
  · exact absurd h (by simp)
  · rename_i hsize
    simp only [Option.bind_eq_some_iff, Prod.exists] at h
    obtain ⟨heap, ptr, hmalloc, h⟩ := h
    split at h
    · exact absurd h (by simp)
    · rename_i hptr
      exact ⟨heap, ptr, by omega, hmalloc, hptr, (Option.some.inj h).symm⟩

-- ---------------------------------------------------------------------------
-- The new stacklet
-- ---------------------------------------------------------------------------

/-- The size of the new stacklet does not wrap around. -/
def SizeFits (cfg : Config) (frameSize argSize : Reg) : Prop :=
  frameSize.toNat + argSize.toNat + overheadSize + cfg.additionAllocSize < 2 ^ 32

instance (cfg : Config) (frameSize argSize : Reg) : Decidable (SizeFits cfg frameSize argSize) :=
  inferInstanceAs (Decidable (_ < _))

variable {frameSize argSize : Reg} {ptr : Nat}

theorem SizeFits.toNat_totalSize (h : SizeFits cfg frameSize argSize) :
    (totalSize cfg frameSize argSize).toNat =
      frameSize.toNat + argSize.toNat + overheadSize + cfg.additionAllocSize := by
  simp only [SizeFits, overheadSize, metaSize, trapFramePadSize, trapFrameSize,
    r12PreserveSize] at h
  simp only [totalSize, BitVec.toNat_add, BitVec.toNat_ofNat, overheadSize, metaSize,
    trapFramePadSize, trapFrameSize, r12PreserveSize]
  omega

/-- Where the arguments and the trap frame go: right below the end of the stacklet. -/
theorem SizeFits.toNat_dstArgPtr (h : SizeFits cfg frameSize argSize)
    (hend : ptr + (totalSize cfg frameSize argSize).toNat < 2 ^ 32) :
    (BitVec.ofNat 32 ptr + (totalSize cfg frameSize argSize - argSize)).toNat =
      ptr + frameSize.toNat + overheadSize + cfg.additionAllocSize := by
  have htotal := h.toNat_totalSize
  simp only [BitVec.toNat_add, BitVec.toNat_sub, BitVec.toNat_ofNat]
  omega

theorem SizeFits.toNat_newStackPointer (h : SizeFits cfg frameSize argSize)
    (hend : ptr + (totalSize cfg frameSize argSize).toNat < 2 ^ 32) :
    (newStackPointer cfg ptr frameSize argSize).toNat =
      ptr + frameSize.toNat + overheadSize + cfg.additionAllocSize - trapFrameSize := by
  have htotal := h.toNat_totalSize
  have hdst := h.toNat_dstArgPtr hend
  rw [newStackPointer, BitVec.toNat_sub, hdst]
  simp only [BitVec.toNat_ofNat, overheadSize, metaSize, trapFramePadSize, trapFrameSize,
    r12PreserveSize] at htotal ⊢
  omega

/-- Only the new stacklet is written. -/
theorem fillStacklet_outside (m : Mem) (ctxt : TaskSvcCtxt) (h : SizeFits cfg frameSize argSize)
    (hend : ptr + (totalSize cfg frameSize argSize).toNat < 2 ^ 32) {y : Nat}
    (hy : Outside (ptr, (totalSize cfg frameSize argSize).toNat) y) :
    fillStacklet cfg m ctxt ptr frameSize argSize y = m y := by
  have htotal := h.toNat_totalSize
  have hdst := h.toNat_dstArgPtr hend
  have hsp := h.toNat_newStackPointer hend
  simp only [newStackPointer] at hsp
  simp only [Outside, overheadSize, metaSize, trapFramePadSize, trapFrameSize,
    r12PreserveSize] at hy htotal hdst hsp
  simp only [fillStacklet, trapFrameSize]
  rw [setWord_outside (by omega), setWord_outside (by omega), setWord_outside (by omega),
    copy_outside (by omega), copy_outside (by omega), setWord_outside (by omega),
    setWord_outside (by omega), setWord_outside (by omega), setWord_outside (by omega)]

/-- The metadata of the new stacklet. -/
theorem fillStacklet_meta (m : Mem) (ctxt : TaskSvcCtxt) (h : SizeFits cfg frameSize argSize)
    (hend : ptr + (totalSize cfg frameSize argSize).toNat < 2 ^ 32) :
    word (fillStacklet cfg m ctxt ptr frameSize argSize) ptr = ctxt.tls.stkletBound ∧
      word (fillStacklet cfg m ctxt ptr frameSize argSize) (ptr + 4) = ctxt.sp ∧
      word (fillStacklet cfg m ctxt ptr frameSize argSize) (ptr + 12) = frameSize := by
  have htotal := h.toNat_totalSize
  have hdst := h.toNat_dstArgPtr hend
  have hsp := h.toNat_newStackPointer hend
  simp only [newStackPointer] at hsp
  simp only [overheadSize, metaSize, trapFramePadSize, trapFrameSize,
    r12PreserveSize] at htotal hdst hsp
  -- Nothing after the metadata is written below `ptr + 16`.
  let m₁ := setWord (setWord (setWord (setWord m ptr ctxt.tls.stkletBound) (ptr + 4) ctxt.sp)
    (ptr + 8) 0) (ptr + 12) frameSize
  have hkeep : ∀ y, y < ptr + 16 → fillStacklet cfg m ctxt ptr frameSize argSize y = m₁ y := by
    intro y hy
    simp only [fillStacklet, trapFrameSize]
    rw [setWord_outside (by omega), setWord_outside (by omega), setWord_outside (by omega),
      copy_outside (by omega), copy_outside (by omega)]
  refine ⟨?_, ?_, ?_⟩
  · rw [word_congr fun y _ hy => hkeep y (by omega)]
    simp only [m₁]
    rw [word_setWord_disjoint (by omega), word_setWord_disjoint (by omega),
      word_setWord_disjoint (by omega), word_setWord_same]
  · rw [word_congr fun y _ hy => hkeep y (by omega)]
    simp only [m₁]
    rw [word_setWord_disjoint (by omega), word_setWord_disjoint (by omega), word_setWord_same]
  · rw [word_congr fun y _ hy => hkeep y (by omega)]
    exact word_setWord_same

end MoreStack

end Hopter.Task
