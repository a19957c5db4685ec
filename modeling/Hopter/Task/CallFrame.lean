-- SUMMARY: The call frame that a function gets on a new stacklet, on both architectures.
import Hopter.Task.StackSafety

/-!
# Call frames on a new stacklet

`more_stack` copies the trap frame and the stack arguments of a call to the new stacklet.
The layout depends on the architecture: armv6m has no floating-point registers in the trap
frame, and its function prologue pushes two scratch registers where that of armv7em pushes
one. The allocator is a parameter here, up to what it promises: a chunk that overlaps no
other one, and that the chunks in use keep their contents.
-/

namespace Hopter.Task

open Allocator

variable {n : Nat}

-- ---------------------------------------------------------------------------
-- Architectures
-- ---------------------------------------------------------------------------

inductive Arch where
  | armv7em
  | armv6m
  deriving DecidableEq

/-- The size of `TrapFrame`. -/
def Arch.trapFrameSize : Arch → Nat
  | .armv7em => 104
  | .armv6m => 32

/-- `R12_PRESERVE_SIZE` and `R0_R1_PRESERVE_SIZE`. -/
def Arch.preserveSize : Arch → Nat
  | .armv7em => 4
  | .armv6m => 8

/-- `OVERHEAD_SIZE`. -/
def Arch.overheadSize (a : Arch) : Nat :=
  metaSize + trapFramePadSize + a.trapFrameSize + a.preserveSize

/-- `bound_to_stklet_meta`. -/
def Arch.boundToStkletMeta (a : Arch) (bound : Reg) : Nat :=
  (bound - BitVec.ofNat 32 a.overheadSize).toNat

/-- `stklet_ptr_to_bound`. -/
def Arch.stkletPtrToBound (a : Arch) (ptr : Nat) : Reg := BitVec.ofNat 32 (ptr + a.overheadSize)

/-- The size of a trap frame with the given `xpsr`, its padding included. -/
def Arch.tfSize (a : Arch) (xpsr : Reg) : Nat :=
  if xpsr &&& padBit ≠ 0 then a.trapFrameSize + trapFramePadSize else a.trapFrameSize

/-- The stack pointer after the exception return from the trap frame at `sp`. -/
def Arch.returnSp (a : Arch) (m : Mem) (sp : Reg) : Reg :=
  sp + BitVec.ofNat 32 (a.tfSize (word m (sp.toNat + 28)))

-- ---------------------------------------------------------------------------
-- Growing the stack
-- ---------------------------------------------------------------------------

variable (a : Arch)

/-- The part of `more_stack` that runs with the current task. -/
def Arch.countStack (cfg : Config) (frameSize : Reg) (s : Machine n) :
    Option (Reg × Machine n × Bool) :=
  match s.scb with
  | none => some (frameSize, s, true)
  | some scb =>
    let extendCntPtr := a.boundToStkletMeta s.ctxt.tls.stkletBound + 8
    (svcMoreStackAntiHotSplit cfg s.tf.lr frameSize scb (word s.mem extendCntPtr)).map
      fun (frameSize, scb, extendCnt) =>
        let updatedSize := scb.cumulatedSize + frameSize
        (frameSize,
          { s.setMem (setWord s.mem extendCntPtr extendCnt) with
            scb := some { scb with cumulatedSize := updatedSize } },
          match s.stackLimit with
          | some limit => updatedSize.toNat > (BitVec.ofNat 32 limit).toNat
          | none => false)

def Arch.totalSize (cfg : Config) (frameSize argSize : Reg) : Reg :=
  frameSize + argSize + BitVec.ofNat 32 a.overheadSize + BitVec.ofNat 32 cfg.additionAllocSize

/-- The memory when the new stacklet at `ptr` is set up. -/
def Arch.fillStacklet (cfg : Config) (m : Mem) (ctxt : TaskSvcCtxt) (ptr : Nat)
    (frameSize argSize : Reg) : Mem :=
  let tf := TrapFrame.load m ctxt.sp.toNat
  let m := setWord m ptr ctxt.tls.stkletBound
  let m := setWord m (ptr + 4) ctxt.sp
  let m := setWord m (ptr + 8) 0
  let m := setWord m (ptr + 12) frameSize
  let dstArgPtr := BitVec.ofNat 32 ptr + (a.totalSize cfg frameSize argSize - argSize)
  let m := copy m (ctxt.sp.toNat + a.tfSize tf.xpsr) dstArgPtr.toNat argSize.toNat
  let newTfPtr := (dstArgPtr - BitVec.ofNat 32 a.trapFrameSize).toNat
  let m := copy m ctxt.sp.toNat newTfPtr a.trapFrameSize
  let m := setWord m (newTfPtr + 28) (tf.xpsr &&& ~~~padBit)
  let m := setWord m (newTfPtr + 24) (tf.pc + 4)
  setWord m (newTfPtr + 20) cfg.svcLessStack

def Arch.newStackPointer (cfg : Config) (ptr : Nat) (frameSize argSize : Reg) : Reg :=
  BitVec.ofNat 32 ptr + (a.totalSize cfg frameSize argSize - argSize) -
    BitVec.ofNat 32 a.trapFrameSize

variable (alloc : Heap → Nat → Option (Heap × Nat))

/-- The second half of `more_stack`: allocate the stacklet and switch to it. -/
def Arch.allocStacklet (cfg : Config) (frameSize argSize : Reg) (s : Machine n) :
    Option (Machine n) :=
  let total := (a.totalSize cfg frameSize argSize).toNat
  if 2 ^ 31 - 4 < total then none
  else (alloc s.heap.heap total).bind fun (heap, ptr) =>
    if ptr = 0 then none
    else some
      { s with
        heap :=
          ⟨{ heap with mem := a.fillStacklet cfg heap.mem s.ctxt ptr frameSize argSize },
            (ptr, total) :: s.heap.live⟩
        ctxt :=
          { sp := a.newStackPointer cfg ptr frameSize argSize
            tls := { s.ctxt.tls with stkletBound := a.stkletPtrToBound ptr } }
        activeStackletCount := s.activeStackletCount + 1 }

/-- `more_stack` on an architecture. -/
def Arch.moreStack (cfg : Config) (prog : Reg → BitVec 16) (reason : MoreStackReason)
    (s : Machine n) : Option (Outcome n) :=
  if cfg.allowDynamicStack = false then none
  else
    let frameSize := getStackFrameSize prog s.tf
    let argSize := getStackArgSize prog s.tf
    let s := { s with stackExtendCount := s.stackExtendCount + 1 }
    (a.countStack cfg frameSize s).bind fun (frameSize, s, exceeded) =>
      if exceeded = false then (a.allocStacklet alloc cfg frameSize argSize s).map .extended
      else (handleLimitExceed cfg reason s.unwinding s.ctxt.tls).bind fun (pending, abort) =>
        let s := { s with ctxt := { s.ctxt with tls := { s.ctxt.tls with unwindPending := pending } } }
        if abort = true then
          some (.diverted (s.setMem (setWord s.mem (s.ctxt.sp.toNat + 24) cfg.divertedUnwind)))
        else (a.allocStacklet alloc cfg frameSize argSize s).map .extended

/-- On armv7em and with the allocator of the kernel, this is the `more_stack` of the call
chains. -/
theorem moreStack_armv7em (P : Platform) (cfg : Config) (prog : Reg → BitVec 16)
    (reason : MoreStackReason) (s : Machine n) :
    Arch.armv7em.moreStack (mcuMalloc P) cfg prog reason s = moreStack P cfg prog reason s := rfl

-- ---------------------------------------------------------------------------
-- Callers and callees
-- ---------------------------------------------------------------------------

/-- What the allocator promises, whatever the chunk `st` in use holds: the new chunk does not
reach the end of the address space, it overlaps no chunk in use, and the chunks in use keep
their bytes. -/
def Allocates (c : Client) (st : Nat × Nat) : Prop :=
  ∀ mem size heap ptr, (∀ y, Outside st y → mem y = c.heap.mem y) → size ≤ 2 ^ 31 - 4 →
    alloc { c.heap with mem := mem } size = some (heap, ptr) → ptr ≠ 0 →
      ptr + size < 2 ^ 32 ∧ ∀ b ∈ c.live, Apart (ptr, size) b ∧ mem.AgreeOn heap.mem b.1 (b.1 + b.2)

/-- The task calls a function from the stacklet `st`: the trap frame and the stack arguments
are on it, above the metadata. -/
structure Arch.Caller (prog : Reg → BitVec 16) (s : Machine n) (st : Nat × Nat) : Prop where
  live : st ∈ s.heap.live
  bound : s.ctxt.tls.stkletBound = a.stkletPtrToBound st.1
  sp : st.1 + metaSize ≤ s.ctxt.sp.toNat
  args : s.ctxt.sp.toNat + a.tfSize s.tf.xpsr + (s.argSize prog).toNat ≤ st.1 + st.2
  fits : st.1 + st.2 < 2 ^ 32

/-- The size of the new stacklet does not wrap around. -/
def Arch.SizeFits (cfg : Config) (frameSize argSize : Reg) : Prop :=
  frameSize.toNat + argSize.toNat + a.overheadSize + cfg.additionAllocSize % 2 ^ 32 < 2 ^ 32

instance (cfg : Config) (frameSize argSize : Reg) : Decidable (a.SizeFits cfg frameSize argSize) :=
  inferInstanceAs (Decidable (_ < _))

/-- The function runs on the new stacklet at `ptr` with the call frame that its caller has
set up. -/
structure Arch.CallFrame (cfg : Config) (prog : Reg → BitVec 16) (s m : Machine n) (ptr : Nat) :
    Prop where
  live : m.heap.live =
    (ptr, (a.totalSize cfg (s.frameSize prog) (s.argSize prog)).toNat) :: s.heap.live
  bound : m.ctxt.tls.stkletBound = a.stkletPtrToBound ptr
  /-- The metadata, the trap frame and the arguments are inside the stacklet. -/
  inside : ∀ r ∈ [(ptr, metaSize), (m.ctxt.sp.toNat, a.trapFrameSize),
      ((a.returnSp m.mem m.ctxt.sp).toNat, (s.argSize prog).toNat)],
    ptr ≤ r.1 ∧ r.1 + r.2 ≤ ptr + (a.totalSize cfg (s.frameSize prog) (s.argSize prog)).toNat
  apart : [(ptr, metaSize), (m.ctxt.sp.toNat, a.trapFrameSize),
    ((a.returnSp m.mem m.ctxt.sp).toNat, (s.argSize prog).toNat)].Pairwise Apart
  /-- The function finds its arguments at the stack pointer. -/
  args : ∀ i < (s.argSize prog).toNat, m.mem ((a.returnSp m.mem m.ctxt.sp).toNat + i) =
    s.mem (s.ctxt.sp.toNat + a.tfSize s.tf.xpsr + i)
  pc : word m.mem (m.ctxt.sp.toNat + 24) = s.tf.pc + 4
  lr : word m.mem (m.ctxt.sp.toNat + 20) = cfg.svcLessStack
  xpsr : word m.mem (m.ctxt.sp.toNat + 28) = s.tf.xpsr &&& ~~~padBit
  /-- `r0` to `r3` and `r12`, and on armv7em `s0` to `s15` and `fpcsr`. -/
  registers : ∀ i < a.trapFrameSize / 4, i ∉ [5, 6, 7] →
    word m.mem (m.ctxt.sp.toNat + 4 * i) = word s.mem (s.ctxt.sp.toNat + 4 * i)
  room : m.ctxt.tls.stkletBound.toNat + (s.frameSize prog).toNat ≤
    (a.returnSp m.mem m.ctxt.sp).toNat
  /-- What the prologue and the hardware push at any stack pointer that is not below the
  boundary stays above the metadata. -/
  overhead : ∀ sp pad, m.ctxt.tls.stkletBound.toNat ≤ sp → pad ≤ trapFramePadSize →
    ptr + metaSize ≤ sp - a.preserveSize - pad - a.trapFrameSize

variable {a} {alloc} {cfg : Config} {prog : Reg → BitVec 16} {reason : MoreStackReason}
  {s s₁ m : Machine n} {st : Nat × Nat} {frameSize argSize : Reg} {ptr : Nat}

theorem Arch.overheadSize_eq (a : Arch) :
    a.overheadSize = metaSize + trapFramePadSize + a.trapFrameSize + a.preserveSize := rfl

theorem Arch.trapFrameSize_le (a : Arch) : 32 ≤ a.trapFrameSize ∧ a.overheadSize ≤ 128 := by
  cases a <;> decide

theorem Arch.boundToStkletMeta_stkletPtrToBound (h : ptr < 2 ^ 32) :
    a.boundToStkletMeta (a.stkletPtrToBound ptr) = ptr := by
  have := a.trapFrameSize_le
  simp only [boundToStkletMeta, stkletPtrToBound, BitVec.toNat_sub, BitVec.toNat_ofNat]
  omega

theorem Arch.SizeFits.toNat_totalSize (h : a.SizeFits cfg frameSize argSize) :
    (a.totalSize cfg frameSize argSize).toNat =
      frameSize.toNat + argSize.toNat + a.overheadSize + cfg.additionAllocSize % 2 ^ 32 := by
  simp only [SizeFits] at h
  simp only [totalSize, BitVec.toNat_add, BitVec.toNat_ofNat]
  omega

/-- Where the arguments go: right below the end of the stacklet. -/
theorem Arch.toNat_dstArgPtr (h : argSize.toNat ≤ (a.totalSize cfg frameSize argSize).toNat)
    (hend : ptr + (a.totalSize cfg frameSize argSize).toNat < 2 ^ 32) :
    (BitVec.ofNat 32 ptr + (a.totalSize cfg frameSize argSize - argSize)).toNat =
      ptr + (a.totalSize cfg frameSize argSize).toNat - argSize.toNat := by
  simp only [BitVec.toNat_add, BitVec.toNat_sub, BitVec.toNat_ofNat]
  omega

/-- Words with the same bytes are equal. -/
theorem word_eq_of_bytes {m m' : Mem} {b c : Nat} (h : ∀ j < 4, m' (c + j) = m (b + j)) :
    word m' c = word m b := by
  have h0 := h 0 (by decide)
  have h1 := h 1 (by decide)
  have h2 := h 2 (by decide)
  have h3 := h 3 (by decide)
  simp only [Nat.add_zero] at h0
  simp only [word, Mem.load32, Mem.load, Nat.add_assoc, Nat.reduceAdd, h0, h1, h2, h3]

theorem copy_inside {m : Mem} {src dst len i : Nat} (h : i < len) :
    copy m src dst len (dst + i) = m (src + i) := by
  simp [copy, h]

-- ---------------------------------------------------------------------------
-- The new stacklet
-- ---------------------------------------------------------------------------

/-- The caller's trap frame and arguments, from the stack pointer `ctxt.sp`, are not on the
new stacklet at `ptr`. -/
def Arch.Elsewhere (a : Arch) (cfg : Config) (mem : Mem) (sp : Reg) (ptr : Nat)
    (frameSize argSize : Reg) : Prop :=
  ∀ y, sp.toNat ≤ y → y < sp.toNat + a.tfSize (word mem (sp.toNat + 28)) + argSize.toNat →
    Outside (ptr, (a.totalSize cfg frameSize argSize).toNat) y

section Fill

variable {mem : Mem} {ctxt : TaskSvcCtxt}

theorem Arch.SizeFits.toNat_newStackPointer (h : a.SizeFits cfg frameSize argSize)
    (hend : ptr + (a.totalSize cfg frameSize argSize).toNat < 2 ^ 32) :
    (a.newStackPointer cfg ptr frameSize argSize).toNat + a.trapFrameSize =
      ptr + (a.totalSize cfg frameSize argSize).toNat - argSize.toNat := by
  have htotal := h.toNat_totalSize
  have hover := a.overheadSize_eq
  have hle := a.trapFrameSize_le
  have hdst := toNat_dstArgPtr (show argSize.toNat ≤ (a.totalSize cfg frameSize argSize).toNat by omega) hend
  rw [newStackPointer, BitVec.toNat_sub, hdst]
  simp only [BitVec.toNat_ofNat]
  omega

/-- The bytes of the new stacklet from the trap frame on. -/
theorem Arch.fillStacklet_eq (ctxt : TaskSvcCtxt) (h : a.SizeFits cfg frameSize argSize)
    (hend : ptr + (a.totalSize cfg frameSize argSize).toNat < 2 ^ 32)
    (hfar : a.Elsewhere cfg mem ctxt.sp ptr frameSize argSize) :
    let sp := (a.newStackPointer cfg ptr frameSize argSize).toNat
    let filled := a.fillStacklet cfg mem ctxt ptr frameSize argSize
    (∀ i < argSize.toNat, filled (sp + a.trapFrameSize + i) =
        mem (ctxt.sp.toNat + a.tfSize (word mem (ctxt.sp.toNat + 28)) + i)) ∧
      (∀ i < a.trapFrameSize / 4, i ∉ [5, 6, 7] →
        word filled (sp + 4 * i) = word mem (ctxt.sp.toNat + 4 * i)) ∧
      word filled (sp + 20) = cfg.svcLessStack ∧
      word filled (sp + 24) = word mem (ctxt.sp.toNat + 24) + 4 ∧
      word filled (sp + 28) = word mem (ctxt.sp.toNat + 28) &&& ~~~padBit := by
  have htotal := h.toNat_totalSize
  have hover := a.overheadSize_eq
  have hle := a.trapFrameSize_le
  have hdst := toNat_dstArgPtr (show argSize.toNat ≤ (a.totalSize cfg frameSize argSize).toNat by omega) hend
  have hsp := h.toNat_newStackPointer hend
  have htf : a.trapFrameSize ≤ a.tfSize (word mem (ctxt.sp.toNat + 28)) := by
    unfold tfSize
    split <;> omega
  intro sp filled
  -- The metadata, the arguments and the trap frame, in the order in which they are written.
  let m₀ := setWord (setWord (setWord (setWord mem ptr ctxt.tls.stkletBound) (ptr + 4) ctxt.sp)
    (ptr + 8) 0) (ptr + 12) frameSize
  let m₁ := copy m₀ (ctxt.sp.toNat + a.tfSize (word mem (ctxt.sp.toNat + 28)))
    (sp + a.trapFrameSize) argSize.toNat
  let m₂ := copy m₁ ctxt.sp.toNat sp a.trapFrameSize
  have hfilled : filled = setWord (setWord (setWord m₂ (sp + 28)
      (word mem (ctxt.sp.toNat + 28) &&& ~~~padBit)) (sp + 24) (word mem (ctxt.sp.toNat + 24) + 4))
      (sp + 20) cfg.svcLessStack := by
    simp only [filled, fillStacklet, m₂, m₁, m₀, sp, TrapFrame.load, hdst, hsp]
    rfl
  have hsource : ∀ y, ctxt.sp.toNat ≤ y →
      y < ctxt.sp.toNat + a.tfSize (word mem (ctxt.sp.toNat + 28)) + argSize.toNat →
      m₀ y = mem y ∧ Outside (ptr, (a.totalSize cfg frameSize argSize).toNat) y := by
    intro y hlo hhi
    have hout := hfar y hlo hhi
    refine ⟨?_, hout⟩
    simp only [Outside, metaSize, trapFramePadSize] at hout hover
    simp only [m₀]
    rw [setWord_outside (by omega), setWord_outside (by omega), setWord_outside (by omega),
      setWord_outside (by omega)]
  have hm₂ : ∀ i < a.trapFrameSize, m₂ (sp + i) = mem (ctxt.sp.toNat + i) := by
    intro i hi
    obtain ⟨heq, hout⟩ := hsource (ctxt.sp.toNat + i) (by omega) (by omega)
    simp only [Outside] at hout
    have hargs : m₁ (ctxt.sp.toNat + i) = m₀ (ctxt.sp.toNat + i) := copy_outside (by omega)
    exact (copy_inside hi).trans (hargs.trans heq)
  refine ⟨fun i hi => ?_, fun i hi hother => ?_, ?_, ?_, ?_⟩
  · have hframe : m₂ (sp + a.trapFrameSize + i) = m₁ (sp + a.trapFrameSize + i) :=
      copy_outside (by omega)
    rw [hfilled, setWord_outside (by omega), setWord_outside (by omega), setWord_outside (by omega)]
    exact hframe.trans ((copy_inside hi).trans (hsource _ (by omega) (by omega)).1)
  · simp only [List.mem_cons, List.not_mem_nil, or_false, not_or] at hother
    rw [hfilled, word_setWord_disjoint (by omega), word_setWord_disjoint (by omega),
      word_setWord_disjoint (by omega)]
    refine word_eq_of_bytes fun j hj => ?_
    rw [Nat.add_assoc, Nat.add_assoc]
    exact hm₂ _ (by omega)
  · rw [hfilled, word_setWord_same]
  · rw [hfilled, word_setWord_disjoint (by omega), word_setWord_same]
  · rw [hfilled, word_setWord_disjoint (by omega), word_setWord_disjoint (by omega), word_setWord_same]

/-- Filling the new stacklet writes nowhere else. -/
theorem Arch.fillStacklet_outside (ctxt : TaskSvcCtxt) (h : a.SizeFits cfg frameSize argSize)
    (hend : ptr + (a.totalSize cfg frameSize argSize).toNat < 2 ^ 32) {y : Nat}
    (hy : Outside (ptr, (a.totalSize cfg frameSize argSize).toNat) y) :
    a.fillStacklet cfg mem ctxt ptr frameSize argSize y = mem y := by
  have htotal := h.toNat_totalSize
  have hover := a.overheadSize_eq
  have hle := a.trapFrameSize_le
  have hdst := toNat_dstArgPtr (show argSize.toNat ≤ (a.totalSize cfg frameSize argSize).toNat by omega) hend
  have hsp := h.toNat_newStackPointer hend
  simp only [newStackPointer] at hsp
  simp only [metaSize, trapFramePadSize] at hover
  simp only [Outside] at hy
  simp only [fillStacklet, hdst]
  rw [setWord_outside (by omega), setWord_outside (by omega), setWord_outside (by omega),
    copy_outside (by omega), copy_outside (by omega), setWord_outside (by omega),
    setWord_outside (by omega), setWord_outside (by omega), setWord_outside (by omega)]

end Fill

-- ---------------------------------------------------------------------------
-- What `more_stack` does
-- ---------------------------------------------------------------------------

theorem Arch.countStack_cases {count : Reg} {exceeded : Bool}
    (h : a.countStack cfg (getStackFrameSize prog s.tf) { s with stackExtendCount := count } =
      some (frameSize, s₁, exceeded)) :
    frameSize = s.frameSize prog ∧ s₁.ctxt = s.ctxt ∧
      ∃ mem, s₁.heap = ⟨{ s.heap.heap with mem := mem }, s.heap.live⟩ ∧
        ∀ y, Outside (a.boundToStkletMeta s.ctxt.tls.stkletBound + 8, 4) y → mem y = s.mem y := by
  simp only [countStack] at h
  cases hscb : s.scb with
  | none =>
    simp only [hscb, Option.some.injEq, Prod.mk.injEq] at h
    obtain ⟨rfl, rfl, -⟩ := h
    exact ⟨by simp [Machine.frameSize, hscb], rfl, s.mem, rfl, fun _ _ => rfl⟩
  | some scb =>
    simp only [hscb, Option.map_eq_some_iff, Prod.exists, Prod.mk.injEq] at h
    obtain ⟨frame, scb', extendCnt, hsplit, rfl, rfl, -⟩ := h
    refine ⟨?_, rfl, _, rfl, fun y hy => setWord_outside hy⟩
    simp only [Machine.frameSize, hscb]
    exact (svcMoreStackAntiHotSplit_eq hsplit).1

/-- The machine `m` runs on the chunk at `ptr`, which the allocator has returned when the
memory was `mem`. -/
structure Arch.Grown (a : Arch) (alloc : Heap → Nat → Option (Heap × Nat)) (cfg : Config)
    (s m : Machine n) (frameSize argSize : Reg) (mem : Mem) (heap : Heap) (ptr : Nat) : Prop where
  size : (a.totalSize cfg frameSize argSize).toNat ≤ 2 ^ 31 - 4
  alloc_eq : alloc { s.heap.heap with mem := mem } (a.totalSize cfg frameSize argSize).toNat =
    some (heap, ptr)
  ptr_ne : ptr ≠ 0
  live : m.heap.live = (ptr, (a.totalSize cfg frameSize argSize).toNat) :: s.heap.live
  mem_eq : ∃ tls, m.mem = a.fillStacklet cfg heap.mem ⟨s.ctxt.sp, tls⟩ ptr frameSize argSize
  sp : m.ctxt.sp = a.newStackPointer cfg ptr frameSize argSize
  bound : m.ctxt.tls.stkletBound = a.stkletPtrToBound ptr

theorem Arch.allocStacklet_grown {mem : Mem} {s₂ : Machine n} (hsp : s₂.ctxt.sp = s.ctxt.sp)
    (hheap : s₂.heap = ⟨{ s.heap.heap with mem := mem }, s.heap.live⟩)
    (h : a.allocStacklet alloc cfg frameSize argSize s₂ = some m) :
    ∃ heap ptr, a.Grown alloc cfg s m frameSize argSize mem heap ptr := by
  simp only [allocStacklet] at h
  split at h
  · cases h
  rename_i hsize
  simp only [Option.bind_eq_some_iff, Prod.exists] at h
  obtain ⟨heap, ptr, hmalloc, h⟩ := h
  split at h
  · cases h
  rename_i hptr
  rw [hheap] at hmalloc
  obtain rfl := Option.some.inj h
  refine ⟨heap, ptr, by omega, hmalloc, hptr, by simp [hheap], ⟨s₂.ctxt.tls, ?_⟩, rfl, rfl⟩
  rw [← hsp]
  rfl

/-- The stacklet that a call runs on is a new chunk, filled by `more_stack`. -/
theorem Arch.moreStack_grown (h : a.moreStack alloc cfg prog reason s = some (.extended m)) :
    ∃ mem heap ptr,
      (∀ y, Outside (a.boundToStkletMeta s.ctxt.tls.stkletBound + 8, 4) y → mem y = s.mem y) ∧
      a.Grown alloc cfg s m (s.frameSize prog) (s.argSize prog) mem heap ptr := by
  simp only [moreStack] at h
  split at h
  · cases h
  simp only [Option.bind_eq_some_iff, Prod.exists] at h
  obtain ⟨frame, s₁, exceeded, hcount, h⟩ := h
  obtain ⟨rfl, hctxt, mem, hheap, hmem⟩ := countStack_cases hcount
  have hsp : s₁.ctxt.sp = s.ctxt.sp := congrArg TaskSvcCtxt.sp hctxt
  split at h
  · obtain ⟨s', halloc, heq⟩ := Option.map_eq_some_iff.mp h
    obtain rfl := Outcome.extended.inj heq
    obtain ⟨heap, ptr, hgrown⟩ := allocStacklet_grown (s := s) hsp hheap halloc
    exact ⟨mem, heap, ptr, hmem, hgrown⟩
  · simp only [Option.bind_eq_some_iff, Prod.exists] at h
    obtain ⟨pending, abort, -, h⟩ := h
    split at h
    · simp at h
    · obtain ⟨s', halloc, heq⟩ := Option.map_eq_some_iff.mp h
      obtain rfl := Outcome.extended.inj heq
      obtain ⟨heap, ptr, hgrown⟩ := allocStacklet_grown (s := s) (by exact hsp) (by exact hheap) halloc
      exact ⟨mem, heap, ptr, hmem, hgrown⟩

/-- The unwinder always gets a stacklet. -/
theorem Arch.moreStack_unwind {o : Outcome n} (h : a.moreStack alloc cfg prog .unwind s = some o) :
    ∃ m, o = .extended m := by
  have hlimit : ∀ {unwinding tls pending abort}, handleLimitExceed cfg .unwind unwinding tls = some (pending, abort) →
      abort = false := by
    intro unwinding tls pending abort h
    simp only [handleLimitExceed, true_or, if_true] at h
    split at h
    · cases h
    · exact (Prod.mk.inj (Option.some.inj h)).2.symm
  simp only [moreStack] at h
  split at h
  · cases h
  simp only [Option.bind_eq_some_iff, Prod.exists] at h
  obtain ⟨frame, s₁, exceeded, -, h⟩ := h
  split at h
  · obtain ⟨m, -, rfl⟩ := Option.map_eq_some_iff.mp h
    exact ⟨m, rfl⟩
  · simp only [Option.bind_eq_some_iff, Prod.exists] at h
    obtain ⟨pending, abort, hexceed, h⟩ := h
    rw [if_neg (by simp [hlimit hexceed])] at h
    obtain ⟨m, -, rfl⟩ := Option.map_eq_some_iff.mp h
    exact ⟨m, rfl⟩

/-- The new trap frame has no padding. -/
theorem Arch.tfSize_and_not_padBit (a : Arch) (xpsr : Reg) :
    a.tfSize (xpsr &&& ~~~padBit) = a.trapFrameSize := by
  have hclear : xpsr &&& ~~~padBit &&& padBit = 0 := by
    rw [BitVec.and_assoc, show ~~~padBit &&& padBit = 0#32 by decide, BitVec.and_zero]
    rfl
  simp [tfSize, hclear]

/-- A call frame has its size: the arguments and the frame fit between the boundary and the
end of the stacklet. -/
theorem Arch.CallFrame.sizeFits (h : a.CallFrame cfg prog s m ptr) :
    a.SizeFits cfg (s.frameSize prog) (s.argSize prog) := by
  have hargs := (h.inside ((a.returnSp m.mem m.ctxt.sp).toNat, (s.argSize prog).toNat) (by simp)).2
  have hover := h.overhead m.ctxt.tls.stkletBound.toNat trapFramePadSize le_rfl le_rfl
  have hroom := h.room
  have heq := a.overheadSize_eq
  have htotal : (a.totalSize cfg (s.frameSize prog) (s.argSize prog)).toNat =
      ((s.frameSize prog).toNat + (s.argSize prog).toNat + a.overheadSize +
        cfg.additionAllocSize % 2 ^ 32) % 2 ^ 32 := by
    simp only [totalSize, BitVec.toNat_add, BitVec.toNat_ofNat]
    omega
  simp only [metaSize] at hover heq
  simp only [SizeFits]
  omega

/-- A call that is not diverted gets an equivalent call frame if and only if the size of its
stacklet does not wrap around. -/
theorem Arch.moreStack_callFrame (halloc : Allocates alloc s.heap st) (hcaller : a.Caller prog s st)
    (hmore : a.moreStack alloc cfg prog reason s = some (.extended m)) :
    (∃ ptr, a.CallFrame cfg prog s m ptr) ↔ a.SizeFits cfg (s.frameSize prog) (s.argSize prog) := by
  refine ⟨fun ⟨ptr, h⟩ => h.sizeFits, fun hfits => ?_⟩
  obtain ⟨mem, heap, ptr, hmem, hgrown⟩ := moreStack_grown hmore
  have hst := hcaller.fits
  have hsp := hcaller.sp
  have hargs := hcaller.args
  rw [hcaller.bound, boundToStkletMeta_stkletPtrToBound (by omega)] at hmem
  simp only [metaSize] at hsp
  have htf : a.trapFrameSize ≤ a.tfSize s.tf.xpsr := by
    unfold tfSize
    split <;> omega
  have hle := a.trapFrameSize_le
  -- The caller's frame is the same when the new stacklet is filled.
  obtain ⟨hend, hlive⟩ := halloc mem _ heap ptr (fun y hy => hmem y (by
    simp only [Outside] at hy ⊢
    omega)) hgrown.size hgrown.alloc_eq hgrown.ptr_ne
  obtain ⟨hapart, hbytes⟩ := hlive st hcaller.live
  have hsame : ∀ y, s.ctxt.sp.toNat ≤ y →
      y < s.ctxt.sp.toNat + a.tfSize s.tf.xpsr + (s.argSize prog).toNat → heap.mem y = s.mem y := by
    intro y hlo hhi
    rw [hbytes y (by omega) (by omega), hmem y (by simp only [Outside]; omega)]
  have hword : ∀ i, 4 * i + 4 ≤ a.trapFrameSize →
      word heap.mem (s.ctxt.sp.toNat + 4 * i) = word s.mem (s.ctxt.sp.toNat + 4 * i) :=
    fun i hi => word_congr fun y hlo hhi => hsame y (by omega) (by omega)
  have hpc : word heap.mem (s.ctxt.sp.toNat + 24) = s.tf.pc := hword 6 (by omega)
  have hxpsr : word heap.mem (s.ctxt.sp.toNat + 28) = s.tf.xpsr := hword 7 (by omega)
  obtain ⟨tls, hfill⟩ := hgrown.mem_eq
  have hfar : a.Elsewhere cfg heap.mem s.ctxt.sp ptr (s.frameSize prog) (s.argSize prog) := by
    intro y hlo hhi
    rw [hxpsr] at hhi
    simp only [Apart] at hapart
    simp only [Outside]
    omega
  obtain ⟨hfargs, hfregs, hflr, hfpc, hfxpsr⟩ :=
    fillStacklet_eq ⟨s.ctxt.sp, tls⟩ hfits hend hfar
  have hnew := hfits.toNat_newStackPointer hend
  have htotal := hfits.toNat_totalSize
  have hover := a.overheadSize_eq
  dsimp only at hfargs hfregs hflr hfpc hfxpsr
  rw [← hfill, ← hgrown.sp] at hfargs hfregs hflr hfpc hfxpsr
  rw [← hgrown.sp] at hnew
  rw [hxpsr] at hfargs hfxpsr
  have hreturn : (a.returnSp m.mem m.ctxt.sp).toNat = m.ctxt.sp.toNat + a.trapFrameSize := by
    rw [returnSp, hfxpsr, tfSize_and_not_padBit, BitVec.toNat_add, BitVec.toNat_ofNat]
    omega
  have hbound : m.ctxt.tls.stkletBound.toNat = ptr + a.overheadSize := by
    rw [hgrown.bound, stkletPtrToBound, BitVec.toNat_ofNat]
    omega
  simp only [metaSize, trapFramePadSize] at hover
  refine ⟨ptr, hgrown.live, hgrown.bound, ?_, ?_, ?_, by rw [hfpc, hpc], hflr, hfxpsr, ?_, ?_, ?_⟩
  · rw [hreturn]
    simp only [List.mem_cons, List.not_mem_nil, or_false, forall_eq_or_imp, forall_eq, metaSize]
    omega
  · rw [hreturn]
    simp only [List.pairwise_cons, List.mem_cons, List.not_mem_nil, or_false, forall_eq_or_imp,
      forall_eq, Apart, metaSize, List.Pairwise.nil, and_true, false_implies, implies_true]
    omega
  · intro i hi
    rw [hreturn, hfargs i hi, hsame _ (by omega) (by omega)]
  · intro i hi hother
    rw [hfregs i hi hother, hword i (by omega)]
  · rw [hreturn, hbound]
    omega
  · intro sp pad hlo hpad
    simp only [metaSize, trapFramePadSize] at hpad ⊢
    omega

-- ---------------------------------------------------------------------------
-- The allocator of the kernel
-- ---------------------------------------------------------------------------

/-- `mcu_malloc` keeps the promise. -/
theorem allocates_mcuMalloc {P : Platform} {c : Client} {cs : List Chunk} {ls : Fin 6 → List Nat}
    (hinv : c.Inv P cs ls) (hst : st ∈ c.live) : Allocates (mcuMalloc P) c st := by
  intro mem size heap ptr hmem hsize halloc hptr
  obtain ⟨cs', hinv'⟩ := hinv.overwrite hst hmem
  obtain ⟨⟨cs'', ls'', hnew⟩, hbytes⟩ := hinv'.mcuMalloc_spec (by omega) halloc hptr
  have hfit := hnew.fits (ptr, size) (by simp)
  have hram := hnew.heap.valid.ramEnd_lt
  simp only [Allocator.Fits] at hfit
  refine ⟨by omega, fun b hb => ⟨?_, fun y hlo hhi => ?_⟩⟩
  · exact (List.pairwise_cons.mp hnew.apart).1 b hb
  · have := hbytes b hb (y - b.1) (by omega)
    rwa [show b.1 + (y - b.1) = y by omega] at this

/-- The task on the board calls a function. -/
theorem boardTask_caller {client : Client} {scb : StackCtrlBlock n}
    (hstart : Start board (boardTask scb client)) (hlive : client.live = [(0x20000038, 512)])
    (hargs : 0x20000100 + Arch.armv7em.tfSize (boardTask scb client).machine.tf.xpsr +
      ((boardTask scb client).machine.argSize prog).toNat ≤ 0x20000238) :
    Allocates (mcuMalloc board) (boardTask scb client).machine.heap (0x20000038, 512) ∧
      Arch.armv7em.Caller prog (boardTask scb client).machine (0x20000038, 512) := by
  obtain ⟨cs, ls, hinv⟩ := hstart.heap
  have hmem : (0x20000038, 512) ∈ (boardTask scb client).machine.heap.live := by
    simp [boardTask, hlive]
  refine ⟨allocates_mcuMalloc hinv hmem, hmem, ?_, ?_, hargs, ?_⟩
  · simp only [boardTask, hlive]
    rfl
  · simp only [boardTask]
    decide
  · decide

theorem boardHeap_live {client : Client} (h : boardHeap = some client) :
    client.live = [(0x20000038, 512)] := by
  have hlive : boardHeap.map Client.live = some [(0x20000038, 512)] := by decide +kernel
  simpa [h] using hlive

theorem Arch.moreStack_callFrame_board : ∃ (s m : Machine 1) (ptr : Nat),
    Arch.armv7em.moreStack (mcuMalloc board) boardConfig smallFrames .normal s = some (.extended m) ∧
      Arch.armv7em.CallFrame boardConfig smallFrames s m ptr := by
  obtain ⟨client, hheap, hstart⟩ := boardHeap_start
  have hrun : boardHeap.map (fun c =>
      (decide (Arch.armv7em.SizeFits boardConfig
          ((boardTask (.default 1) c).machine.frameSize smallFrames)
          ((boardTask (.default 1) c).machine.argSize smallFrames) ∧
        0x20000100 + Arch.armv7em.tfSize (boardTask (.default 1) c).machine.tf.xpsr +
          ((boardTask (.default 1) c).machine.argSize smallFrames).toNat ≤ 0x20000238),
        (Arch.armv7em.moreStack (mcuMalloc board) boardConfig smallFrames .normal
          (boardTask (.default 1) c).machine).map Outcome.isExtended)) = some (true, some true) := by
    decide +kernel
  simp only [hheap, Option.map_some, Option.some.injEq, Prod.mk.injEq, decide_eq_true_eq,
    Option.map_eq_some_iff] at hrun
  obtain ⟨⟨hfits, hargs⟩, o, hmore, hext⟩ := hrun
  obtain ⟨halloc, hcaller⟩ := boardTask_caller (hstart (.default 1)) (boardHeap_live hheap) hargs
  cases o with
  | diverted m => cases hext
  | extended m =>
    obtain ⟨ptr, hframe⟩ := (Arch.moreStack_callFrame halloc hcaller hmore).mpr hfits
    exact ⟨_, m, ptr, hmore, hframe⟩

/-- A call whose stacklet wraps around gets no call frame. -/
theorem moreStack_no_callFrame : ∃ s m : Machine 1,
    Allocates (mcuMalloc board) s.heap (0x20000038, 512) ∧
      Arch.armv7em.Caller manyArguments s (0x20000038, 512) ∧
      Arch.armv7em.moreStack (mcuMalloc board) boardConfig manyArguments .normal s =
        some (.extended m) ∧
      ∀ ptr, ¬ Arch.armv7em.CallFrame boardConfig manyArguments s m ptr := by
  obtain ⟨client, hheap, hstart⟩ := boardHeap_start
  have hrun : boardHeap.map (fun c =>
      (decide (¬ Arch.armv7em.SizeFits boardConfig
          ((boardTask largeMultiplier c).machine.frameSize manyArguments)
          ((boardTask largeMultiplier c).machine.argSize manyArguments) ∧
        0x20000100 + Arch.armv7em.tfSize (boardTask largeMultiplier c).machine.tf.xpsr +
          ((boardTask largeMultiplier c).machine.argSize manyArguments).toNat ≤ 0x20000238),
        (Arch.armv7em.moreStack (mcuMalloc board) boardConfig manyArguments .normal
          (boardTask largeMultiplier c).machine).map Outcome.isExtended)) = some (true, some true) := by
    decide +kernel
  simp only [hheap, Option.map_some, Option.some.injEq, Prod.mk.injEq, decide_eq_true_eq,
    Option.map_eq_some_iff] at hrun
  obtain ⟨⟨hwraps, hargs⟩, o, hmore, hext⟩ := hrun
  obtain ⟨halloc, hcaller⟩ := boardTask_caller (hstart largeMultiplier) (boardHeap_live hheap) hargs
  cases o with
  | diverted m => cases hext
  | extended m => exact ⟨_, m, halloc, hcaller, hmore, fun ptr hframe => hwraps hframe.sizeFits⟩

end Hopter.Task
