-- SUMMARY: The assembly around the unwinder is entered with the registers of a panic and lands with those of a frame.
import Hopter.Interrupt.ContextSwitch
import Hopter.Task.CallFrame
import Hopter.Task.StackLimit
import Hopter.Unwind.Landing
import Hopter.Unwind.Step

/-!
# Entering and leaving the unwinder

`start_unwind_entry` and `unwind_resume_entry` in `src/unwind/unwind.rs`, for both architectures,
and the supervisor calls that they make. In a task the unwinder gets a stacklet of its own, which
is freed when it lands. In an interrupt handler it runs on the stack of the handler.

A supervisor call pushes a trap frame on the stacklet in use. `svc_entry` hands the task local
storage to the handler and writes it back, and the hardware pops the frame at the stack pointer that
the handler has left. The stack of the kernel is not part of the memory here.
-/

namespace Hopter.Unwind

open Hopter.Allocator Hopter.Task
open Hopter.Interrupt (Core loadWords setAll writeback s16s31 tlsMemAddr storeWords_outside
  loadWords_congr loadWords_append loadWords_storeWords loadWords_getElem? word_storeWords
  word_storeWords_disjoint setAll_of_not_mem setAll_of_getElem?
  map_setAll length_loadWords)

-- ---------------------------------------------------------------------------
-- Instructions
-- ---------------------------------------------------------------------------

structure EntryCpu (n : Nat) where
  reg : Core → Reg
  fp : Fin 32 → Reg
  fpscr : Reg
  xpsr : Reg
  /-- The stack pointer in use. -/
  sp : Reg
  /-- The number of the active interrupt, which is zero in a task. -/
  ipsr : Reg
  /-- The flag that `cmp` sets when its operands are equal. -/
  zero : Bool
  machine : Machine n

inductive EntryOp where
  | mov (rd rm : Core)
  /-- `mov rd, sp`. -/
  | movFromSp (rd : Core)
  /-- `mov sp, rm`. -/
  | movToSp (rm : Core)
  /-- `ldr rd, =imm`. -/
  | const (rd : Core) (imm : Reg)
  /-- `ldr rd, [rn]`. -/
  | ldr (rd rn : Core)
  /-- `ldr sp, [rn, #imm]`. -/
  | ldrSp (rn : Core) (imm : Reg)
  /-- `add rd, #imm` and `adds rd, #imm`. Nothing reads the flags of the latter. -/
  | add (rd : Core) (imm : Reg)
  | sub (rd : Core) (imm : Reg)
  | addSp (imm : Reg)
  | subSp (imm : Reg)
  | push (rs : List Core)
  | vpush (ss : List (Fin 32))
  | pop (rs : List Core)
  | ldmia (rn : Core) (wb : Bool) (rs : List Core)
  | vldmia (rn : Core) (ss : List (Fin 32))
  | mrsIpsr (rd : Core)
  | cmp (rn : Core) (imm : Reg)

inductive Callee where
  | createUnwindState
  | resumeUnwind
  deriving DecidableEq

inductive EntryInstr where
  | op (o : EntryOp)
  | label (k : Nat)
  | cbnz (rn : Core) (k : Nat)
  | bne (k : Nat)
  /-- `svc {task_unwind_prep}`. At `next`, behind it, are the two half-words for `more_stack`. -/
  | svcPrepare (next : Reg)
  | svcLand (next : Reg)
  | bl (callee : Callee)
  | bx (rn : Core)

variable {n : Nat}

def EntryCpu.mem (c : EntryCpu n) : Mem := c.machine.mem

/-- `push` and `vpush`: the first word goes to the lowest address. -/
def EntryCpu.pushWords (c : EntryCpu n) (vs : List Reg) : EntryCpu n :=
  let sp := c.sp - BitVec.ofNat 32 (4 * vs.length)
  { c with sp := sp, machine := c.machine.setMem (Interrupt.storeWords c.mem sp.toNat vs) }

def EntryCpu.op (c : EntryCpu n) : EntryOp → EntryCpu n
  | .mov rd rm => { c with reg := Function.update c.reg rd (c.reg rm) }
  | .movFromSp rd => { c with reg := Function.update c.reg rd c.sp }
  | .movToSp rm => { c with sp := c.reg rm }
  | .const rd imm => { c with reg := Function.update c.reg rd imm }
  | .ldr rd rn => { c with reg := Function.update c.reg rd (word c.mem (c.reg rn).toNat) }
  | .ldrSp rn imm => { c with sp := word c.mem (c.reg rn + imm).toNat }
  | .add rd imm => { c with reg := Function.update c.reg rd (c.reg rd + imm) }
  | .sub rd imm => { c with reg := Function.update c.reg rd (c.reg rd - imm) }
  | .addSp imm => { c with sp := c.sp + imm }
  | .subSp imm => { c with sp := c.sp - imm }
  | .push rs => c.pushWords (rs.map c.reg)
  | .vpush ss => c.pushWords (ss.map c.fp)
  | .pop rs =>
    { c with
      reg := setAll c.reg rs (loadWords c.mem c.sp.toNat rs.length)
      sp := c.sp + BitVec.ofNat 32 (4 * rs.length) }
  | .ldmia rn wb rs =>
    { c with
      reg := writeback wb rn rs.length (setAll c.reg rs (loadWords c.mem (c.reg rn).toNat rs.length)) }
  | .vldmia rn ss => { c with fp := setAll c.fp ss (loadWords c.mem (c.reg rn).toNat ss.length) }
  | .mrsIpsr rd => { c with reg := Function.update c.reg rd c.ipsr }
  | .cmp rn imm => { c with zero := c.reg rn == imm }

-- ---------------------------------------------------------------------------
-- Supervisor calls
-- ---------------------------------------------------------------------------

/-- `s0` to `s15`. -/
def s0s15 : List (Fin 32) := (List.finRange 32).take 16

/-- The stack pointer is not 8-byte aligned, so the trap frame gets a padding. -/
def padded (sp : Reg) : Bool := sp &&& 4 ≠ 0

variable (A : Task.Arch)

/-- Where the hardware pushes the trap frame. -/
def framePtr (sp : Reg) : Reg :=
  sp - BitVec.ofNat 32 (A.trapFrameSize + if padded sp then trapFramePadSize else 0)

/-- The trap frame of an exception whose return address is `pc`. -/
def EntryCpu.frameWords (c : EntryCpu n) (pc : Reg) : List Reg :=
  [c.reg .r0, c.reg .r1, c.reg .r2, c.reg .r3, c.reg .r12, c.reg .lr, pc,
      if padded c.sp then c.xpsr ||| padBit else c.xpsr &&& ~~~padBit] ++
    match A with
    | .armv7em => s0s15.map c.fp ++ [c.fpscr]
    | .armv6m => []

/-- What the handler of a supervisor call works on. -/
def EntryCpu.svcEnter (c : EntryCpu n) (pc : Reg) : Machine n :=
  let frame := framePtr A c.sp
  let mem := Interrupt.storeWords c.mem frame.toNat (c.frameWords A pc)
  { c.machine.setMem mem with ctxt := ⟨frame, Interrupt.TaskLocalStorage.load mem tlsMemAddr.toNat⟩ }

/-- The exception return: the registers are popped from the trap frame, and the processor goes on at
the address in it. -/
def EntryCpu.popFrame (c : EntryCpu n) (m : Machine n) : Reg × EntryCpu n :=
  let frame := m.ctxt.sp.toNat
  (word m.mem (frame + 24),
    { c with
      reg := setAll c.reg [.r0, .r1, .r2, .r3, .r12, .lr] (loadWords m.mem frame 6)
      fp := match A with
        | .armv7em => setAll c.fp s0s15 (loadWords m.mem (frame + 32) 16)
        | .armv6m => c.fp
      fpscr := match A with
        | .armv7em => word m.mem (frame + 96)
        | .armv6m => c.fpscr
      xpsr := word m.mem (frame + 28) &&& ~~~padBit
      sp := A.returnSp m.mem m.ctxt.sp
      machine := m })

/-- The end of `svc_entry`. -/
def EntryCpu.svcReturn (c : EntryCpu n) (m : Machine n) : Reg × EntryCpu n :=
  let tls := m.ctxt.tls
  c.popFrame A (m.setMem (Interrupt.storeWords m.mem tlsMemAddr.toNat
    [tls.stkletBound, tls.nestedDropCnt, tls.unwindPending]))

-- ---------------------------------------------------------------------------
-- The unwind state in memory
-- ---------------------------------------------------------------------------

/-- The place of a register in `gp_regs`. -/
def ARMGPReg.index : ARMGPReg → Nat
  | .r0 => 0
  | .r4 => 1
  | .r5 => 2
  | .r6 => 3
  | .r7 => 4
  | .r8 => 5
  | .r9 => 6
  | .r10 => 7
  | .r11 => 8
  | .sp => 9
  | .lr => 10
  | .pc => 11

/-- The place of a register in `dpfp_regs`. -/
def ARMDPFPReg.index : ARMDPFPReg → Nat
  | .d8 => 0
  | .d9 => 1
  | .d10 => 2
  | .d11 => 3
  | .d12 => 4
  | .d13 => 5
  | .d14 => 6
  | .d15 => 7

def doubleWord (m : Mem) (a : Nat) : BitVec 64 := word m (a + 4) ++ word m a

/-- Where the compiler has put the fields of `UnwindState`. -/
structure StateLayout where
  gpRegs : Reg
  dpfpRegs : Reg
  stkletBoundary : Reg

/-- The registers at the pointers that `LandInfo` has. -/
def savedRegs (m : Mem) (gpRegs dpfpRegs : Reg) : Regs where
  gp r := word m (gpRegs.toNat + 4 * r.index)
  dpfp d := doubleWord m (dpfpRegs.toNat + 8 * d.index)

def StateLayout.regs (L : StateLayout) (m : Mem) (unwState : Reg) : Regs :=
  savedRegs m (unwState + L.gpRegs) (unwState + L.dpfpRegs)

def StateLayout.boundary (L : StateLayout) (m : Mem) (unwState : Reg) : Reg :=
  word m (unwState + L.stkletBoundary).toNat

/-- `unwind_land` on an architecture. -/
def unwindLandOn (P : Platform) (L : StateLayout) (s : Machine n) : Machine n :=
  let unwinderStkletPtr := A.boundToStkletMeta s.ctxt.tls.stkletBound
  let unwState := s.tf.r0
  let landAddr := s.tf.r1
  let prevSp := (L.regs s.mem unwState).gp .sp - BitVec.ofNat 32 A.trapFrameSize
  let m := setWord s.mem (prevSp.toNat + 28) (s.tf.xpsr &&& ~~~padBit)
  let m := setWord m prevSp.toNat ((L.regs m unwState).gp .r0)
  let m := setWord m (prevSp.toNat + 24) landAddr
  { s with
    heap :=
      ⟨mcuFree P { s.heap.heap with mem := m } unwinderStkletPtr,
        s.heap.live.filter fun a => a.1 ≠ unwinderStkletPtr⟩
    ctxt := ⟨prevSp, { s.ctxt.tls with stkletBound := L.boundary m unwState }⟩ }

-- ---------------------------------------------------------------------------
-- The entry sequences
-- ---------------------------------------------------------------------------

/-- Where a sequence ends, or is interrupted by a call. -/
inductive Stop (n : Nat) where
  /-- `rest` is what runs when the function returns. -/
  | called (callee : Callee) (c : EntryCpu n) (rest : List EntryInstr)
  | jumped (addr : Reg) (c : EntryCpu n)

section Run

variable (P : Platform) (L : StateLayout) (cfg : Task.Config) (prog : Reg → BitVec 16)

/-- The supervisor call for a stacklet. A supervisor call from an interrupt handler is an error. -/
def EntryCpu.svcPrepare (c : EntryCpu n) (next : Reg) : Option (Reg × EntryCpu n) :=
  if c.ipsr ≠ 0 then none
  else (A.moreStack (mcuMalloc P) cfg prog .unwind (c.svcEnter A next)).map fun o =>
    c.svcReturn A o.machine

def EntryCpu.svcLand (c : EntryCpu n) (next : Reg) : Option (Reg × EntryCpu n) :=
  if c.ipsr ≠ 0 then none else some (c.svcReturn A (unwindLandOn A P L (c.svcEnter A next)))

/-- Run the instructions, or with `skip` those from a label on. -/
def runEntry : Option Nat → List EntryInstr → EntryCpu n → Option (Stop n)
  | _, [], _ => none
  | some k, .label k' :: is, c => runEntry (if k' = k then none else some k) is c
  | some k, _ :: is, c => runEntry (some k) is c
  | none, .op o :: is, c => runEntry none is (c.op o)
  | none, .label _ :: is, c => runEntry none is c
  | none, .cbnz rn k :: is, c => runEntry (if c.reg rn = 0 then none else some k) is c
  | none, .bne k :: is, c => runEntry (if c.zero then none else some k) is c
  | none, .svcPrepare next :: is, c =>
    (c.svcPrepare A P cfg prog next).bind fun (pc, c) =>
      -- The two half-words are not instructions.
      if pc = next + 4 then runEntry none is c else some (.jumped pc c)
  | none, .svcLand next :: _, c => (c.svcLand A P L next).map fun (pc, c) => .jumped pc c
  | none, .bl callee :: is, c => some (.called callee c is)
  | none, .bx rn :: _, c => some (.jumped (c.reg rn) c)

end Run

/-- Skip to a label unless the code runs in a task. -/
def skipInIsr (k : Nat) : List EntryInstr :=
  match A with
  | .armv7em => [.op (.mrsIpsr .r3), .cbnz .r3 k]
  | .armv6m => [.op (.mrsIpsr .r3), .op (.cmp .r3 0), .bne k]

/-- The end of both sequences, when `resume_unwind` has returned. -/
def landingCode (land : Reg) : List EntryInstr :=
  match A with
  | .armv7em =>
    [.op (.pop [.r0, .r1, .r2, .r3]),
     .op (.add .r2 4),
     .op (.ldmia .r2 false [.r4, .r5, .r6, .r7, .r8, .r9, .r10, .r11]),
     .op (.vldmia .r3 s16s31)] ++
    skipInIsr .armv7em 1 ++
    [.svcLand land,
     .label 1,
     .op (.ldrSp .r2 32),
     .bx .r1]
  | .armv6m =>
    [.op (.pop [.r0, .r1, .r2, .r3]),
     .op (.add .r2 20),
     .op (.ldmia .r2 true [.r4, .r5, .r6, .r7]),
     .op (.mov .r8 .r4),
     .op (.mov .r9 .r5),
     .op (.mov .r10 .r6),
     .op (.mov .r11 .r7),
     .op (.sub .r2 32),
     .op (.ldmia .r2 true [.r4, .r5, .r6, .r7])] ++
    skipInIsr .armv6m 1 ++
    [.svcLand land,
     .label 1,
     .op (.add .r2 16),
     .op (.ldr .r2 .r2),
     .op (.movToSp .r2),
     .bx .r1]

/-- The size of `UnwindInitContext`. -/
def contextSize : Nat :=
  match A with
  | .armv7em => 112
  | .armv6m => 48

/-- From the return of `create_unwind_state` to the call of `resume_unwind`. -/
def resuming : List EntryInstr :=
  match A with
  | .armv7em => [.op (.addSp 96), .op (.movFromSp .r1), .bl .resumeUnwind]
  | .armv6m => [.op (.addSp 32), .op (.movFromSp .r1), .bl .resumeUnwind]

/-- Store an `UnwindInitContext` on the stack. -/
def pushContext : List EntryInstr :=
  match A with
  | .armv7em =>
    [.op (.vpush s16s31),
     .op (.push [.r0, .r1, .r2, .r3]),
     .op (.push [.r4, .r5, .r6, .r7, .r8, .r9, .r10, .r11])]
  | .armv6m =>
    [.op (.push [.r0, .r1, .r2, .r3]),
     .op (.mov .r0 .r8),
     .op (.mov .r1 .r9),
     .op (.mov .r2 .r10),
     .op (.mov .r3 .r11),
     .op (.push [.r0, .r1, .r2, .r3]),
     .op (.push [.r4, .r5, .r6, .r7])]

def startUnwindEntry (prep land : Reg) : List EntryInstr :=
  [.op (.mov .r0 .lr),
   .op (.movFromSp .r1),
   .op (.const .r2 tlsMemAddr),
   .op (.ldr .r2 .r2)] ++
  skipInIsr A 0 ++
  [.svcPrepare prep,
   .label 0,
   .op (.const .r3 tlsMemAddr),
   .op (.ldr .r3 .r3)] ++
  pushContext A ++
  [.op (.movFromSp .r0),
   .bl .createUnwindState] ++
  resuming A ++ landingCode A land

/-- `_Unwind_Resume`. -/
def unwindResumeEntry (prep land : Reg) : List EntryInstr :=
  skipInIsr A 0 ++
  [.svcPrepare prep,
   .label 0,
   .op (.subSp 16),
   .op (.movFromSp .r1),
   .bl .resumeUnwind] ++
  landingCode A land

-- ---------------------------------------------------------------------------
-- The initial context
-- ---------------------------------------------------------------------------

structure UnwindInitContext where
  r4 : Reg
  r5 : Reg
  r6 : Reg
  r7 : Reg
  r8 : Reg
  r9 : Reg
  r10 : Reg
  r11 : Reg
  lr : Reg
  sp : Reg
  beforeUnwindStkletBound : Reg
  unwinderStkletBound : Reg
  /-- On armv6m there are none, and the unwind state keeps its zeros. -/
  d : ARMDPFPReg → BitVec 64

def UnwindInitContext.load (m : Mem) (a : Nat) : UnwindInitContext where
  r4 := word m a
  r5 := word m (a + 4)
  r6 := word m (a + 8)
  r7 := word m (a + 12)
  r8 := word m (a + 16)
  r9 := word m (a + 20)
  r10 := word m (a + 24)
  r11 := word m (a + 28)
  lr := word m (a + 32)
  sp := word m (a + 36)
  beforeUnwindStkletBound := word m (a + 40)
  unwinderStkletBound := word m (a + 44)
  d r :=
    match A with
    | .armv7em => doubleWord m (a + 48 + 8 * r.index)
    | .armv6m => 0

/-- The state that `create_unwind_state` makes from its argument. -/
def createUnwindState (getForPc : Reg → Except String UnwindAbility) (initCtxt : UnwindInitContext) :
    Option UnwindState :=
  let gp : ARMGPReg → Reg
    | .r0 => 0
    | .r4 => initCtxt.r4
    | .r5 => initCtxt.r5
    | .r6 => initCtxt.r6
    | .r7 => initCtxt.r7
    | .r8 => initCtxt.r8
    | .r9 => initCtxt.r9
    | .r10 => initCtxt.r10
    | .r11 => initCtxt.r11
    | .sp => initCtxt.sp
    | .lr => initCtxt.lr
    | .pc => initCtxt.lr - 2
  match getForPc (initCtxt.lr - 2) with
  | .ok unwAbility => some ⟨⟨gp, initCtxt.d⟩, unwAbility, initCtxt.beforeUnwindStkletBound, true⟩
  | .error _ => none

/-- The registers of a function that makes a call, as the unwinder sees them from the callee. The
program counter is in the call instruction, behind which the link register points. -/
def EntryCpu.regs (c : EntryCpu n) : Regs where
  gp
    | .r0 => 0
    | .r4 => c.reg .r4
    | .r5 => c.reg .r5
    | .r6 => c.reg .r6
    | .r7 => c.reg .r7
    | .r8 => c.reg .r8
    | .r9 => c.reg .r9
    | .r10 => c.reg .r10
    | .r11 => c.reg .r11
    | .sp => c.sp
    | .lr => c.reg .lr
    | .pc => c.reg .lr - 2
  dpfp d :=
    match A with
    | .armv7em => (s16s31.map c.fp).getD (2 * d.index + 1) 0 ++ (s16s31.map c.fp).getD (2 * d.index) 0
    | .armv6m => 0

-- ---------------------------------------------------------------------------
-- The top of the stack
-- ---------------------------------------------------------------------------

/-- The words from the stack pointer on. -/
def EntryCpu.Holds (c : EntryCpu n) (vs : List Reg) : Prop := loadWords c.mem c.sp.toNat vs.length = vs

/-- The words were pushed since `c`, and nothing else has changed in memory. -/
structure Pushed (c c' : EntryCpu n) (vs : List Reg) : Prop where
  holds : c'.Holds vs
  sp : c'.sp.toNat + 4 * vs.length = c.sp.toNat
  outside : ∀ y, y < c'.sp.toNat ∨ c.sp.toNat ≤ y → c'.mem y = c.mem y
  live : c'.machine.heap.live = c.machine.heap.live

variable {A} {P : Platform} {L : StateLayout} {cfg : Task.Config} {prog : Reg → BitVec 16}
  {c c' : EntryCpu n} {vs ws : List Reg} {sp : Reg}

theorem Pushed.nil : Pushed c c [] := ⟨rfl, rfl, fun _ _ => rfl, rfl⟩

theorem Pushed.push (h : Pushed c c' ws) (vs : List Reg) (hroom : 4 * (vs.length + ws.length) ≤ c.sp.toNat) :
    Pushed c (c'.pushWords vs) (vs ++ ws) := by
  obtain ⟨hholds, hsp, houtside, hlive⟩ := h
  have hsp' : (c'.pushWords vs).sp.toNat = c'.sp.toNat - 4 * vs.length := by
    simp only [EntryCpu.pushWords, BitVec.toNat_sub, BitVec.toNat_ofNat]
    omega
  have hmem : (c'.pushWords vs).mem = Interrupt.storeWords c'.mem (c'.pushWords vs).sp.toNat vs := rfl
  have hkeep : ∀ y, y < (c'.pushWords vs).sp.toNat ∨ c'.sp.toNat ≤ y →
      (c'.pushWords vs).mem y = c'.mem y := by
    intro y hy
    rw [hmem]
    exact storeWords_outside (by omega)
  have hold : loadWords (c'.pushWords vs).mem c'.sp.toNat ws.length = ws := by
    rw [loadWords_congr fun y hy _ => hkeep y (.inr hy)]
    exact hholds
  refine ⟨?_, ?_, fun y hy => ?_, hlive⟩
  · rw [EntryCpu.Holds, List.length_append, loadWords_append, hmem, loadWords_storeWords, ← hmem,
      show (c'.pushWords vs).sp.toNat + 4 * vs.length = c'.sp.toNat by omega, hold]
  · rw [List.length_append]
    omega
  · rw [hkeep y (by omega), houtside y (by omega)]

theorem Pushed.word (h : Pushed c c' vs) {i : Nat} {v : Reg} (hi : vs[i]? = some v) :
    word c'.mem (c'.sp.toNat + 4 * i) = v := by
  have hlt : i < vs.length := List.getElem?_eq_some_iff.mp hi |>.1
  have hload := loadWords_getElem? (m := c'.mem) (a := c'.sp.toNat) hlt
  rw [h.holds, hi] at hload
  exact (Option.some.inj hload).symm

-- ---------------------------------------------------------------------------
-- The context that is stored
-- ---------------------------------------------------------------------------

/-- The words that `pushContext` stores. -/
def EntryCpu.contextWords (A : Task.Arch) (c : EntryCpu n) : List Reg :=
  [Core.r4, .r5, .r6, .r7, .r8, .r9, .r10, .r11].map c.reg ++ ([Core.r0, .r1, .r2, .r3].map c.reg ++
    match A with
    | .armv7em => s16s31.map c.fp
    | .armv6m => [])

theorem length_contextWords : 4 * (c.contextWords A).length = contextSize A := by
  cases A <;> rfl

variable (P L cfg prog) in
theorem runEntry_pushContext (hroom : contextSize A ≤ c.sp.toNat) : ∃ c', Pushed c c' (c.contextWords A) ∧
    ∀ rest, runEntry A P L cfg prog none (pushContext A ++ rest) c = runEntry A P L cfg prog none rest c' := by
  cases A with
  | armv7em =>
    simp only [contextSize] at hroom
    have hfp : Pushed c (c.pushWords (s16s31.map c.fp)) (s16s31.map c.fp ++ []) :=
      Pushed.nil.push (s16s31.map c.fp) (by simp [s16s31]; omega)
    rw [List.append_nil] at hfp
    have hlow := hfp.push ([Core.r0, .r1, .r2, .r3].map c.reg) (by simp [s16s31]; omega)
    exact ⟨_, hlow.push ([Core.r4, .r5, .r6, .r7, .r8, .r9, .r10, .r11].map c.reg)
      (by simp [s16s31]; omega), fun rest => rfl⟩
  | armv6m =>
    simp only [contextSize] at hroom
    have hlow : Pushed c (c.pushWords ([Core.r0, .r1, .r2, .r3].map c.reg))
        ([Core.r0, .r1, .r2, .r3].map c.reg ++ []) :=
      Pushed.nil.push ([Core.r0, .r1, .r2, .r3].map c.reg) (by simp; omega)
    -- The high registers go through the low ones.
    have hhigh := hlow.push ([Core.r8, .r9, .r10, .r11].map c.reg) (by simp; omega)
    have hall := hhigh.push ([Core.r4, .r5, .r6, .r7].map c.reg) (by simp; omega)
    refine ⟨_, ?_, fun rest => rfl⟩
    exact ⟨hall.holds, hall.sp, hall.outside, hall.live⟩

/-- The code before the supervisor call has put what the trap frame will not keep into `r0` to `r2`. -/
structure Carries (c c' : EntryCpu n) : Prop where
  lr : c'.reg .r0 = c.reg .lr
  sp : c'.reg .r1 = c.sp
  bound : c'.reg .r2 = word c.mem tlsMemAddr.toNat
  callee : ∀ r ∈ [Core.r4, .r5, .r6, .r7, .r8, .r9, .r10, .r11], c'.reg r = c.reg r
  fp : c'.fp = c.fp

/-- `create_unwind_state` gets the registers of the panic. -/
theorem createUnwindState_context (getForPc : Reg → Except String UnwindAbility) {a : EntryCpu n}
    (hcarries : Carries c a) (hpushed : Pushed a c' (a.contextWords A)) :
    createUnwindState getForPc (UnwindInitContext.load A c'.mem c'.sp.toNat) =
      match getForPc (c.reg .lr - 2) with
      | .ok unwAbility => some ⟨c.regs A, unwAbility, word c.mem tlsMemAddr.toNat, true⟩
      | .error _ => none := by
  obtain ⟨hlr, hsp, hbound, hcallee, hfp⟩ := hcarries
  simp only [List.mem_cons, List.not_mem_nil, or_false, forall_eq_or_imp, forall_eq] at hcallee
  obtain ⟨h4, h5, h6, h7, h8, h9, h10, h11⟩ := hcallee
  have hd : (UnwindInitContext.load A c'.mem c'.sp.toNat).d = (c.regs A).dpfp := by
    funext d
    cases A with
    | armv6m => rfl
    | armv7em =>
      have hlow : (a.contextWords .armv7em)[12 + 2 * d.index]? =
          some ((s16s31.map c.fp).getD (2 * d.index) 0) := by
        rw [← hfp]
        cases d <;> rfl
      have hhigh : (a.contextWords .armv7em)[13 + 2 * d.index]? =
          some ((s16s31.map c.fp).getD (2 * d.index + 1) 0) := by
        rw [← hfp]
        cases d <;> rfl
      have hlow' := hpushed.word hlow
      have hhigh' := hpushed.word hhigh
      rw [show c'.sp.toNat + 4 * (12 + 2 * d.index) = c'.sp.toNat + 48 + 8 * d.index by omega] at hlow'
      rw [show c'.sp.toNat + 4 * (13 + 2 * d.index) = c'.sp.toNat + 48 + 8 * d.index + 4 by omega] at hhigh'
      simp only [UnwindInitContext.load, doubleWord, EntryCpu.regs, hlow', hhigh']
  have hload : UnwindInitContext.load A c'.mem c'.sp.toNat =
      ⟨c.reg .r4, c.reg .r5, c.reg .r6, c.reg .r7, c.reg .r8, c.reg .r9, c.reg .r10, c.reg .r11, c.reg .lr,
        c.sp, word c.mem tlsMemAddr.toNat, a.reg .r3, (c.regs A).dpfp⟩ := by
    have hword : ∀ (i : Nat) (v : Reg), (a.contextWords A)[i]? = some v →
        word c'.mem (c'.sp.toNat + 4 * i) = v := fun i v hi => hpushed.word hi
    rw [← hd, ← h4, ← h5, ← h6, ← h7, ← h8, ← h9, ← h10, ← h11, ← hlr, ← hsp, ← hbound]
    simp only [UnwindInitContext.load, UnwindInitContext.mk.injEq]
    exact ⟨hword 0 (a.reg .r4) rfl, hword 1 (a.reg .r5) rfl, hword 2 (a.reg .r6) rfl, hword 3 (a.reg .r7) rfl,
      hword 4 (a.reg .r8) rfl, hword 5 (a.reg .r9) rfl, hword 6 (a.reg .r10) rfl, hword 7 (a.reg .r11) rfl,
      hword 8 (a.reg .r0) rfl, hword 9 (a.reg .r1) rfl, hword 10 (a.reg .r2) rfl, hword 11 (a.reg .r3) rfl, trivial⟩
  rw [hload]
  rfl

-- ---------------------------------------------------------------------------
-- The trap frame
-- ---------------------------------------------------------------------------

variable {pc : Reg} {st : Nat × Nat} {m : Machine n}

theorem toNat_framePtr (h : A.trapFrameSize + trapFramePadSize ≤ sp.toNat) :
    (framePtr A sp).toNat + A.trapFrameSize + (if padded sp then trapFramePadSize else 0) = sp.toNat := by
  have hle : A.trapFrameSize ≤ 104 := by cases A <;> decide
  have hlt := sp.isLt
  simp only [trapFramePadSize] at h
  simp only [framePtr, BitVec.toNat_sub, BitVec.toNat_ofNat, trapFramePadSize]
  split <;> omega

/-- The frame says whether it has a padding. -/
theorem tfSize_pushed (A : Task.Arch) (p : Bool) (xpsr : Reg) :
    A.tfSize (if p then xpsr ||| padBit else xpsr &&& ~~~padBit) =
      A.trapFrameSize + if p then trapFramePadSize else 0 := by
  cases p with
  | false => simpa using A.tfSize_and_not_padBit xpsr
  | true =>
    have hset : (xpsr ||| padBit) &&& padBit = padBit := by
      ext i hi
      rw [BitVec.getElem_and, BitVec.getElem_or]
      cases xpsr[i] <;> cases padBit[i] <;> rfl
    have hne : padBit ≠ 0 := by decide
    simp only [Task.Arch.tfSize, ↓reduceIte, hset, if_pos hne]

theorem length_frameWords (c : EntryCpu n) (pc : Reg) : 4 * (c.frameWords A pc).length ≤ A.trapFrameSize := by
  cases A <;> simp [EntryCpu.frameWords, s0s15, Task.Arch.trapFrameSize]

/-- The words of the frame that the handler finds. -/
theorem word_svcEnter {i : Nat} {v : Reg} (hi : (c.frameWords A pc)[i]? = some v) :
    word (c.svcEnter A pc).mem ((c.svcEnter A pc).ctxt.sp.toNat + 4 * i) = v :=
  word_storeWords hi

theorem svcEnter_outside (h : A.trapFrameSize + trapFramePadSize ≤ c.sp.toNat) {y : Nat}
    (hy : y < c.sp.toNat - A.trapFrameSize - trapFramePadSize ∨ c.sp.toNat ≤ y) :
    (c.svcEnter A pc).mem y = c.mem y := by
  have hframe := toNat_framePtr h
  have hlen := length_frameWords (A := A) c pc
  refine storeWords_outside ?_
  simp only [trapFramePadSize] at hframe hy
  split at hframe <;> omega

/-- What a supervisor call needs of the stacklet `st` that a task runs on. -/
structure OnStacklet (A : Task.Arch) (P : Platform) (c : EntryCpu n) (st : Nat × Nat) : Prop where
  task : c.ipsr = 0
  heap : ∃ cs ls, c.machine.heap.Inv P cs ls
  tls : tlsMemAddr.toNat + 12 ≤ c.machine.heap.heap.heapStart
  live : st ∈ c.machine.heap.live
  bound : word c.mem tlsMemAddr.toNat = A.stkletPtrToBound st.1
  low : st.1 + metaSize + A.trapFrameSize + trapFramePadSize ≤ c.sp.toNat
  high : c.sp.toNat ≤ st.1 + st.2

theorem OnStacklet.inside (h : OnStacklet A P c st) :
    c.machine.heap.heap.heapStart ≤ st.1 ∧ st.1 + st.2 < 2 ^ 32 := by
  obtain ⟨cs, ls, hinv⟩ := h.heap
  obtain ⟨-, hlo, hhi⟩ := hinv.fits st h.live
  have := hinv.heap.valid.ramEnd_lt
  omega

theorem OnStacklet.svcEnter_heap (h : OnStacklet A P c st) (pc : Reg) :
    ∃ cs ls, (c.svcEnter A pc).heap.Inv P cs ls := by
  obtain ⟨cs, ls, hinv⟩ := h.heap
  have hlow := h.low
  have hhigh := h.high
  simp only [metaSize] at hlow
  have hsame : ∀ y, Outside st y → (c.svcEnter A pc).mem y = c.mem y := fun y hy => by
    simp only [Outside] at hy
    exact svcEnter_outside (by omega) (by omega)
  obtain ⟨cs', hinv'⟩ := hinv.overwrite h.live hsame
  exact ⟨cs', ls, hinv'⟩

/-- The handler finds the local storage of the task. -/
theorem OnStacklet.svcEnter_tls (h : OnStacklet A P c st) (pc : Reg) :
    (c.svcEnter A pc).ctxt.tls = Interrupt.TaskLocalStorage.load c.mem tlsMemAddr.toNat := by
  have hlow := h.low
  have htls := h.tls
  have hst := h.inside
  simp only [metaSize] at hlow
  have hkeep : c.mem.AgreeOn (c.svcEnter A pc).mem tlsMemAddr.toNat (tlsMemAddr.toNat + 12) :=
    fun y _ hy => svcEnter_outside (by omega) (.inl (by omega))
  exact Interrupt.TaskLocalStorage.load_congr hkeep

/-- The program counter in the trap frame. -/
theorem svcEnter_pc (c : EntryCpu n) (pc : Reg) : (c.svcEnter A pc).tf.pc = pc := word_svcEnter (i := 6) rfl

theorem svcEnter_argSize (hargs : prog (pc + 2) = 0) : (c.svcEnter A pc).argSize prog = 0 := by
  rw [Machine.argSize, getStackArgSize, svcEnter_pc, hargs]
  rfl

/-- The size of the frame that the supervisor call asks for. -/
def EntryCpu.request (c : EntryCpu n) (prog : Reg → BitVec 16) (next : Reg) : Reg :=
  match c.machine.scb with
  | some scb => scaledFrameSize scb (c.reg .lr) ((prog next).zeroExtend 32 * 4)
  | none => (prog next).zeroExtend 32 * 4

theorem svcEnter_frameSize : (c.svcEnter A pc).frameSize prog = c.request prog pc := by
  have hlr : (c.svcEnter A pc).tf.lr = c.reg .lr := word_svcEnter (i := 5) rfl
  have hscb : (c.svcEnter A pc).scb = c.machine.scb := rfl
  simp only [Machine.frameSize, getStackFrameSize, svcEnter_pc, hlr, hscb]
  rfl

/-- The caller of `more_stack` is the code before the supervisor call. -/
theorem OnStacklet.caller (h : OnStacklet A P c st) (hargs : prog (pc + 2) = 0) :
    A.Caller prog (c.svcEnter A pc) st := by
  have hlow := h.low
  have hhigh := h.high
  simp only [metaSize] at hlow
  have hframe := toNat_framePtr (A := A) (show A.trapFrameSize + trapFramePadSize ≤ c.sp.toNat by omega)
  have hxpsr : (c.svcEnter A pc).tf.xpsr =
      if padded c.sp then c.xpsr ||| padBit else c.xpsr &&& ~~~padBit := word_svcEnter (i := 7) rfl
  have hsp : (c.svcEnter A pc).ctxt.sp = framePtr A c.sp := rfl
  refine ⟨h.live, ?_, ?_, ?_, h.inside.2⟩
  · rw [h.svcEnter_tls]
    exact h.bound
  · rw [hsp]
    simp only [metaSize]
    simp only [trapFramePadSize] at hframe hlow
    split at hframe <;> omega
  · rw [hxpsr, tfSize_pushed, svcEnter_argSize hargs, hsp]
    have hnone : (0 : Reg).toNat = 0 := rfl
    omega

-- ---------------------------------------------------------------------------
-- A stacklet for the unwinder
-- ---------------------------------------------------------------------------

/-- The code goes on with its registers on the stacklet `new`, which has room for a frame. What is on
the other stacklets is left alone: on `st`, that is what is not free. -/
structure Moved (A : Task.Arch) (c c' : EntryCpu n) (st new : Nat × Nat) (frameSize : Nat) : Prop where
  live : c'.machine.heap.live = new :: c.machine.heap.live
  inside : c.machine.heap.heap.heapStart ≤ new.1
  apart : ∀ b ∈ c.machine.heap.live, Apart new b
  bound : word c'.mem tlsMemAddr.toNat = A.stkletPtrToBound new.1
  room : new.1 + A.overheadSize + frameSize ≤ c'.sp.toNat ∧ c'.sp.toNat ≤ new.1 + new.2
  reg : ∀ r, r ≠ .lr → c'.reg r = c.reg r
  fp : c'.fp = c.fp
  ipsr : c'.ipsr = c.ipsr
  kept : ∀ b ∈ c.machine.heap.live, ∀ y, b.1 ≤ y → y < b.1 + b.2 → Outside (st.1 + 8, 4) y →
    Outside (st.1 + metaSize, c.sp.toNat - (st.1 + metaSize)) y → c'.mem y = c.mem y

variable {next : Reg}

/-- What the allocator gives to `more_stack`. -/
theorem OnStacklet.grown (h : OnStacklet A P c st) (hargs : prog (next + 2) = 0)
    (hfits : A.SizeFits cfg ((c.svcEnter A next).frameSize prog) 0)
    (hmore : A.moreStack (mcuMalloc P) cfg prog .unwind (c.svcEnter A next) = some (.extended m)) :
    ∃ ptr, A.CallFrame cfg prog (c.svcEnter A next) m ptr ∧ c.machine.heap.heap.heapStart ≤ ptr ∧
      ptr + (A.totalSize cfg ((c.svcEnter A next).frameSize prog) 0).toNat < 2 ^ 32 ∧
      ∀ b ∈ c.machine.heap.live,
        Apart (ptr, (A.totalSize cfg ((c.svcEnter A next).frameSize prog) 0).toNat) b ∧
          ∀ y, b.1 ≤ y → y < b.1 + b.2 → Outside (st.1 + 8, 4) y → m.mem y = (c.svcEnter A next).mem y := by
  have hcaller := h.caller hargs
  have hinside := h.inside
  obtain ⟨cs, ls, hinv⟩ := h.svcEnter_heap next
  have halloc := allocates_mcuMalloc hinv h.live
  have hzero := svcEnter_argSize (A := A) (c := c) hargs
  obtain ⟨ptr, hframe⟩ := (Task.Arch.moreStack_callFrame halloc hcaller hmore).mpr (by rwa [hzero])
  obtain ⟨mem, heap, ptr', hmem, hgrown⟩ := Task.Arch.moreStack_grown hmore
  obtain rfl : ptr = ptr' := congrArg Prod.fst (List.cons.inj (hframe.live.symm.trans hgrown.live)).1
  rw [hcaller.bound, Task.Arch.boundToStkletMeta_stkletPtrToBound (by omega)] at hmem
  have hlow := h.low
  have hhigh := h.high
  simp only [metaSize] at hlow
  have hsame : ∀ y, Outside st y → mem y = (c.svcEnter A next).mem y := fun y hy => hmem y (by
    simp only [Outside] at hy ⊢
    omega)
  rw [hzero] at hgrown
  obtain ⟨hend, hkeep⟩ := halloc mem _ heap ptr hsame hgrown.size hgrown.alloc_eq hgrown.ptr_ne
  obtain ⟨cs', hinv'⟩ := hinv.overwrite h.live hsame
  obtain ⟨-, hstart, -⟩ := (hinv'.safe.returned _ heap ptr (by have := hgrown.size; omega)
    hgrown.alloc_eq hgrown.ptr_ne).1
  refine ⟨ptr, hframe, hstart, hend, fun b hb => ⟨(hkeep b hb).1, fun y hlo hhi hcnt => ?_⟩⟩
  obtain ⟨hapart, hbytes⟩ := hkeep b hb
  obtain ⟨tls, hfill⟩ := hgrown.mem_eq
  rw [hfill, Task.Arch.fillStacklet_outside _ hfits hend (by simp only [Apart] at hapart; simp only [Outside]; omega),
    hbytes y hlo hhi, hmem y hcnt]

theorem frameWords_getElem? {i : Nat} {r : Core}
    (h : [Core.r0, .r1, .r2, .r3, .r12, .lr][i]? = some r) : (c.frameWords A pc)[i]? = some (c.reg r) := by
  have hlt : i < 6 := (List.getElem?_eq_some_iff.mp h).1
  have hwords : c.frameWords A pc =
      [Core.r0, .r1, .r2, .r3, .r12, .lr].map c.reg ++ (c.frameWords A pc).drop 6 := rfl
  rw [hwords, List.getElem?_append_left (by simpa using hlt), List.getElem?_map, h]
  rfl

theorem frame_fp (c : EntryCpu n) (pc : Reg) (i : Fin 32) (hi : i.val < 16) :
    s0s15[i.val]? = some i ∧ (c.frameWords .armv7em pc)[8 + i.val]? = some (c.fp i) := by
  have hplace : ∀ i : Fin 32, i.val < 16 → s0s15[i.val]? = some i := by decide
  have hwords : c.frameWords .armv7em pc =
      (c.frameWords .armv7em pc).take 8 ++ (s0s15.map c.fp ++ [c.fpscr]) := rfl
  have hlen : ((c.frameWords .armv7em pc).take 8).length = 8 := rfl
  refine ⟨hplace i hi, ?_⟩
  rw [hwords, List.getElem?_append_right (by omega), hlen, Nat.add_sub_cancel_left,
    List.getElem?_append_left (by simpa [s0s15] using hi), List.getElem?_map, hplace i hi]
  rfl

/-- The floating point registers that the trap frame has. -/
theorem setAll_fpWords {pc : Reg} {mem : Mem} {a : Nat}
    (hwords : ∀ i v, 8 ≤ i → (c.frameWords .armv7em pc)[i]? = some v → word mem (a + 4 * i) = v) :
    setAll c.fp s0s15 (loadWords mem (a + 32) 16) = c.fp := by
  funext i
  by_cases hi : i.val < 16
  · obtain ⟨hplace, hget⟩ := frame_fp c pc i hi
    have hvalue := hwords (8 + i.val) _ (by omega) hget
    rw [show a + 4 * (8 + i.val) = a + 32 + 4 * i.val by omega] at hvalue
    refine setAll_of_getElem? (i := i.val) (by decide) hplace ?_
    rw [loadWords_getElem? hi]
    exact congrArg some hvalue
  · have hout : ∀ i : Fin 32, ¬ i.val < 16 → i ∉ s0s15 := by decide
    exact setAll_of_not_mem (hout i hi)

/-- The registers that the hardware keeps in the trap frame. -/
theorem setAll_frame {f : Core → Reg} {vs : List Reg} (h : ∀ i < 5, ∀ r,
    [Core.r0, .r1, .r2, .r3, .r12][i]? = some r → vs[i]? = some (f r)) {r : Core} (hr : r ≠ .lr) :
    setAll f [.r0, .r1, .r2, .r3, .r12, .lr] vs r = f r := by
  by_cases hmem : r ∈ [Core.r0, .r1, .r2, .r3, .r12]
  · obtain ⟨i, hi⟩ := List.mem_iff_getElem?.mp hmem
    have hlt : i < 5 := (List.getElem?_eq_some_iff.mp hi).1
    refine setAll_of_getElem? (i := i) (by decide) ?_ (h i hlt r hi)
    rw [show [Core.r0, .r1, .r2, .r3, .r12, .lr] = [Core.r0, .r1, .r2, .r3, .r12] ++ [.lr] from rfl,
      List.getElem?_append_left hlt, hi]
  · refine setAll_of_not_mem fun hin => hmem ?_
    rw [show [Core.r0, .r1, .r2, .r3, .r12, .lr] = [Core.r0, .r1, .r2, .r3, .r12] ++ [.lr] from rfl,
      List.mem_append] at hin
    exact hin.resolve_right (by simpa using hr)

/-- The supervisor call moves the unwinder to a stacklet of its own, with all registers but the link
register and the stack pointer. -/
theorem OnStacklet.prepared (h : OnStacklet A P c st) (hargs : prog (next + 2) = 0)
    (hfits : A.SizeFits cfg (c.request prog next) 0)
    (hrun : c.svcPrepare A P cfg prog next = some (pc, c')) :
    pc = next + 4 ∧ ∃ new, Moved A c c' st new (c.request prog next).toNat := by
  rw [← svcEnter_frameSize (A := A)] at hfits ⊢
  simp only [EntryCpu.svcPrepare, h.task, ne_eq, not_true_eq_false, if_false, Option.map_eq_some_iff] at hrun
  obtain ⟨o, hmore, hreturn⟩ := hrun
  obtain ⟨m, rfl⟩ := Task.Arch.moreStack_unwind hmore
  obtain ⟨ptr, hframe, hstart, hend, hkept⟩ := h.grown hargs hfits hmore
  have hzero := svcEnter_argSize (A := A) (c := c) hargs
  have htls := h.tls
  have hover := A.overheadSize_eq
  have hle := A.trapFrameSize_le
  obtain rfl : (c.svcReturn A m).1 = pc := congrArg Prod.fst hreturn
  obtain rfl : (c.svcReturn A m).2 = c' := congrArg Prod.snd hreturn
  have hinside := hframe.inside (m.ctxt.sp.toNat, A.trapFrameSize) (by simp)
  -- The local storage is not on the new stacklet.
  have hword : ∀ i, 4 * i + 4 ≤ A.trapFrameSize →
      word (Interrupt.storeWords m.mem tlsMemAddr.toNat [m.ctxt.tls.stkletBound, m.ctxt.tls.nestedDropCnt,
        m.ctxt.tls.unwindPending]) (m.ctxt.sp.toNat + 4 * i) = word m.mem (m.ctxt.sp.toNat + 4 * i) := by
    intro i hi
    apply word_storeWords_disjoint
    simp only [List.length_cons, List.length_nil]
    omega
  have hsaved : ∀ i v, 4 * i + 4 ≤ A.trapFrameSize → i ∉ [5, 6, 7] → (c.frameWords A next)[i]? = some v →
      word (Interrupt.storeWords m.mem tlsMemAddr.toNat [m.ctxt.tls.stkletBound, m.ctxt.tls.nestedDropCnt,
        m.ctxt.tls.unwindPending]) (m.ctxt.sp.toNat + 4 * i) = v := by
    intro i v hi hother hv
    rw [hword i hi, hframe.registers i (by omega) hother]
    exact word_svcEnter hv
  refine ⟨?_, (ptr, (A.totalSize cfg ((c.svcEnter A next).frameSize prog) 0).toNat), ?_, hstart,
    fun b hb => (hkept b hb).1, ?_, ?_, ?_, ?_, rfl, ?_⟩
  · rw [← svcEnter_pc (A := A) c next, ← hframe.pc]
    exact hword 6 (by omega)
  · rw [← hzero]
    exact hframe.live
  · rw [← hframe.bound]
    exact word_storeWords (i := 0) rfl
  · have hreturn : A.returnSp (Interrupt.storeWords m.mem tlsMemAddr.toNat [m.ctxt.tls.stkletBound,
        m.ctxt.tls.nestedDropCnt, m.ctxt.tls.unwindPending]) m.ctxt.sp = A.returnSp m.mem m.ctxt.sp := by
      rw [Task.Arch.returnSp, show m.ctxt.sp.toNat + 28 = m.ctxt.sp.toNat + 4 * 7 from rfl, hword 7 (by omega)]
      rfl
    have hroom := hframe.room
    have hargs' := hframe.inside ((A.returnSp m.mem m.ctxt.sp).toNat, ((c.svcEnter A next).argSize prog).toNat)
      (by simp)
    have htotal := hfits.toNat_totalSize
    have hnone : (0 : Reg).toNat = 0 := rfl
    rw [hframe.bound, Task.Arch.stkletPtrToBound, BitVec.toNat_ofNat] at hroom
    rw [hzero] at hargs'
    have hsp : (EntryCpu.svcReturn A c m).2.sp = A.returnSp m.mem m.ctxt.sp := hreturn
    rw [hsp]
    dsimp only at hargs' ⊢
    omega
  · intro r hr
    refine setAll_frame (fun i hi r hget => ?_) hr
    rw [loadWords_getElem? (by omega)]
    refine congrArg some (hsaved i _ (by omega) ?_ ?_)
    · simp only [List.mem_cons, List.not_mem_nil, or_false]
      omega
    · have hframed : ([Core.r0, .r1, .r2, .r3, .r12] ++ [.lr])[i]? = some r := by
        rw [List.getElem?_append_left hi, hget]
      exact frameWords_getElem? hframed
  · cases A with
    | armv6m => rfl
    | armv7em =>
      refine setAll_fpWords fun i v hi hv => hsaved i v ?_ ?_ hv
      · have hlt := (List.getElem?_eq_some_iff.mp hv).1
        have hlen := length_frameWords (A := .armv7em) c next
        omega
      · simp only [List.mem_cons, List.not_mem_nil, or_false]
        omega
  · intro b hb y hlo hhi hcnt hfree
    obtain ⟨cs, ls, hinv⟩ := h.heap
    obtain ⟨-, hb₁, -⟩ := hinv.fits b hb
    have hlow := h.low
    have hhigh := h.high
    simp only [metaSize] at hlow hfree
    simp only [Outside] at hfree
    have htask : (c.svcEnter A next).mem y = c.mem y := svcEnter_outside (by omega) (by omega)
    rw [← htask, ← (hkept b hb).2 y hlo hhi hcnt]
    refine storeWords_outside ?_
    simp only [List.length_cons, List.length_nil]
    omega

-- ---------------------------------------------------------------------------
-- Entering the unwinder
-- ---------------------------------------------------------------------------

/-- The unwinder can be entered, and gets a stack of at least `size` bytes: that of an interrupt
handler, or in a task on the stacklet `st` a stacklet of its own. -/
inductive CanEnter (A : Task.Arch) (P : Platform) (cfg : Task.Config) (prog : Reg → BitVec 16) (c : EntryCpu n)
    (prep : Reg) (size : Nat) : Option (Nat × Nat) → Prop
  | isr (hisr : c.ipsr ≠ 0) (hroom : size ≤ c.sp.toNat) : CanEnter A P cfg prog c prep size none
  | task (st : Nat × Nat) (hst : OnStacklet A P c st) (hargs : prog (prep + 2) = 0)
      (hfits : A.SizeFits cfg (c.request prog prep) 0) (hroom : size ≤ (c.request prog prep).toNat) :
      CanEnter A P cfg prog c prep size (some st)

/-- The unwinder was entered. An interrupt handler has nothing changed above its stack pointer, and
a task nothing that is not free. -/
inductive Entered (A : Task.Arch) (c c' : EntryCpu n) : Option (Nat × Nat) → Prop
  | isr (hlive : c'.machine.heap.live = c.machine.heap.live)
      (hkept : ∀ y, c.sp.toNat ≤ y → c'.mem y = c.mem y) : Entered A c c' none
  | task (st new : Nat × Nat) (hlive : c'.machine.heap.live = new :: c.machine.heap.live)
      (hbound : word c'.mem tlsMemAddr.toNat = A.stkletPtrToBound new.1)
      (hinside : new.1 + A.overheadSize ≤ c'.sp.toNat ∧ c'.sp.toNat ≤ new.1 + new.2)
      (hkept : ∀ b ∈ c.machine.heap.live, ∀ y, b.1 ≤ y → y < b.1 + b.2 → Outside (st.1 + 8, 4) y →
        Outside (st.1 + metaSize, c.sp.toNat - (st.1 + metaSize)) y → c'.mem y = c.mem y) :
      Entered A c c' (some st)

/-- The processor after the check of the interrupt number. -/
def EntryCpu.checked (A : Task.Arch) (c : EntryCpu n) : EntryCpu n :=
  match A with
  | .armv7em => c.op (.mrsIpsr .r3)
  | .armv6m => (c.op (.mrsIpsr .r3)).op (.cmp .r3 0)

theorem checked_reg {r : Core} (hr : r ≠ .r3) : (c.checked A).reg r = c.reg r := by
  cases A <;> exact Function.update_of_ne hr ..

@[simp] theorem checked_fp : (c.checked A).fp = c.fp := by cases A <;> rfl
@[simp] theorem checked_sp : (c.checked A).sp = c.sp := by cases A <;> rfl
@[simp] theorem checked_ipsr : (c.checked A).ipsr = c.ipsr := by cases A <;> rfl
@[simp] theorem checked_machine : (c.checked A).machine = c.machine := by cases A <;> rfl
@[simp] theorem checked_mem : (c.checked A).mem = c.mem := by cases A <;> rfl

theorem runEntry_skipInIsr (k : Nat) (rest : List EntryInstr) :
    runEntry A P L cfg prog none (skipInIsr A k ++ rest) c =
      runEntry A P L cfg prog (if c.ipsr = 0 then none else some k) rest (c.checked A) := by
  cases A with
  | armv7em => simp [skipInIsr, runEntry, EntryCpu.op, EntryCpu.checked]
  | armv6m => simp [skipInIsr, runEntry, EntryCpu.op, EntryCpu.checked]

/-- The code up to the label `0`, which both entry sequences have. -/
theorem runEntry_prepare {prep : Reg} {size : Nat} {st : Option (Nat × Nat)} {rest : List EntryInstr} {stop : Stop n}
    (h : CanEnter A P cfg prog c prep size st)
    (hrun : runEntry A P L cfg prog none (skipInIsr A 0 ++ (.svcPrepare prep :: .label 0 :: rest)) c = some stop) :
    ∃ c', runEntry A P L cfg prog none rest c' = some stop ∧ size ≤ c'.sp.toNat ∧
      (∀ r, r ≠ .lr → r ≠ .r3 → c'.reg r = c.reg r) ∧ c'.fp = c.fp ∧
      ∀ a vs, Pushed c' a vs → 4 * vs.length ≤ size → Entered A c a st := by
  rw [runEntry_skipInIsr] at hrun
  cases h with
  | isr hisr hroom =>
    rw [if_neg hisr] at hrun
    refine ⟨c.checked A, hrun, by simpa using hroom, fun r _ hr => checked_reg hr, checked_fp,
      fun a vs hpushed _ => .isr (by simpa using hpushed.live) fun y hy => ?_⟩
    rw [hpushed.outside y (.inr (by simpa using hy)), checked_mem]
  | task st hst hargs hfits hroom =>
    rw [if_pos hst.task] at hrun
    simp only [runEntry, Option.bind_eq_some_iff, Prod.exists] at hrun
    obtain ⟨pc, c₂, hprep, hrun⟩ := hrun
    have hst₁ : OnStacklet A P (c.checked A) st := by
      constructor <;> simp only [checked_ipsr, checked_machine, checked_mem, checked_sp]
      exacts [hst.task, hst.heap, hst.tls, hst.live, hst.bound, hst.low, hst.high]
    have hrequest : (c.checked A).request prog prep = c.request prog prep := by
      simp only [EntryCpu.request, checked_machine, checked_reg (show Core.lr ≠ .r3 by decide)]
    obtain ⟨rfl, new, hmoved⟩ := hst₁.prepared hargs (by rwa [hrequest]) hprep
    rw [if_pos rfl] at hrun
    rw [hrequest] at hmoved
    obtain ⟨hlive, hinside, hapart, hbound, ⟨hlow, hhigh⟩, hreg, hfp, -, hkept⟩ := hmoved
    simp only [checked_machine, checked_mem, checked_sp] at hlive hinside hapart hkept
    refine ⟨c₂, hrun, by omega, fun r hlr hr => (hreg r hlr).trans (checked_reg hr), hfp.trans checked_fp,
      fun a vs hpushed hvs => ?_⟩
    obtain ⟨-, hsp, houtside, hlive'⟩ := hpushed
    have htls := hst.tls
    refine .task st new (hlive'.trans hlive) ?_ (by omega) fun b hb y hlo hhi hcnt hfree => ?_
    · rw [← hbound]
      exact word_congr fun y _ hy => houtside y (by omega)
    · have hb' := hapart b hb
      simp only [Apart] at hb'
      rw [houtside y (by omega)]
      exact hkept b hb y hlo hhi hcnt hfree

section Registers

variable {f : Core → Reg} {prep land : Reg} {size : Nat} {place : Option (Nat × Nat)} {stop : Stop n}

/-- Only the link register matters to the supervisor call. -/
theorem CanEnter.setReg (h : CanEnter A P cfg prog c prep size place) (hlr : f .lr = c.reg .lr) :
    CanEnter A P cfg prog { c with reg := f } prep size place := by
  cases h with
  | isr hisr hroom => exact .isr hisr hroom
  | task st hst hargs hfits hroom =>
    have hrequest : EntryCpu.request { c with reg := f } prog prep = c.request prog prep := by
      simp only [EntryCpu.request, hlr]
    exact .task st ⟨hst.task, hst.heap, hst.tls, hst.live, hst.bound, hst.low, hst.high⟩ hargs
      (by rwa [hrequest]) (by rwa [hrequest])

theorem Entered.of_setReg (h : Entered A { c with reg := f } c' place) : Entered A c c' place := by
  cases h with
  | isr hlive hkept => exact .isr hlive hkept
  | task st new hlive hbound hinside hkept => exact .task st new hlive hbound hinside hkept

/-- A function that panics enters the unwinder: `create_unwind_state` gets its registers and the boundary
of its stacklet, and `resume_unwind` gets the state and the space for the `LandInfo` on the stack. -/
theorem startUnwindEntry_creates (getForPc : Reg → Except String UnwindAbility)
    (h : CanEnter A P cfg prog c prep (contextSize A) place)
    (hrun : runEntry A P L cfg prog none (startUnwindEntry A prep land) c = some stop) :
    ∃ c₁, Entered A c c₁ place ∧ stop = .called .createUnwindState c₁ (resuming A ++ landingCode A land) ∧
      createUnwindState getForPc (UnwindInitContext.load A c₁.mem (c₁.reg .r0).toNat) =
        (getForPc (c.reg .lr - 2)).toOption.map
          (fun unwAbility => ⟨c.regs A, unwAbility, word c.mem tlsMemAddr.toNat, true⟩) ∧
      ∀ c₂ : EntryCpu n, c₂.sp = c₁.sp → ∃ c₃,
        runEntry A P L cfg prog none (resuming A ++ landingCode A land) c₂ =
            some (.called .resumeUnwind c₃ (landingCode A land)) ∧
          c₃.reg .r0 = c₂.reg .r0 ∧ c₃.reg .r1 = c₃.sp ∧ c₃.machine = c₂.machine ∧
          c₃.sp + 16 = c₁.sp + BitVec.ofNat 32 (contextSize A) := by
  let f : Core → Reg := Function.update (Function.update (Function.update (Function.update c.reg .r0 (c.reg .lr))
    .r1 c.sp) .r2 tlsMemAddr) .r2 (word c.mem tlsMemAddr.toNat)
  have hf : runEntry A P L cfg prog none (skipInIsr A 0 ++ (.svcPrepare prep :: .label 0 ::
      ([.op (.const .r3 tlsMemAddr), .op (.ldr .r3 .r3)] ++ (pushContext A ++
        (.op (.movFromSp .r0) :: .bl .createUnwindState :: (resuming A ++ landingCode A land))))))
      { c with reg := f } = some stop := by
    rw [← hrun]
    simp only [startUnwindEntry, List.append_assoc, List.cons_append, List.nil_append]
    rfl
  obtain ⟨c₂, hrest, hroom, hreg, hfp, hentered⟩ := runEntry_prepare (h.setReg (f := f) rfl) hf
  let c₂' := (c₂.op (.const .r3 tlsMemAddr)).op (.ldr .r3 .r3)
  obtain ⟨c₃, hpushed, hpush⟩ := runEntry_pushContext P L cfg prog (c := c₂') hroom
  have hstop : runEntry A P L cfg prog none
      (.op (.movFromSp .r0) :: .bl .createUnwindState :: (resuming A ++ landingCode A land)) c₃ = some stop := by
    rw [← hpush, ← hrest]
    rfl
  have hreg' : ∀ r, r ≠ .lr → r ≠ .r3 → c₂'.reg r = f r := by
    intro r hlr hr
    have hkeep : c₂'.reg r = c₂.reg r := by simp only [c₂', EntryCpu.op, Function.update_of_ne hr]
    exact hkeep.trans (hreg r hlr hr)
  have hcarries : Carries c c₂' := by
    refine ⟨?_, ?_, ?_, fun r hr => ?_, hfp⟩
    · rw [hreg' _ (by decide) (by decide)]
      rfl
    · rw [hreg' _ (by decide) (by decide)]
      rfl
    · rw [hreg' _ (by decide) (by decide)]
      rfl
    · simp only [List.mem_cons, List.not_mem_nil, or_false] at hr
      rcases hr with rfl | rfl | rfl | rfl | rfl | rfl | rfl | rfl <;>
        exact hreg' _ (by decide) (by decide)
  have hlen := length_contextWords (A := A) (c := c₂')
  refine ⟨c₃.op (.movFromSp .r0), (hentered (c₃.op (.movFromSp .r0)) (c₂'.contextWords A)
    ⟨hpushed.holds, hpushed.sp, hpushed.outside, hpushed.live⟩ hlen.le).of_setReg, ?_, ?_, fun c₄ hsp => ?_⟩
  · exact (Option.some.inj hstop).symm
  · have hcreate := createUnwindState_context getForPc hcarries hpushed
    simp only [EntryCpu.op, Function.update_self]
    refine Eq.trans hcreate ?_
    cases getForPc (c.reg .lr - 2) <;> rfl
  · -- The context is popped but for the 16 bytes of the `LandInfo`.
    cases A with
    | armv7em =>
      refine ⟨(c₄.op (.addSp 96)).op (.movFromSp .r1), rfl, rfl, rfl, rfl, ?_⟩
      rw [← hsp]
      exact BitVec.add_assoc c₄.sp 96 16
    | armv6m =>
      refine ⟨(c₄.op (.addSp 32)).op (.movFromSp .r1), rfl, rfl, rfl, rfl, ?_⟩
      rw [← hsp]
      exact BitVec.add_assoc c₄.sp 32 16

/-- A landing pad that is done enters the unwinder again: `resume_unwind` gets the state that was in `r0`. -/
theorem unwindResumeEntry_resumes (h : CanEnter A P cfg prog c prep 16 place)
    (hrun : runEntry A P L cfg prog none (unwindResumeEntry A prep land) c = some stop) :
    ∃ c₁, Entered A c c₁ place ∧ stop = .called .resumeUnwind c₁ (landingCode A land) ∧
      c₁.reg .r0 = c.reg .r0 ∧ c₁.reg .r1 = c₁.sp := by
  have hcode : unwindResumeEntry A prep land = skipInIsr A 0 ++ (.svcPrepare prep :: .label 0 ::
      (.op (.subSp 16) :: .op (.movFromSp .r1) :: .bl .resumeUnwind :: landingCode A land)) := by
    simp only [unwindResumeEntry, List.append_assoc, List.cons_append, List.nil_append]
  rw [hcode] at hrun
  obtain ⟨c₂, hrest, hroom, hreg, -, hentered⟩ := runEntry_prepare h hrun
  let c₁ := (c₂.op (.subSp 16)).op (.movFromSp .r1)
  have hsp : c₁.sp.toNat + 16 = c₂.sp.toNat := by
    have hlt := c₂.sp.isLt
    have hsub : c₁.sp = c₂.sp - 16 := rfl
    rw [hsub, BitVec.toNat_sub]
    simp only [BitVec.ofNat_eq_ofNat, BitVec.toNat_ofNat]
    omega
  -- The 16 bytes are not written here.
  have hpushed : Pushed c₂ c₁ (loadWords c₂.mem c₁.sp.toNat 4) := ⟨rfl, hsp, fun _ _ => rfl, rfl⟩
  refine ⟨c₁, hentered c₁ _ hpushed le_rfl, (Option.some.inj hrest).symm, ?_, rfl⟩
  rw [← hreg .r0 (by decide) (by decide)]
  rfl

end Registers

-- ---------------------------------------------------------------------------
-- A task that panics
-- ---------------------------------------------------------------------------

/-- A board whose heap starts behind the task local storage. -/
def entryBoard : Platform := ⟨0x20000000, 0x20000010, 0x20004000⟩

/-- The stacklet of a task, an unwind state, and the stacklet of an unwinder. -/
def entryHeap (m : Mem) : Option Client :=
  (Client.init entryBoard m 0x20000040).bind fun client =>
    Run.exec (Client.step entryBoard) client [.malloc 512, .malloc 256, .malloc 1024]

theorem entryHeap_inv (m : Mem) :
    ∃ client, entryHeap m = some client ∧ ∃ cs ls, client.Inv entryBoard cs ls := by
  have hv : entryBoard.Valid 0x20000040 := by constructor <;> decide
  obtain ⟨c₀, hinit, hruns⟩ := Client.exec_inv (m := m) hv
    (show adjustDataEnd 0x20000040 = some 0x20000044 by decide) (by decide)
  obtain ⟨c, hrun, hinv⟩ := hruns [.malloc 512, .malloc 256, .malloc 1024]
    ⟨by simp [Client.Legal], fun _ _ => ⟨by simp [Client.Legal], fun _ _ =>
      ⟨by simp [Client.Legal], fun _ _ => trivial⟩⟩⟩
  exact ⟨c, by rw [entryHeap, hinit, Option.bind_some, hrun], hinv⟩

/-- The unwinder asks for 2048 bytes. -/
def unwinderRequest : Reg → BitVec 16 := fun a => if a = 0x08000802 then 512 else 0

def stateLayout : StateLayout := ⟨16, 64, 128⟩

def entryCpu (client : Client) (sp : Reg) : EntryCpu 1 where
  reg r := if r = .lr then 0x08000501 else 7
  fp i := BitVec.ofNat 32 i
  fpscr := 0
  xpsr := 0x01000000
  sp := sp
  ipsr := 0
  zero := false
  machine :=
    { heap := client
      ctxt := ⟨0, ⟨0, 0, 0⟩⟩
      scb := none
      stackLimit := none
      unwinding := false
      stackExtendCount := 0
      activeStackletCount := 0 }

def Stop.isCalled : Stop n → Bool
  | .called .. => true
  | .jumped .. => false

/-- A task runs on its stacklet. -/
def panicMem : Mem := setWord (fun _ => 0) 0x20000000 (Task.Arch.armv7em.stkletPtrToBound 0x20000048)

theorem entryCpu_onStacklet {client : Client} {sp : Reg} {st : Nat × Nat}
    (hinv : ∃ cs ls, client.Inv entryBoard cs ls) (hstart : client.heap.heapStart = 0x20000044)
    (hlive : st ∈ client.live)
    (hbound : word client.heap.mem 0x20000000 = Task.Arch.armv7em.stkletPtrToBound st.1)
    (hlow : st.1 + metaSize + Task.Arch.armv7em.trapFrameSize + trapFramePadSize ≤ sp.toNat)
    (hhigh : sp.toNat ≤ st.1 + st.2) : OnStacklet .armv7em entryBoard (entryCpu client sp) st := by
  refine ⟨rfl, hinv, ?_, hlive, hbound, hlow, hhigh⟩
  have htls : tlsMemAddr.toNat = 0x20000000 := by decide
  have hstart' : (entryCpu client sp).machine.heap.heap.heapStart = 0x20000044 := hstart
  omega

/-- The board with a task on the first stacklet. -/
theorem entryHeap_panicMem : ∃ client, entryHeap panicMem = some client ∧
    client.live = [(0x20000358, 1024), (0x20000250, 256), (0x20000048, 512)] ∧
      OnStacklet .armv7em entryBoard (entryCpu client 0x20000200) (0x20000048, 512) := by
  obtain ⟨client, hheap, hinv⟩ := entryHeap_inv panicMem
  have hvalues : (entryHeap panicMem).map (fun h => (h.live, h.heap.heapStart, word h.heap.mem 0x20000000)) =
      some ([(0x20000358, 1024), (0x20000250, 256), (0x20000048, 512)], 0x20000044,
        Task.Arch.armv7em.stkletPtrToBound 0x20000048) := by decide +kernel
  simp only [hheap, Option.map_some, Option.some.injEq, Prod.mk.injEq] at hvalues
  obtain ⟨hlive, hstart, hbound⟩ := hvalues
  exact ⟨client, hheap, hlive,
    entryCpu_onStacklet hinv hstart (by rw [hlive]; decide) hbound (by decide) (by decide)⟩

theorem startUnwindEntry_creates_task : ∃ (c c₁ : EntryCpu 1) (rest : List EntryInstr),
    runEntry .armv7em entryBoard stateLayout boardConfig unwinderRequest none
        (startUnwindEntry .armv7em 0x08000802 0x08000842) c = some (.called .createUnwindState c₁ rest) ∧
      Entered .armv7em c c₁ (some (0x20000048, 512)) ∧
      createUnwindState (fun _ => .ok .cantUnwind)
          (UnwindInitContext.load .armv7em c₁.mem (c₁.reg .r0).toNat) =
        some ⟨c.regs .armv7em, .cantUnwind, word c.mem tlsMemAddr.toNat, true⟩ := by
  obtain ⟨client, hheap, -, hst⟩ := entryHeap_panicMem
  have hstops : ((entryHeap panicMem).bind fun h => (runEntry .armv7em entryBoard stateLayout boardConfig
      unwinderRequest none (startUnwindEntry .armv7em 0x08000802 0x08000842) (entryCpu h 0x20000200)).map
        Stop.isCalled) = some true := by decide +kernel
  simp only [hheap, Option.bind_some, Option.map_eq_some_iff] at hstops
  obtain ⟨stop, hrun, -⟩ := hstops
  have hrequest : (entryCpu client 0x20000200).request unwinderRequest 0x08000802 = 2048 := by
    have hsize : (unwinderRequest 0x08000802).zeroExtend 32 * 4 = (2048 : Reg) := by decide
    exact hsize
  have henter : CanEnter .armv7em entryBoard boardConfig unwinderRequest (entryCpu client 0x20000200) 0x08000802
      (contextSize .armv7em) (some (0x20000048, 512)) :=
    .task _ hst (by decide) (by rw [hrequest]; decide) (by rw [hrequest]; decide)
  obtain ⟨c₁, hentered, rfl, hcreate, -⟩ := startUnwindEntry_creates (fun _ => .ok .cantUnwind) henter hrun
  exact ⟨_, c₁, _, hrun, hentered, hcreate⟩

-- ---------------------------------------------------------------------------
-- Leaving the unwinder
-- ---------------------------------------------------------------------------

/-- The `LandInfo` that `resume_unwind` leaves at the stack pointer. -/
structure HasLandInfo (c : EntryCpu n) (statePtr landAddr gpRegsPtr dpfpRegsPtr : Reg) : Prop where
  words : loadWords c.mem c.sp.toNat 4 = [statePtr, landAddr, gpRegsPtr, dpfpRegsPtr]
  /-- `gp_regs` does not reach the end of the address space. -/
  fits : gpRegsPtr.toNat + 48 < 2 ^ 32

/-- The registers of the unwind state are loaded. -/
structure Loaded (A : Task.Arch) (c c' : EntryCpu n) (statePtr landAddr gpRegsPtr dpfpRegsPtr : Reg) : Prop where
  state : c'.reg .r0 = statePtr
  addr : c'.reg .r1 = landAddr
  base : c'.reg .r2 = gpRegsPtr + match A with
    | .armv7em => 4
    | .armv6m => 20
  gp : ∀ r ∈ [ARMGPReg.r4, .r5, .r6, .r7, .r8, .r9, .r10, .r11],
    (c'.regs A).gp r = (savedRegs c.mem gpRegsPtr dpfpRegsPtr).gp r
  dpfp : A = .armv7em → (c'.regs A).dpfp = (savedRegs c.mem gpRegsPtr dpfpRegsPtr).dpfp
  sp : c'.sp = c.sp + 16
  ipsr : c'.ipsr = c.ipsr
  machine : c'.machine = c.machine

/-- The end of both sequences behind the supervisor call. -/
def jumping (A : Task.Arch) : List EntryInstr :=
  match A with
  | .armv7em => [.op (.ldrSp .r2 32), .bx .r1]
  | .armv6m => [.op (.add .r2 16), .op (.ldr .r2 .r2), .op (.movToSp .r2), .bx .r1]

section Landing

variable {land statePtr landAddr gpRegsPtr dpfpRegsPtr : Reg}

theorem loaded_dpfp {m : Mem} {f : Fin 32 → Reg} (d : ARMDPFPReg) :
    (s16s31.map (setAll f s16s31 (loadWords m dpfpRegsPtr.toNat 16))).getD (2 * d.index + 1) 0 ++
        (s16s31.map (setAll f s16s31 (loadWords m dpfpRegsPtr.toNat 16))).getD (2 * d.index) 0 =
      doubleWord m (dpfpRegsPtr.toNat + 8 * d.index) := by
  have hd : d.index < 8 := by cases d <;> decide
  rw [map_setAll (by decide) (by rw [length_loadWords]; rfl), List.getD_eq_getElem?_getD,
    List.getD_eq_getElem?_getD, loadWords_getElem? (by omega), loadWords_getElem? (by omega), doubleWord,
    show dpfpRegsPtr.toNat + 8 * d.index + 4 = dpfpRegsPtr.toNat + 4 * (2 * d.index + 1) by omega,
    show dpfpRegsPtr.toNat + 8 * d.index = dpfpRegsPtr.toNat + 4 * (2 * d.index) by omega]
  rfl

variable (A P L cfg prog) in
theorem runEntry_landingCode (h : HasLandInfo c statePtr landAddr gpRegsPtr dpfpRegsPtr) (land : Reg) :
    ∃ c', Loaded A c c' statePtr landAddr gpRegsPtr dpfpRegsPtr ∧
      runEntry A P L cfg prog none (landingCode A land) c =
        runEntry A P L cfg prog none (skipInIsr A 1 ++ (.svcLand land :: .label 1 :: jumping A)) c' := by
  obtain ⟨hwords, hfits⟩ := h
  simp only [loadWords, List.cons.injEq, and_true, Nat.add_assoc, Nat.reduceAdd] at hwords
  obtain ⟨h0, h1, h2, h3⟩ := hwords
  have hnext : ∀ k < 48, (gpRegsPtr + BitVec.ofNat 32 k).toNat = gpRegsPtr.toNat + k := by
    intro k hk
    rw [BitVec.toNat_add, BitVec.toNat_ofNat]
    omega
  have h2' : word c.machine.mem (c.sp.toNat + 8) = gpRegsPtr := h2
  cases A with
  | armv7em =>
    have h4 := hnext 4 (by decide)
    let c₁ := (((c.op (.pop [.r0, .r1, .r2, .r3])).op (.add .r2 4)).op
      (.ldmia .r2 false [.r4, .r5, .r6, .r7, .r8, .r9, .r10, .r11])).op (.vldmia .r3 s16s31)
    refine ⟨c₁, ⟨h0, h1, congrArg (· + 4) h2, ?_, fun _ => funext fun d => ?_, rfl, rfl, rfl⟩, rfl⟩
    · simp [-BitVec.toNat_add, c₁, EntryCpu.op, setAll, loadWords, writeback, Nat.add_assoc, h2', h4,
        EntryCpu.regs, savedRegs, ARMGPReg.index, EntryCpu.mem]
    · rw [← h3]
      exact loaded_dpfp d
  | armv6m =>
    -- `r8` to `r11` go through `r4` to `r7`, which get their own values afterwards.
    have h4 := hnext 4 (by decide)
    have h20 := hnext 20 (by decide)
    have hback : gpRegsPtr + 20 + 16 - 32 = gpRegsPtr + 4 := by
      rw [BitVec.add_assoc, BitVec.sub_eq_add_neg, BitVec.add_assoc]
      rfl
    let c₁ := ((((((((c.op (.pop [.r0, .r1, .r2, .r3])).op (.add .r2 20)).op
      (.ldmia .r2 true [.r4, .r5, .r6, .r7])).op (.mov .r8 .r4)).op (.mov .r9 .r5)).op (.mov .r10 .r6)).op
      (.mov .r11 .r7)).op (.sub .r2 32)).op (.ldmia .r2 true [.r4, .r5, .r6, .r7])
    have hbase : c₁.reg .r2 = gpRegsPtr + 20 + 16 - 32 + 16 := congrArg (· + 20 + 16 - 32 + 16) h2
    refine ⟨c₁, ⟨h0, h1, ?_, ?_, fun h => absurd h (by decide), rfl, rfl, rfl⟩, rfl⟩
    · rw [hbase, hback, BitVec.add_assoc]
      rfl
    · simp only [BitVec.ofNat_eq_ofNat] at hback h4 h20
      simp [-BitVec.toNat_add, c₁, EntryCpu.op, setAll, loadWords, writeback, Nat.add_assoc, h2', h4, h20, hback,
        EntryCpu.regs, savedRegs, ARMGPReg.index, EntryCpu.mem]

end Landing

/-- The exception return leaves the registers that a callee saves alone. -/
theorem regs_popFrame (c : EntryCpu n) (m : Machine n) :
    (∀ r ∈ [ARMGPReg.r4, .r5, .r6, .r7, .r8, .r9, .r10, .r11],
        ((c.popFrame A m).2.regs A).gp r = (c.regs A).gp r) ∧
      ((c.popFrame A m).2.regs A).dpfp = (c.regs A).dpfp := by
  constructor
  · intro r hr
    simp only [List.mem_cons, List.not_mem_nil, or_false] at hr
    rcases hr with rfl | rfl | rfl | rfl | rfl | rfl | rfl | rfl <;> exact setAll_of_not_mem (by decide)
  · cases A with
    | armv6m => rfl
    | armv7em =>
      have hfp : s16s31.map (c.popFrame .armv7em m).2.fp = s16s31.map c.fp :=
        List.map_congr_left fun s hs => setAll_of_not_mem (by
          have hout : ∀ s ∈ s16s31, s ∉ s0s15 := by decide
          exact hout s hs)
      simp only [EntryCpu.regs, hfp]

/-- The unwinder can be left: its code runs in an interrupt handler, or in a task on the stacklet `own`.
In a task the unwind state is in an allocation of its own, and the frame that is landed in is on another
stacklet, where there is room for a trap frame below it. -/
inductive CanLand (A : Task.Arch) (P : Platform) (L : StateLayout) (c : EntryCpu n) (statePtr : Reg) :
    Option (Nat × Nat) → Prop
  | isr (hisr : c.ipsr ≠ 0) : CanLand A P L c statePtr none
  | task (own st object : Nat × Nat) (hown : OnStacklet A P { c with sp := c.sp + 16 } own)
      (hst : st ∈ c.machine.heap.live) (hobject : object ∈ c.machine.heap.live)
      (hne : st.1 ≠ own.1 ∧ object.1 ≠ own.1 ∧ object.1 ≠ st.1)
      (hfields : ∀ r ∈ [((statePtr + L.gpRegs).toNat, 48), ((statePtr + L.dpfpRegs).toNat, 64),
        ((statePtr + L.stkletBoundary).toNat, 4)], object.1 ≤ r.1 ∧ r.1 + r.2 ≤ object.1 + object.2)
      (hlow : st.1 + A.trapFrameSize ≤ ((L.regs c.mem statePtr).gp .sp).toNat)
      (hhigh : ((L.regs c.mem statePtr).gp .sp).toNat ≤ st.1 + st.2) : CanLand A P L c statePtr (some own)

/-- The unwinder was left. In a task its stacklet is freed, and what is in use is not touched, except
for the bytes right below the frame that is landed in. -/
inductive Left (A : Task.Arch) (L : StateLayout) (c c' : EntryCpu n) (statePtr : Reg) : Option (Nat × Nat) → Prop
  | isr (hmachine : c'.machine = c.machine) : Left A L c c' statePtr none
  | task (own : Nat × Nat) (hlive : c'.machine.heap.live = c.machine.heap.live.filter fun a => a.1 ≠ own.1)
      (hbound : word c'.mem tlsMemAddr.toNat = L.boundary c.mem statePtr)
      (hkept : ∀ b ∈ c.machine.heap.live, b.1 ≠ own.1 → ∀ y, b.1 ≤ y → y < b.1 + b.2 →
        Outside (((L.regs c.mem statePtr).gp .sp).toNat - A.trapFrameSize, A.trapFrameSize) y →
          c'.mem y = c.mem y) : Left A L c c' statePtr (some own)

/-- The landing pad runs with the registers of the unwind state. -/
structure LandsWith (A : Task.Arch) (c : EntryCpu n) (regs : Regs) : Prop where
  r0 : c.reg .r0 = regs.gp .r0
  gp : ∀ r ∈ [ARMGPReg.r4, .r5, .r6, .r7, .r8, .r9, .r10, .r11, .sp], (c.regs A).gp r = regs.gp r
  dpfp : A = .armv7em → (c.regs A).dpfp = regs.dpfp

section Leaving

variable {land statePtr landAddr : Reg} {own : Nat × Nat} {place : Option (Nat × Nat)}

theorem regs_checked : (∀ r, ((c.checked A).regs A).gp r = (c.regs A).gp r) ∧
    ((c.checked A).regs A).dpfp = (c.regs A).dpfp := by
  constructor
  · intro r
    cases r <;> cases A <;> rfl
  · cases A <;> rfl

theorem mem_of_ne_sp {r : ARMGPReg} (hr : r ∈ [ARMGPReg.r4, .r5, .r6, .r7, .r8, .r9, .r10, .r11, .sp])
    (hne : r ≠ .sp) : r ∈ [ARMGPReg.r4, .r5, .r6, .r7, .r8, .r9, .r10, .r11] := by
  revert r
  decide

variable (P L cfg prog) in
/-- In an interrupt handler the code jumps to the landing pad itself. -/
theorem runEntry_jumping {gpRegsPtr dpfpRegsPtr : Reg} (hfits : gpRegsPtr.toNat + 48 < 2 ^ 32)
    (h : Loaded A c c' statePtr landAddr gpRegsPtr dpfpRegsPtr) :
    ∃ a : EntryCpu n, runEntry A P L cfg prog none (jumping A) (c'.checked A) = some (.jumped landAddr a) ∧
      a.machine = c.machine ∧ a.reg .r0 = statePtr ∧
      (∀ r ∈ [ARMGPReg.r4, .r5, .r6, .r7, .r8, .r9, .r10, .r11, .sp],
        (a.regs A).gp r = (savedRegs c.mem gpRegsPtr dpfpRegsPtr).gp r) ∧
      (A = .armv7em → (a.regs A).dpfp = (savedRegs c.mem gpRegsPtr dpfpRegsPtr).dpfp) := by
  have haddr : (gpRegsPtr + 36).toNat = gpRegsPtr.toNat + 36 := by
    rw [BitVec.toNat_add]
    simp only [BitVec.ofNat_eq_ofNat, BitVec.toNat_ofNat]
    omega
  have hmem : (c'.checked A).mem = c.mem := by rw [checked_mem, EntryCpu.mem, h.machine, EntryCpu.mem]
  have hbase : (c'.checked A).reg .r2 = c'.reg .r2 := checked_reg (by decide)
  have haddr' : (c'.checked A).reg .r1 = landAddr := (checked_reg (by decide)).trans h.addr
  have hstate : (c'.checked A).reg .r0 = statePtr := (checked_reg (by decide)).trans h.state
  obtain ⟨hregs, hdpfp⟩ := regs_checked (A := A) (c := c')
  have hsp : ∀ a : EntryCpu n, a.sp = word c.mem (gpRegsPtr + 36).toNat →
      (∀ r ∈ [ARMGPReg.r4, .r5, .r6, .r7, .r8, .r9, .r10, .r11],
        (a.regs A).gp r = ((c'.checked A).regs A).gp r) →
      ∀ r ∈ [ARMGPReg.r4, .r5, .r6, .r7, .r8, .r9, .r10, .r11, .sp],
        (a.regs A).gp r = (savedRegs c.mem gpRegsPtr dpfpRegsPtr).gp r := by
    intro a hasp ha r hr
    by_cases hr' : r = .sp
    · subst hr'
      rw [haddr] at hasp
      exact hasp
    · rw [ha r (mem_of_ne_sp hr hr'), hregs, h.gp r (mem_of_ne_sp hr hr')]
  cases A with
  | armv7em =>
    let a := (c'.checked .armv7em).op (.ldrSp .r2 32)
    have hload : a.sp = word c.mem (gpRegsPtr + 36).toNat := by
      have hsp' : a.sp = word (c'.checked .armv7em).mem ((c'.checked .armv7em).reg .r2 + 32).toNat := rfl
      rw [hsp', hmem, hbase, h.base, BitVec.add_assoc]
      rfl
    refine ⟨a, ?_, h.machine, hstate, hsp a hload fun r hr => ?_, h.dpfp⟩
    · rw [← haddr']
      rfl
    · simp only [List.mem_cons, List.not_mem_nil, or_false] at hr
      rcases hr with rfl | rfl | rfl | rfl | rfl | rfl | rfl | rfl <;> rfl
  | armv6m =>
    let a := (((c'.checked .armv6m).op (.add .r2 16)).op (.ldr .r2 .r2)).op (.movToSp .r2)
    have hload : a.sp = word c.mem (gpRegsPtr + 36).toNat := by
      have hsp' : a.sp = word (c'.checked .armv6m).mem ((c'.checked .armv6m).reg .r2 + 16).toNat := rfl
      rw [hsp', hmem, hbase, h.base, BitVec.add_assoc]
      rfl
    refine ⟨a, ?_, h.machine, hstate, hsp a hload fun r hr => ?_, h.dpfp⟩
    · rw [← haddr']
      rfl
    · simp only [List.mem_cons, List.not_mem_nil, or_false] at hr
      rcases hr with rfl | rfl | rfl | rfl | rfl | rfl | rfl | rfl <;> rfl

/-- What `unwind_land` does when it is called from the stacklet `own` to land on the stacklet `st`. -/
structure LandOn (A : Task.Arch) (P : Platform) (L : StateLayout) (s t : Machine n) (own st : Nat × Nat)
    (statePtr landAddr : Reg) : Prop where
  live : t.heap.live = s.heap.live.filter fun a => a.1 ≠ own.1
  sp : t.ctxt.sp.toNat + A.trapFrameSize = ((L.regs s.mem statePtr).gp .sp).toNat
  bound : t.ctxt.tls.stkletBound = L.boundary s.mem statePtr
  r0 : word t.mem t.ctxt.sp.toNat = (L.regs s.mem statePtr).gp .r0
  pc : word t.mem (t.ctxt.sp.toNat + 24) = landAddr
  xpsr : A.returnSp t.mem t.ctxt.sp = (L.regs s.mem statePtr).gp .sp
  kept : ∀ b ∈ s.heap.live, b.1 ≠ own.1 → ∀ y, b.1 ≤ y → y < b.1 + b.2 →
    Outside (((L.regs s.mem statePtr).gp .sp).toNat - A.trapFrameSize, A.trapFrameSize) y → t.mem y = s.mem y

/-- The unwind state is read before and after the trap frame is written, which is not over its fields. -/
theorem unwindLandOn_eq {s : Machine n} (hsp : A.trapFrameSize ≤ ((L.regs s.mem s.tf.r0).gp .sp).toNat)
    (hfields : ∀ r ∈ [((s.tf.r0 + L.gpRegs).toNat, 48), ((s.tf.r0 + L.stkletBoundary).toNat, 4)],
      r.1 + r.2 ≤ ((L.regs s.mem s.tf.r0).gp .sp).toNat - A.trapFrameSize ∨
        ((L.regs s.mem s.tf.r0).gp .sp).toNat ≤ r.1) :
    unwindLandOn A P L s =
      let unwinderStkletPtr := A.boundToStkletMeta s.ctxt.tls.stkletBound
      let prevSp := (L.regs s.mem s.tf.r0).gp .sp - BitVec.ofNat 32 A.trapFrameSize
      let m := setWord s.mem (prevSp.toNat + 28) (s.tf.xpsr &&& ~~~padBit)
      let m := setWord m prevSp.toNat ((L.regs s.mem s.tf.r0).gp .r0)
      let m := setWord m (prevSp.toNat + 24) s.tf.r1
      { s with
        heap :=
          ⟨mcuFree P { s.heap.heap with mem := m } unwinderStkletPtr,
            s.heap.live.filter fun a => a.1 ≠ unwinderStkletPtr⟩
        ctxt := ⟨prevSp, { s.ctxt.tls with stkletBound := L.boundary s.mem s.tf.r0 }⟩ } := by
  have hle := A.trapFrameSize_le
  have htf : A.trapFrameSize ≤ 104 := by cases A <;> decide
  simp only [List.mem_cons, List.not_mem_nil, or_false, forall_eq_or_imp, forall_eq] at hfields
  let prevSp := (L.regs s.mem s.tf.r0).gp .sp - BitVec.ofNat 32 A.trapFrameSize
  have hprev : prevSp.toNat + A.trapFrameSize = ((L.regs s.mem s.tf.r0).gp .sp).toNat := by
    have hlt := ((L.regs s.mem s.tf.r0).gp .sp).isLt
    simp only [prevSp, BitVec.toNat_sub, BitVec.toNat_ofNat]
    omega
  let m₁ := setWord s.mem (prevSp.toNat + 28) (s.tf.xpsr &&& ~~~padBit)
  have hm₁ : ∀ y, Outside (prevSp.toNat, 32) y → m₁ y = s.mem y := fun y hy => by
    simp only [Outside] at hy
    exact setWord_outside (by omega)
  have hr0 : (L.regs m₁ s.tf.r0).gp .r0 = (L.regs s.mem s.tf.r0).gp .r0 :=
    word_congr fun y hy hy' => hm₁ y (by simp only [Outside, ARMGPReg.index] at hy hy' ⊢; omega)
  let m₃ := setWord (setWord m₁ prevSp.toNat ((L.regs s.mem s.tf.r0).gp .r0)) (prevSp.toNat + 24) s.tf.r1
  have hboundary : L.boundary m₃ s.tf.r0 = L.boundary s.mem s.tf.r0 := by
    refine word_congr fun y hy hy' => ?_
    have h₃ : m₃ y = setWord m₁ prevSp.toNat ((L.regs s.mem s.tf.r0).gp .r0) y := setWord_outside (by omega)
    rw [h₃, setWord_outside (by omega), hm₁ y (by simp only [Outside]; omega)]
  simp only [unwindLandOn]
  simp only [m₁, prevSp] at hr0
  simp only [m₃, m₁, prevSp] at hboundary
  rw [hr0, hboundary]

/-- When the unwind state is in memory, the landing is the one that the unwinder plans. -/
theorem unwindLandOn_unwindLand {s : Machine n} {u : UnwindState} (hregs : L.regs s.mem s.tf.r0 = u.regs)
    (hboundary : L.boundary s.mem s.tf.r0 = u.stkletBoundary) (hsp : trapFrameSize ≤ (u.regs.gp .sp).toNat)
    (hfields : ∀ r ∈ [((s.tf.r0 + L.gpRegs).toNat, 48), ((s.tf.r0 + L.stkletBoundary).toNat, 4)],
      r.1 + r.2 ≤ (u.regs.gp .sp).toNat - trapFrameSize ∨ (u.regs.gp .sp).toNat ≤ r.1) :
    unwindLandOn .armv7em P L s = unwindLand P u s := by
  rw [← hregs] at hsp hfields
  rw [unwindLandOn_eq (A := .armv7em) hsp hfields, hregs, hboundary]
  rfl

theorem unwindLandOn_landOn {s : Machine n} {st object : Nat × Nat} (hinv : ∃ cs ls, s.heap.Inv P cs ls)
    (hbound : A.boundToStkletMeta s.ctxt.tls.stkletBound = own.1) (hown : own ∈ s.heap.live)
    (hr0 : s.tf.r0 = statePtr) (hr1 : s.tf.r1 = landAddr) (hst : st ∈ s.heap.live)
    (hobject : object ∈ s.heap.live)
    (hne : st.1 ≠ own.1 ∧ object.1 ≠ own.1 ∧ object.1 ≠ st.1)
    (hfields : ∀ r ∈ [((statePtr + L.gpRegs).toNat, 48), ((statePtr + L.dpfpRegs).toNat, 64),
      ((statePtr + L.stkletBoundary).toNat, 4)], object.1 ≤ r.1 ∧ r.1 + r.2 ≤ object.1 + object.2)
    (hlow : st.1 + A.trapFrameSize ≤ ((L.regs s.mem statePtr).gp .sp).toNat)
    (hhigh : ((L.regs s.mem statePtr).gp .sp).toNat ≤ st.1 + st.2) :
    LandOn A P L s (unwindLandOn A P L s) own st statePtr landAddr := by
  obtain ⟨cs, ls, hinv⟩ := hinv
  have hle := A.trapFrameSize_le
  simp only [List.mem_cons, List.not_mem_nil, or_false, forall_eq_or_imp, forall_eq] at hfields
  have hapart := hinv.apart_of_ne hobject hst hne.2.2
  simp only [Apart] at hapart
  have htf : A.trapFrameSize ≤ 104 := by cases A <;> decide
  let sp := (L.regs s.mem statePtr).gp .sp
  let prevSp := sp - BitVec.ofNat 32 A.trapFrameSize
  have hlow' : st.1 + A.trapFrameSize ≤ sp.toNat := hlow
  have hhigh' : sp.toNat ≤ st.1 + st.2 := hhigh
  have hprev : prevSp.toNat + A.trapFrameSize = sp.toNat := by
    have hlt := sp.isLt
    simp only [prevSp, BitVec.toNat_sub, BitVec.toNat_ofNat]
    omega
  let m₁ := setWord s.mem (prevSp.toNat + 28) (s.tf.xpsr &&& ~~~padBit)
  let m₂ := setWord m₁ prevSp.toNat ((L.regs s.mem statePtr).gp .r0)
  let m₃ := setWord m₂ (prevSp.toNat + 24) landAddr
  have ht : unwindLandOn A P L s =
      { s with
        heap := ⟨mcuFree P { s.heap.heap with mem := m₃ } own.1, s.heap.live.filter fun a => a.1 ≠ own.1⟩
        ctxt := ⟨prevSp, { s.ctxt.tls with stkletBound := L.boundary s.mem statePtr }⟩ } := by
    have hsp' : (L.regs s.mem statePtr).gp .sp = sp := rfl
    subst hr0 hr1
    rw [unwindLandOn_eq (by rw [hsp']; omega) fun r hr => ?_, hbound]
    simp only [List.mem_cons, List.not_mem_nil, or_false] at hr
    rw [hsp']
    rcases hr with rfl | rfl <;> omega
  have hm : ∀ y, Outside (prevSp.toNat, 32) y → m₃ y = s.mem y := by
    intro y hy
    simp only [Outside] at hy
    have h₁ : m₁ y = s.mem y := setWord_outside (by omega)
    have h₂ : m₂ y = m₁ y := setWord_outside (by omega)
    have h₃ : m₃ y = m₂ y := setWord_outside (by omega)
    exact h₃.trans (h₂.trans h₁)
  have hsame : ∀ y, Outside st y → m₃ y = s.mem y := fun y hy =>
    hm y (by simp only [Outside] at hy ⊢; omega)
  obtain ⟨cs', hinv'⟩ := hinv.overwrite hst hsame
  obtain ⟨-, hfree⟩ := hinv'.mcuFree_spec (List.mem_map_of_mem hown)
  have hkeep : ∀ b ∈ s.heap.live, b.1 ≠ own.1 → ∀ y, b.1 ≤ y → y < b.1 + b.2 →
      (unwindLandOn A P L s).mem y = m₃ y := by
    intro b hb hb' y hlo hhi
    have hy := hfree b hb hb' (y - b.1) (by omega)
    rw [show b.1 + (y - b.1) = y by omega] at hy
    rw [ht]
    exact hy
  have hword : ∀ i, i + 4 ≤ A.trapFrameSize →
      word (unwindLandOn A P L s).mem (prevSp.toNat + i) = word m₃ (prevSp.toNat + i) :=
    fun i hi => word_congr fun y hy hy' => hkeep st hst hne.1 y (by omega) (by omega)
  have hxpsr : word (unwindLandOn A P L s).mem (prevSp.toNat + 28) = s.tf.xpsr &&& ~~~padBit := by
    rw [hword 28 (by omega), word_setWord_disjoint (by omega), word_setWord_disjoint (by omega), word_setWord_same]
  have hctxt : (unwindLandOn A P L s).ctxt.sp = prevSp := by rw [ht]
  refine ⟨by rw [ht], by rw [hctxt]; exact hprev, by rw [ht], ?_, ?_, ?_, ?_⟩
  · rw [hctxt, ← Nat.add_zero prevSp.toNat, hword 0 (by omega), Nat.add_zero,
      word_setWord_disjoint (by omega), word_setWord_same]
  · rw [hctxt, hword 24 (by omega), word_setWord_same]
  · rw [hctxt, Task.Arch.returnSp, hxpsr, A.tfSize_and_not_padBit]
    exact BitVec.sub_add_cancel sp _
  · intro b hb hb' y hlo hhi hy
    rw [hkeep b hb hb' y hlo hhi]
    refine hm y ?_
    simp only [Outside] at hy ⊢
    have hsp : ((L.regs s.mem statePtr).gp .sp).toNat = sp.toNat := rfl
    omega

theorem savedRegs_congr {m m' : Mem} {gpRegsPtr dpfpRegsPtr : Reg}
    (hgp : m.AgreeOn m' gpRegsPtr.toNat (gpRegsPtr.toNat + 48))
    (hdpfp : m.AgreeOn m' dpfpRegsPtr.toNat (dpfpRegsPtr.toNat + 64)) :
    savedRegs m' gpRegsPtr dpfpRegsPtr = savedRegs m gpRegsPtr dpfpRegsPtr := by
  simp only [savedRegs, Regs.mk.injEq]
  constructor
  · funext r
    have hr : r.index < 12 := by cases r <;> decide
    exact word_congr (hgp.mono (by omega) (by omega))
  · funext d
    have hd : d.index < 8 := by cases d <;> decide
    simp only [doubleWord]
    rw [word_congr (hdpfp.mono (by omega) (by omega)), word_congr (hdpfp.mono (by omega) (by omega))]

/-- The supervisor call frees the stacklet of the unwinder and jumps to the landing pad. -/
theorem OnStacklet.leaves {st object : Nat × Nat} (hown : OnStacklet A P c own) (land : Reg)
    (hr0 : c.reg .r0 = statePtr) (hr1 : c.reg .r1 = landAddr) (hst : st ∈ c.machine.heap.live)
    (hobject : object ∈ c.machine.heap.live)
    (hne : st.1 ≠ own.1 ∧ object.1 ≠ own.1 ∧ object.1 ≠ st.1)
    (hfields : ∀ r ∈ [((statePtr + L.gpRegs).toNat, 48), ((statePtr + L.dpfpRegs).toNat, 64),
      ((statePtr + L.stkletBoundary).toNat, 4)], object.1 ≤ r.1 ∧ r.1 + r.2 ≤ object.1 + object.2)
    (hlow : st.1 + A.trapFrameSize ≤ ((L.regs c.mem statePtr).gp .sp).toNat)
    (hhigh : ((L.regs c.mem statePtr).gp .sp).toNat ≤ st.1 + st.2) :
    ∃ c', c.svcLand A P L land = some (landAddr, c') ∧ c'.reg .r0 = (L.regs c.mem statePtr).gp .r0 ∧
      c'.sp = (L.regs c.mem statePtr).gp .sp ∧
      (∀ r ∈ [ARMGPReg.r4, .r5, .r6, .r7, .r8, .r9, .r10, .r11], (c'.regs A).gp r = (c.regs A).gp r) ∧
      (c'.regs A).dpfp = (c.regs A).dpfp ∧ Left A L c c' statePtr (some own) := by
  have hinside := hown.inside
  have htls := hown.tls
  have hle := A.trapFrameSize_le
  obtain ⟨cs, ls, hinv⟩ := hown.heap
  have hfields' := hfields
  simp only [List.mem_cons, List.not_mem_nil, or_false, forall_eq_or_imp, forall_eq] at hfields'
  -- The trap frame is on the stacklet of the unwinder.
  have hother : ∀ b ∈ c.machine.heap.live, b.1 ≠ own.1 → ∀ y, b.1 ≤ y → y < b.1 + b.2 →
      (c.svcEnter A land).mem y = c.mem y := by
    intro b hb hne y hlo hhi
    have hapart := hinv.apart_of_ne hb hown.live hne
    have hlow := hown.low
    have hhigh := hown.high
    simp only [Apart] at hapart
    simp only [metaSize] at hlow
    exact svcEnter_outside (by omega) (by omega)
  have hregs : L.regs (c.svcEnter A land).mem statePtr = L.regs c.mem statePtr :=
    savedRegs_congr (fun y hy hy' => hother object hobject hne.2.1 y (by omega) (by omega))
      fun y hy hy' => hother object hobject hne.2.1 y (by omega) (by omega)
  have hboundary : L.boundary (c.svcEnter A land).mem statePtr = L.boundary c.mem statePtr :=
    word_congr fun y hy hy' => hother object hobject hne.2.1 y (by omega) (by omega)
  have hentry : A.boundToStkletMeta (c.svcEnter A land).ctxt.tls.stkletBound = own.1 := by
    rw [hown.svcEnter_tls]
    exact (congrArg A.boundToStkletMeta hown.bound).trans
      (Task.Arch.boundToStkletMeta_stkletPtrToBound (by omega))
  have hland := unwindLandOn_landOn (A := A) (P := P) (L := L) (hown.svcEnter_heap land) hentry
    hown.live ((word_svcEnter (i := 0) rfl).trans hr0) ((word_svcEnter (i := 1) rfl).trans hr1) hst hobject hne
    hfields (by rw [hregs]; exact hlow) (by rw [hregs]; exact hhigh)
  obtain ⟨hlive, hsp, hbound, htr0, htpc, hreturn, hkept⟩ := hland
  rw [hregs] at hsp htr0 hreturn hkept
  obtain ⟨-, hstart, -⟩ := hinv.fits st hst
  set t := unwindLandOn A P L (c.svcEnter A land) with ht
  let m := Interrupt.storeWords t.mem tlsMemAddr.toNat
    [t.ctxt.tls.stkletBound, t.ctxt.tls.nestedDropCnt, t.ctxt.tls.unwindPending]
  -- The task local storage is not on the heap.
  have hm : ∀ y, c.machine.heap.heap.heapStart ≤ y → m y = t.mem y := fun y hy =>
    storeWords_outside (by simp only [List.length_cons, List.length_nil]; omega)
  have hword : ∀ i, word m (t.ctxt.sp.toNat + i) = word t.mem (t.ctxt.sp.toNat + i) := fun i =>
    word_congr fun y hy _ => hm y (by omega)
  have hrun : c.svcLand A P L land = some (c.svcReturn A t) := by
    simp only [EntryCpu.svcLand, hown.task, ne_eq, not_true_eq_false, if_false, ht]
  obtain ⟨hgp, hdpfp⟩ := regs_popFrame (A := A) c (t.setMem m)
  have hpc : (c.svcReturn A t).1 = landAddr := (hword 24).trans htpc
  refine ⟨(c.svcReturn A t).2, by rw [hrun, ← hpc], ?_, ?_, hgp, hdpfp, .task own ?_ ?_ ?_⟩
  · have hload : (c.svcReturn A t).2.reg .r0 = word m t.ctxt.sp.toNat :=
      setAll_of_getElem? (i := 0) (by decide) rfl rfl
    rw [hload, ← htr0, ← Nat.add_zero t.ctxt.sp.toNat]
    exact hword 0
  · have hsame : A.returnSp m t.ctxt.sp = A.returnSp t.mem t.ctxt.sp := by
      rw [Task.Arch.returnSp, hword 28]
      rfl
    exact hsame.trans hreturn
  · exact hlive
  · rw [← hboundary, ← hbound]
    exact word_storeWords (i := 0) rfl
  · intro b hb hb' y hlo hhi hy
    obtain ⟨-, hstart, -⟩ := hinv.fits b hb
    rw [← hother b hb hb' y hlo hhi, ← hkept b hb hb' y hlo hhi hy]
    exact hm y (by omega)

/-- When `resume_unwind` returns, the landing pad runs with the registers of the unwind state. In a task
the boundary of the stacklet is that of the state, and the stacklet of the unwinder is freed. -/
theorem runEntry_lands (hinfo : HasLandInfo c statePtr landAddr (statePtr + L.gpRegs) (statePtr + L.dpfpRegs))
    (hsaved : (L.regs c.mem statePtr).gp .r0 = statePtr) (h : CanLand A P L c statePtr place) :
    ∃ c', runEntry A P L cfg prog none (landingCode A land) c = some (.jumped landAddr c') ∧
      LandsWith A c' (L.regs c.mem statePtr) ∧ Left A L c c' statePtr place := by
  obtain ⟨c₁, hloaded, hrun⟩ := runEntry_landingCode A P L cfg prog hinfo land
  rw [runEntry_skipInIsr, hloaded.ipsr] at hrun
  cases h with
  | isr hisr =>
    rw [if_neg hisr] at hrun
    obtain ⟨a, hjump, hmachine, hr0, hgp, hdpfp⟩ := runEntry_jumping P L cfg prog hinfo.fits hloaded
    exact ⟨a, hrun.trans hjump, ⟨hr0.trans hsaved.symm, hgp, hdpfp⟩, .isr hmachine⟩
  | task own st object hown hst hobject hne hfields hlow hhigh =>
    rw [if_pos (show c.ipsr = 0 from hown.task)] at hrun
    have hmachine : (c₁.checked A).machine = c.machine := checked_machine.trans hloaded.machine
    have hmem : (c₁.checked A).mem = c.mem := congrArg Machine.mem hmachine
    have hown' : OnStacklet A P (c₁.checked A) own := by
      have hsp : (c₁.checked A).sp = c.sp + 16 := checked_sp.trans hloaded.sp
      constructor <;> simp only [hmachine, hmem, hsp, checked_ipsr, hloaded.ipsr]
      exacts [hown.task, hown.heap, hown.tls, hown.live, hown.bound, hown.low, hown.high]
    obtain ⟨hregs, hdpfp⟩ := regs_checked (A := A) (c := c₁)
    obtain ⟨c', hland, hr0, hsp, hgp', hdpfp', hleft⟩ := hown'.leaves (L := L) land
      ((checked_reg (by decide)).trans hloaded.state) ((checked_reg (by decide)).trans hloaded.addr)
      (by rwa [hmachine]) (by rwa [hmachine]) hne hfields (by rwa [hmem]) (by rwa [hmem])
    rw [hmem] at hr0 hsp
    refine ⟨c', ?_, ⟨hr0, fun r hr => ?_, fun hA => ?_⟩, ?_⟩
    · rw [hrun]
      simp only [runEntry, hland, Option.map_some]
    · by_cases hr' : r = .sp
      · subst hr'
        exact hsp
      · rw [hgp' r (mem_of_ne_sp hr hr'), hregs]
        exact hloaded.gp r (mem_of_ne_sp hr hr')
    · rw [hdpfp', hdpfp]
      exact hloaded.dpfp hA
    · cases hleft with
      | task _ hlive hbound hkept =>
        rw [hmachine] at hlive hkept
        rw [hmem] at hbound hkept
        exact .task own hlive hbound hkept

end Leaving

/-- An unwinder on its stacklet that is to land at `0x20000200`. -/
def landMem : Mem :=
  let m := setWord (fun _ => 0) 0x20000000 (Task.Arch.armv7em.stkletPtrToBound 0x20000358)
  let m := Interrupt.storeWords m 0x20000600 [0x20000250, 0x08000701, 0x20000260, 0x20000290]
  let m := setWord m 0x20000260 0x20000250
  setWord m 0x20000284 0x20000200

theorem runEntry_lands_task : ∃ c c' : EntryCpu 1,
    runEntry .armv7em entryBoard stateLayout boardConfig unwinderRequest none (landingCode .armv7em 0x08000842) c =
        some (.jumped 0x08000701 c') ∧
      LandsWith .armv7em c' (stateLayout.regs c.mem 0x20000250) ∧
      Left .armv7em stateLayout c c' 0x20000250 (some (0x20000358, 1024)) := by
  obtain ⟨client, hheap, hinv⟩ := entryHeap_inv landMem
  have hvalues : (entryHeap landMem).map (fun h => (h.live, h.heap.heapStart, word h.heap.mem 0x20000000,
      loadWords h.heap.mem 0x20000600 4, word h.heap.mem 0x20000260, word h.heap.mem 0x20000284)) =
      some ([(0x20000358, 1024), (0x20000250, 256), (0x20000048, 512)], 0x20000044,
        Task.Arch.armv7em.stkletPtrToBound 0x20000358, [0x20000250, 0x08000701, 0x20000260, 0x20000290],
        0x20000250, 0x20000200) := by decide +kernel
  simp only [hheap, Option.map_some, Option.some.injEq, Prod.mk.injEq] at hvalues
  obtain ⟨hlive, hstart, hbound, hwords, hr0, hsp⟩ := hvalues
  have hr0' : (stateLayout.regs client.heap.mem 0x20000250).gp .r0 = 0x20000250 := by
    have haddr : ((0x20000250 : Reg) + stateLayout.gpRegs).toNat + 4 * ARMGPReg.index .r0 = 0x20000260 := by decide
    simp only [StateLayout.regs, savedRegs, haddr, hr0]
  have hsp' : (stateLayout.regs client.heap.mem 0x20000250).gp .sp = 0x20000200 := by
    have haddr : ((0x20000250 : Reg) + stateLayout.gpRegs).toNat + 4 * ARMGPReg.index .sp = 0x20000284 := by decide
    simp only [StateLayout.regs, savedRegs, haddr, hsp]
  have hinfo : HasLandInfo (entryCpu client 0x20000600) 0x20000250 0x08000701 (0x20000250 + stateLayout.gpRegs)
      (0x20000250 + stateLayout.dpfpRegs) := ⟨hwords, by decide⟩
  have hown : OnStacklet .armv7em entryBoard (entryCpu client (0x20000600 + 16)) (0x20000358, 1024) :=
    entryCpu_onStacklet hinv hstart (by rw [hlive]; decide) hbound (by decide) (by decide)
  have hland : CanLand .armv7em entryBoard stateLayout (entryCpu client 0x20000600) 0x20000250
      (some (0x20000358, 1024)) := by
    refine .task _ (0x20000048, 512) (0x20000250, 256) hown ?_ ?_ (by decide) (by decide) ?_ ?_
    · exact hlive ▸ by decide
    · exact hlive ▸ by decide
    · exact (congrArg (fun r : Reg => _ ≤ r.toNat) hsp').mpr (by decide)
    · exact (congrArg (fun r : Reg => r.toNat ≤ _) hsp').mpr (by decide)
  exact ⟨entryCpu client 0x20000600, runEntry_lands hinfo hr0' hland⟩

end Hopter.Unwind
