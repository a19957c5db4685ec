-- SUMMARY: One step of the unwinder: from a stack frame to that of its caller.
import Hopter.Unwind.Instructions
import Hopter.Task.SegmentedStack

/-!
# Stepping to the caller

`UnwindState::step` in `src/unwind/unwind.rs`, for armv7em. The unwinder keeps the registers
of a stack frame and applies the unwind instructions of its function to get those of the
caller. When the function had a stacklet of its own, the return address is that of
`svc_less_stack`, and the step goes on to the stacklet below.

The lookup of the table entry for a program counter (`get_for_pc`) is a parameter. `none` is
the end of the system.
-/

namespace Hopter.Unwind

open Hopter.Allocator Hopter.Task

/-- `ARMGPReg`: the general purpose registers that the unwinder tracks. -/
inductive ARMGPReg where
  | r0 | r4 | r5 | r6 | r7 | r8 | r9 | r10 | r11 | sp | lr | pc
  deriving DecidableEq

/-- `ARMGPReg::from_reg_num`. -/
def ARMGPReg.fromRegNum : Nat → Option ARMGPReg
  | 0 => some .r0
  | 4 => some .r4
  | 5 => some .r5
  | 6 => some .r6
  | 7 => some .r7
  | 8 => some .r8
  | 9 => some .r9
  | 10 => some .r10
  | 11 => some .r11
  | 13 => some .sp
  | 14 => some .lr
  | 15 => some .pc
  | _ => none

/-- `ARMGPReg::to_reg_num`. -/
def ARMGPReg.toRegNum : ARMGPReg → Nat
  | .r0 => 0
  | .r4 => 4
  | .r5 => 5
  | .r6 => 6
  | .r7 => 7
  | .r8 => 8
  | .r9 => 9
  | .r10 => 10
  | .r11 => 11
  | .sp => 13
  | .lr => 14
  | .pc => 15

/-- `ARMDPFPReg`: the floating-point registers that the unwinder tracks. -/
inductive ARMDPFPReg where
  | d8 | d9 | d10 | d11 | d12 | d13 | d14 | d15
  deriving DecidableEq

/-- `ARMDPFPReg::from_reg_num`. -/
def ARMDPFPReg.fromRegNum : Nat → Option ARMDPFPReg
  | 8 => some .d8
  | 9 => some .d9
  | 10 => some .d10
  | 11 => some .d11
  | 12 => some .d12
  | 13 => some .d13
  | 14 => some .d14
  | 15 => some .d15
  | _ => none

/-- `gp_regs` and `dpfp_regs`. -/
structure Regs where
  gp : ARMGPReg → Reg
  dpfp : ARMDPFPReg → BitVec 64

namespace Regs

def setGp (regs : Regs) (r : ARMGPReg) (v : Reg) : Regs := { regs with gp := Function.update regs.gp r v }

def setDpfp (regs : Regs) (d : ARMDPFPReg) (v : BitVec 64) : Regs :=
  { regs with dpfp := Function.update regs.dpfp d v }

variable {regs : Regs} {r r' : ARMGPReg} {d d' : ARMDPFPReg} {v : Reg} {w : BitVec 64}

@[simp] theorem setGp_gp_same : (regs.setGp r v).gp r = v := Function.update_self ..

theorem setGp_gp_ne (h : r' ≠ r) : (regs.setGp r v).gp r' = regs.gp r' := Function.update_of_ne h ..

@[simp] theorem setGp_dpfp : (regs.setGp r v).dpfp = regs.dpfp := rfl

@[simp] theorem setDpfp_dpfp_same : (regs.setDpfp d w).dpfp d = w := Function.update_self ..

theorem setDpfp_dpfp_ne (h : d' ≠ d) : (regs.setDpfp d w).dpfp d' = regs.dpfp d' :=
  Function.update_of_ne h ..

@[simp] theorem setDpfp_gp : (regs.setDpfp d w).gp = regs.gp := rfl

end Regs

inductive UnwindAbility where
  | cantUnwind
  /-- The rest of `UnwindInfo` is for finding a landing pad. -/
  | canUnwind (unwInstrIter : UnwindByteIter)

structure UnwindState where
  regs : Regs
  unwAbility : UnwindAbility
  /-- The boundary of the stacklet that is being unwound. -/
  stkletBoundary : Reg
  isInitial : Bool

def UnwindState.hasFinished (u : UnwindState) : Bool := u.regs.gp .pc = 0

-- ---------------------------------------------------------------------------
-- Applying the instructions
-- ---------------------------------------------------------------------------

/-- The loop of `RegPop` over the numbers of registers. The second component is `tmp_sp`. -/
def popRegs (m : Mem) (mask : Reg) : List Nat → Regs × Reg → Option (Regs × Reg)
  | [], s => some s
  | i :: is, (regs, tmpSp) =>
    if mask &&& ((1 : Reg) <<< i) ≠ 0 then
      (ARMGPReg.fromRegNum i).bind fun r =>
        popRegs m mask is (regs.setGp r (word m tmpSp.toNat), tmpSp + 4)
    else popRegs m mask is (regs, tmpSp)

/-- The loop of `VfpPop`. -/
def popVfp (m : Mem) : Nat → Nat → Regs → Option Regs
  | _, 0, regs => some regs
  | regNum, count + 1, regs =>
    let sp := regs.gp .sp
    let low := word m sp.toNat
    let high := word m (sp + 4).toNat
    (ARMDPFPReg.fromRegNum regNum).bind fun d =>
      popVfp m (regNum + 1) count ((regs.setDpfp d (high ++ low)).setGp .sp (sp + 8))

/-- The body of the loop over the instructions. The result is an error, or the registers. -/
def applyInstr (m : Mem) (regs : Regs) : UnwindInstruction → Option (Except String Regs)
  | .finish => some (.ok regs)
  | .dataPush size => some (.ok (regs.setGp .sp (regs.gp .sp - size)))
  | .dataPop size => some (.ok (regs.setGp .sp (regs.gp .sp + size)))
  | .regPop mask =>
    (popRegs m mask (List.range 16) (regs, regs.gp .sp)).map fun (regs, tmpSp) =>
      -- The test is on the number of the register, and not on its bit.
      if mask &&& BitVec.ofNat 32 ARMGPReg.sp.toRegNum = 0 then .ok (regs.setGp .sp tmpSp) else .ok regs
  | .regToSp regNum =>
    (ARMGPReg.fromRegNum regNum.toNat).map fun r => .ok (regs.setGp .sp (regs.gp r))
  | .vfpPop startRegNum count => (popVfp m startRegNum.toNat count.toNat regs).map .ok
  | .wregPop => some (.error "UnwindState::step: haven't supported WREG.")
  | .wcgrPop => some (.error "UnwindState::step: haven't supported WCGR.")
  | _ => some (.error "UnwindState::step: bad unwind instruction.")

theorem applyInstr_regPop_eq {m : Mem} {regs : Regs} {mask : Reg} :
    applyInstr m regs (.regPop mask) =
      (popRegs m mask (List.range 16) (regs, regs.gp .sp)).map fun (regs, tmpSp) =>
        if mask &&& BitVec.ofNat 32 ARMGPReg.sp.toRegNum = 0 then .ok (regs.setGp .sp tmpSp) else .ok regs :=
  rfl

theorem applyInstr_vfpPop_eq {m : Mem} {regs : Regs} {startRegNum count : Byte} :
    applyInstr m regs (.vfpPop startRegNum count) =
      (popVfp m startRegNum.toNat count.toNat regs).map .ok := rfl

/-- The loop over the instructions: the registers, the bytes that are left, and whether there
was an error. -/
def applyInstrs (m : Mem) (iter : List Byte) (regs : Regs) :
    Option (Regs × List Byte × Except String Unit) :=
  match _h : UnwindInstrIter.next iter with
  | none => some (regs, [], .ok ())
  | some (instr, rest) =>
    (applyInstr m regs instr).bind fun
      | .error e => some (regs, rest, .error e)
      | .ok regs => applyInstrs m rest regs
termination_by iter.length
decreasing_by exact UnwindInstrIter.next_length (by assumption)

theorem applyInstrs_nil {m : Mem} {regs : Regs} : applyInstrs m [] regs = some (regs, [], .ok ()) := by
  rw [applyInstrs]
  rfl

theorem applyInstrs_cons {m : Mem} {iter rest : List Byte} {regs regs' : Regs} {instr : UnwindInstruction}
    (hnext : UnwindInstrIter.next iter = some (instr, rest))
    (happly : applyInstr m regs instr = some (.ok regs')) :
    applyInstrs m iter regs = applyInstrs m rest regs' := by
  rw [applyInstrs]
  split
  · rename_i h
    simp [h] at hnext
  · rename_i instr' rest' h
    simp only [h, Option.some.injEq, Prod.mk.injEq] at hnext
    obtain ⟨rfl, rfl⟩ := hnext
    simp [happly]

theorem applyInstrs_padding {m : Mem} {regs : Regs} (k : Nat) :
    applyInstrs m (List.replicate k 0xb0) regs = some (regs, [], .ok ()) := by
  induction k with
  | zero => exact applyInstrs_nil
  | succ k ih =>
    rw [List.replicate_succ, applyInstrs_cons (UnwindInstrIter.next_finish _) rfl]
    exact ih

-- ---------------------------------------------------------------------------
-- The step
-- ---------------------------------------------------------------------------

variable {n : Nat} (P : Platform) (cfg : Task.Config) (getForPc : Reg → Except String UnwindAbility)

/-- The size of the trap frame at an address, its padding included. -/
def tfSizeAt (m : Mem) (a : Nat) : Nat :=
  if (TrapFrame.load m a).xpsr &&& padBit ≠ 0 then trapFrameSize + trapFramePadSize else trapFrameSize

/-- Go on to the stacklet below, and free the one that is done with. -/
def UnwindState.cross (u : UnwindState) (s : Machine n) : UnwindState × Machine n :=
  let ptr := boundToStkletMeta u.stkletBoundary
  let prevBound := word s.mem ptr
  let prevSp := word s.mem (ptr + 4)
  let countSize := word s.mem (ptr + 12)
  let regs := u.regs.setGp .pc ((TrapFrame.load s.mem prevSp.toNat).lr - 2)
  let regs := regs.setGp .sp (prevSp + BitVec.ofNat 32 (tfSizeAt s.mem prevSp.toNat))
  ({ u with regs := regs, stkletBoundary := prevBound },
    { s with
      heap := ⟨mcuFree P s.heap.heap ptr, s.heap.live.filter fun a => a.1 ≠ ptr⟩
      scb := s.scb.map fun scb => { scb with cumulatedSize := scb.cumulatedSize - countSize } })

/-- The end of a step: the table entry for the new program counter. -/
def UnwindState.lookup (u : UnwindState) : UnwindState × Except String Unit :=
  match getForPc (u.regs.gp .pc) with
  | .ok unwAbility => ({ u with unwAbility := unwAbility }, .ok ())
  | .error e => (u, .error e)

/-- What a step does when the registers of the caller are restored. -/
def UnwindState.afterRestore (u : UnwindState) (s : Machine n) :
    UnwindState × Machine n × Except String Unit :=
  -- The program counter that was not restored is that in the link register.
  let regs := if u.regs.gp .pc = ~~~0 then u.regs.setGp .pc (u.regs.gp .lr) else u.regs
  let u := { u with regs := regs }
  if u.regs.gp .pc = 0 then (u, s, .ok ())
  else
    let (u, s) :=
      if u.regs.gp .pc = cfg.svcLessStack then u.cross P s
      else ({ u with regs := u.regs.setGp .pc (u.regs.gp .pc - 2) }, s)
    let (u, r) := u.lookup getForPc
    (u, s, r)

/-- `UnwindState::step`. -/
def UnwindState.step (u : UnwindState) (s : Machine n) :
    Option (UnwindState × Machine n × Except String Unit) :=
  if u.hasFinished = true then some (u, s, .error "UnwindState::step: already finished.")
  else
    match u.unwAbility with
    | .cantUnwind => some (u, s, .error "UnwindState::step: can't unwind.")
    | .canUnwind iter =>
      (applyInstrs s.mem iter.toList (u.regs.setGp .pc (~~~0))).map fun (regs, rest, r) =>
        let iter := { iter with pos := iter.bytes.length - rest.length }
        let u := { u with regs := regs, unwAbility := .canUnwind iter }
        match r with
        | .error e => (u, s, .error e)
        | .ok () => u.afterRestore P cfg getForPc s

end Hopter.Unwind
