-- SUMMARY: Function prologues and their unwind programs: a step of the unwinder undoes the prologue.
import Hopter.Unwind.Step
import Hopter.Task.StackSafety
import Mathlib.Data.Fintype.Basic
import Mathlib.Tactic.FinCases
import Mathlib.Tactic.IntervalCases

/-!
# Undoing a prologue

A prologue saves registers on the stack, makes room for the frame, and may set up a frame
pointer. Its unwind program has the inverse of each instruction, in reverse order. In the body
of the function the registers may have any values, apart from those that were not saved and
the frame pointer. A step of the unwinder from there gives the registers of the caller.
-/

namespace Hopter.Unwind

open Hopter.Allocator Hopter.Task

-- ---------------------------------------------------------------------------
-- Prologues
-- ---------------------------------------------------------------------------

/-- `r4` to `r11`. -/
def calleeReg : Fin 8 → ARMGPReg
  | 0 => .r4
  | 1 => .r5
  | 2 => .r6
  | 3 => .r7
  | 4 => .r8
  | 5 => .r9
  | 6 => .r10
  | 7 => .r11

inductive PrologueInstr where
  /-- `push` some of `r4` to `r11`, and maybe `lr`. -/
  | push (low : BitVec 8) (lr : Bool)
  /-- `vpush` a range of `d8` to `d15`. The first register is `d(8 + start)`. -/
  | vpush (start count : Nat) (h : start + count ≤ 8)
  /-- `sub sp, sp, #size`. -/
  | sub (size : Nat)
  /-- `add r, sp, #offset`: set up a frame pointer. -/
  | setFp (r : Fin 8) (offset : Nat)

/-- The mask of the registers that a `push` saves, by their numbers. -/
def pushMask (low : BitVec 8) (lr : Bool) : Reg :=
  (low.zeroExtend 32 <<< 4) ||| if lr then (1 : Reg) <<< 14 else 0

/-- The registers that a `push` saves, from the lowest address on. -/
def pushList (low : BitVec 8) (lr : Bool) : List ARMGPReg :=
  ((List.range 16).filter fun i => (pushMask low lr).getLsbD i).filterMap ARMGPReg.fromRegNum

/-- The registers that a `vpush` saves. -/
def vpushList (start count : Nat) : List ARMDPFPReg :=
  (List.range' (8 + start) count).filterMap ARMDPFPReg.fromRegNum

/-- Words and the addresses where they are stored, from the address `a` on. -/
def storeWords (a : Reg) : List Reg → List (Nat × Reg)
  | [] => []
  | v :: vs => (a.toNat, v) :: storeWords (a + 4) vs

/-- The words of a floating-point register. -/
def halves (v : BitVec 64) : List Reg := [v.extractLsb' 0 32, v.extractLsb' 32 32]

namespace PrologueInstr

def savedGp : PrologueInstr → List ARMGPReg
  | push low lr => pushList low lr
  | _ => []

def savedDpfp : PrologueInstr → List ARMDPFPReg
  | vpush start count _ => vpushList start count
  | _ => []

/-- The words that an instruction stores. -/
def saved (regs : Regs) : PrologueInstr → List Reg
  | push low lr => (pushList low lr).map regs.gp
  | vpush start count _ => (vpushList start count).flatMap fun d => halves (regs.dpfp d)
  | _ => []

/-- The registers after an instruction. -/
def exec (regs : Regs) : PrologueInstr → Regs
  | sub size => regs.setGp .sp (regs.gp .sp - BitVec.ofNat 32 size)
  | setFp r offset => regs.setGp (calleeReg r) (regs.gp .sp + BitVec.ofNat 32 offset)
  | i => regs.setGp .sp (regs.gp .sp - BitVec.ofNat 32 (4 * (i.saved regs).length))

/-- The words that an instruction stores, with their addresses. -/
def words (regs : Regs) (i : PrologueInstr) : List (Nat × Reg) :=
  storeWords ((i.exec regs).gp .sp) (i.saved regs)

end PrologueInstr

/-- The registers after a prologue. -/
def run (p : List PrologueInstr) (regs : Regs) : Regs := p.foldl (fun regs i => i.exec regs) regs

/-- The words that a prologue stores. -/
def pushedWords : List PrologueInstr → Regs → List (Nat × Reg)
  | [], _ => []
  | i :: p, regs => i.words regs ++ pushedWords p (i.exec regs)

/-- A frame pointer is set up at most once, and in a register that was saved before. -/
def Valid (p : List PrologueInstr) : Prop :=
  ∀ q r offset q', p = q ++ .setFp r offset :: q' →
    calleeReg r ∈ q.flatMap PrologueInstr.savedGp ∧ ∀ r' offset', .setFp r' offset' ∉ q'

-- ---------------------------------------------------------------------------
-- Unwind programs
-- ---------------------------------------------------------------------------

/-- A number in ULEB128. -/
def uleb128 (k : Nat) : List Byte :=
  if k < 128 then [BitVec.ofNat 8 k] else BitVec.ofNat 8 (k % 128 + 128) :: uleb128 (k / 128)

/-- Bytes that add a size to the stack pointer: `0x00` to `0x3f`, and `0xb2` with a number. -/
inductive EncodesPop : Nat → List Byte → Prop
  | nil : EncodesPop 0 []
  | short {size : Nat} {bytes : List Byte} (k : Nat) (hk : k < 64) (h : EncodesPop size bytes) :
    EncodesPop (4 * k + 4 + size) (BitVec.ofNat 8 k :: bytes)
  | long {size : Nat} {bytes : List Byte} (k : Nat) (hk : k < 2 ^ 30) (h : EncodesPop size bytes) :
    EncodesPop (4 * k + 0x204 + size) (0xb2 :: uleb128 k ++ bytes)

/-- Bytes that subtract a size from the stack pointer: `0x40` to `0x7f`. -/
inductive EncodesPush : Nat → List Byte → Prop
  | nil : EncodesPush 0 []
  | short {size : Nat} {bytes : List Byte} (k : Nat) (hk : k < 64) (h : EncodesPush size bytes) :
    EncodesPush (4 * k + 4 + size) (BitVec.ofNat 8 (0x40 + k) :: bytes)

/-- Bytes that undo an instruction. -/
inductive Encodes : PrologueInstr → List Byte → Prop
  /-- `0x8x`. The mask must not be empty. -/
  | pushMask (low : BitVec 8) (lr : Bool) (h : low ≠ 0 ∨ lr = true) :
    Encodes (.push low lr) [if lr then 0x84 else 0x80, low]
  /-- `0xa0` to `0xaf`: `r4` to `r(4 + k)`. -/
  | pushRange (k : Fin 8) (lr : Bool) :
    Encodes (.push (BitVec.ofNat 8 (2 ^ (k.val + 1) - 1)) lr) [BitVec.ofNat 8 ((if lr then 0xa8 else 0xa0) + k)]
  | pushNone : Encodes (.push 0 false) []
  | vpush (start count : Nat) (h : start + (count + 1) ≤ 8) :
    Encodes (.vpush start (count + 1) h) [0xc9, BitVec.ofNat 8 (16 * (8 + start) + count)]
  | vpushNone (start : Nat) (h : start + 0 ≤ 8) : Encodes (.vpush start 0 h) []
  | sub {size : Nat} {bytes : List Byte} (h : EncodesPop size bytes) : Encodes (.sub size) bytes
  /-- `0x90` to `0x9f`. -/
  | setFp {offset : Nat} {bytes : List Byte} (r : Fin 8) (h : EncodesPush offset bytes) :
    Encodes (.setFp r offset) (BitVec.ofNat 8 (0x94 + r) :: bytes)

/-- The unwind program of a prologue. -/
inductive Program : List PrologueInstr → List Byte → Prop
  | nil : Program [] []
  | concat {p : List PrologueInstr} {i : PrologueInstr} {bytes b : List Byte} (hp : Program p bytes)
    (hi : Encodes i b) : Program (p ++ [i]) (b ++ bytes)

/-- The sizes are multiples of four, as those of a prologue are. -/
def PrologueInstr.Encodable : PrologueInstr → Prop
  | .sub size => 4 ∣ size ∧ size < 2 ^ 32
  | .setFp _ offset => 4 ∣ offset
  | _ => True

theorem exists_encodesPop {size : Nat} (h : 4 ∣ size) (hlt : size < 2 ^ 32) : ∃ bytes, EncodesPop size bytes := by
  obtain ⟨k, rfl⟩ := h
  by_cases hlong : 0x204 ≤ 4 * k
  · have := EncodesPop.long (k - 0x81) (by omega) .nil
    rw [show 4 * (k - 0x81) + 0x204 + 0 = 4 * k by omega] at this
    exact ⟨_, this⟩
  by_cases htwo : 64 < k
  · have := EncodesPop.short 63 (by omega) (.short (k - 65) (by omega) .nil)
    rw [show 4 * 63 + 4 + (4 * (k - 65) + 4 + 0) = 4 * k by omega] at this
    exact ⟨_, this⟩
  by_cases hone : 0 < k
  · have := EncodesPop.short (k - 1) (by omega) .nil
    rw [show 4 * (k - 1) + 4 + 0 = 4 * k by omega] at this
    exact ⟨_, this⟩
  · obtain rfl : k = 0 := by omega
    exact ⟨_, .nil⟩

theorem exists_encodesPush {size : Nat} (h : 4 ∣ size) : ∃ bytes, EncodesPush size bytes := by
  obtain ⟨k, rfl⟩ := h
  induction k with
  | zero => exact ⟨_, .nil⟩
  | succ k ih =>
    obtain ⟨bytes, hbytes⟩ := ih
    have := EncodesPush.short 0 (by decide) hbytes
    rw [show 4 * 0 + 4 + 4 * k = 4 * (k + 1) by omega] at this
    exact ⟨_, this⟩

theorem exists_encodes {i : PrologueInstr} (h : i.Encodable) : ∃ bytes, Encodes i bytes := by
  cases i with
  | push low lr =>
    by_cases hmask : low ≠ 0 ∨ lr = true
    · exact ⟨_, .pushMask low lr hmask⟩
    · obtain ⟨rfl, rfl⟩ : low = 0 ∧ lr = false := by simpa [not_or] using hmask
      exact ⟨_, .pushNone⟩
  | vpush start count hle =>
    cases count with
    | zero => exact ⟨_, .vpushNone start hle⟩
    | succ count => exact ⟨_, .vpush start count hle⟩
  | sub size =>
    obtain ⟨bytes, hbytes⟩ := exists_encodesPop h.1 h.2
    exact ⟨bytes, .sub hbytes⟩
  | setFp r offset =>
    obtain ⟨bytes, hbytes⟩ := exists_encodesPush h
    exact ⟨_, .setFp r hbytes⟩

/-- Every prologue has an unwind program. -/
theorem exists_program {p : List PrologueInstr} (h : ∀ i ∈ p, i.Encodable) : ∃ bytes, Program p bytes := by
  induction p using List.reverseRecOn with
  | nil => exact ⟨_, .nil⟩
  | append_singleton p i ih =>
    obtain ⟨bytes, hbytes⟩ := ih fun j hj => h j (List.mem_append_left _ hj)
    obtain ⟨b, hb⟩ := exists_encodes (h i (by simp))
    exact ⟨_, hbytes.concat hb⟩

-- ---------------------------------------------------------------------------
-- The body of a function
-- ---------------------------------------------------------------------------

/-- The memory holds the words. -/
def Holds (m : Mem) (ws : List (Nat × Reg)) : Prop := ∀ w ∈ ws, word m w.1 = w.2

/-- Whether a prologue, the last instruction first, leaves the stack pointer as the only way to
find the words that it has stored. -/
def needsSp : List PrologueInstr → Bool
  | [] => true
  | .sub _ :: p => needsSp p
  | .setFp _ _ :: _ => false
  | _ => true

/-- The registers that a function keeps for its caller, and the return address. -/
def preserved : List ARMGPReg := [.r4, .r5, .r6, .r7, .r8, .r9, .r10, .r11, .lr]

/-- The registers `u` and the memory `m` in the body of a function with the prologue `p`: the
words that were pushed and the frame pointer are intact, and the registers that were not saved
are not used. The stack pointer may move if there is a frame pointer and nothing was saved after
it was set up. -/
structure InBody (p : List PrologueInstr) (caller : Regs) (m : Mem) (u : Regs) : Prop where
  words : Holds m (pushedWords p caller)
  gp : ∀ r ∈ preserved, r ∉ p.flatMap PrologueInstr.savedGp → u.gp r = (run p caller).gp r
  fp : ∀ r offset, .setFp r offset ∈ p → u.gp (calleeReg r) = (run p caller).gp (calleeReg r)
  dpfp : ∀ d, d ∉ p.flatMap PrologueInstr.savedDpfp → u.dpfp d = caller.dpfp d
  sp : needsSp p.reverse = true → u.gp .sp = (run p caller).gp .sp

-- ---------------------------------------------------------------------------
-- Decoding
-- ---------------------------------------------------------------------------

section Decoding

open UnwindInstruction UnwindInstrIter

variable {rest : List Byte}

theorem next_short {k : Nat} (hk : k < 64) :
    next (BitVec.ofNat 8 k :: rest) = some (.dataPop (BitVec.ofNat 32 (4 * k + 4)), rest) := by
  have hop : ∀ k : Fin 64, BitVec.ofNat 8 k &&& 0xc0 = 0x00 ∧
      ((BitVec.ofNat 8 k &&& 0x3f).zeroExtend 32 <<< 2) + 4 = BitVec.ofNat 32 (4 * k + 4) := by decide
  obtain ⟨hop, hsize⟩ := hop ⟨k, hk⟩
  simp only [next, stepIter, hop, hsize, if_true]

theorem next_shortPush {k : Nat} (hk : k < 64) :
    next (BitVec.ofNat 8 (0x40 + k) :: rest) = some (.dataPush (BitVec.ofNat 32 (4 * k + 4)), rest) := by
  have hop : ∀ k : Fin 64, BitVec.ofNat 8 (0x40 + k) &&& 0xc0 ≠ 0x00 ∧
      BitVec.ofNat 8 (0x40 + k) &&& 0xc0 = 0x40 ∧
      ((BitVec.ofNat 8 (0x40 + k) &&& 0x3f).zeroExtend 32 <<< 2) + 4 = BitVec.ofNat 32 (4 * k + 4) := by
    decide
  obtain ⟨hne, hop, hsize⟩ := hop ⟨k, hk⟩
  simp only [next, stepIter, if_neg hne, if_pos hop, hsize]

theorem next_pushMask {low : BitVec 8} {lr : Bool} (h : low ≠ 0 ∨ lr = true) :
    next ((if lr then 0x84 else 0x80) :: low :: rest) = some (.regPop (pushMask low lr), rest) := by
  have hmask : ∀ low : BitVec 8, popMask 0x84 low = .regPop (pushMask low true) ∧
      (low ≠ 0 → popMask 0x80 low = .regPop (pushMask low false)) := by decide +kernel
  obtain ⟨htrue, hfalse⟩ := hmask low
  cases lr with
  | true =>
    simp [next, stepIter, withNext]
    exact htrue
  | false =>
    have hlow : low ≠ 0 := by simpa using h
    simp [next, stepIter, withNext]
    exact hfalse hlow

theorem next_pushRange (k : Fin 8) (lr : Bool) :
    next (BitVec.ofNat 8 ((if lr then 0xa8 else 0xa0) + k) :: rest) =
      some (.regPop (pushMask (BitVec.ofNat 8 (2 ^ (k.val + 1) - 1)) lr), rest) := by
  fin_cases k <;> cases lr <;> rfl

theorem next_vpush {start count : Nat} (h : start + (count + 1) ≤ 8) :
    next (0xc9 :: BitVec.ofNat 8 (16 * (8 + start) + count) :: rest) =
      some (.vfpPop (BitVec.ofNat 8 (8 + start)) (BitVec.ofNat 8 (count + 1)), rest) := by
  have hop : ∀ start count : Fin 8,
      BitVec.ofNat 8 (16 * (8 + start) + count) >>> 4 = BitVec.ofNat 8 (8 + start) ∧
      (BitVec.ofNat 8 (16 * (8 + start) + count) &&& 0x0f) + 1 = BitVec.ofNat 8 (count + 1) := by decide
  obtain ⟨hstart, hcount⟩ := hop ⟨start, by omega⟩ ⟨count, by omega⟩
  simp [next, stepIter, withNext, ← hstart, ← hcount]

theorem next_setFp (r : Fin 8) :
    next (BitVec.ofNat 8 (0x94 + r) :: rest) = some (.regToSp (BitVec.ofNat 8 (4 + r)), rest) := by
  fin_cases r <;> rfl

/-- The low seven bits of a number, and the others. -/
theorem ofNat_split (k : Nat) :
    BitVec.ofNat 32 k = BitVec.ofNat 32 (k % 128) ||| (BitVec.ofNat 32 (k / 128) <<< 7) := by
  apply BitVec.eq_of_getLsbD_eq
  intro i hi
  rw [show 128 = 2 ^ 7 by decide]
  simp only [BitVec.getLsbD_or, BitVec.getLsbD_shiftLeft, BitVec.getLsbD_ofNat, Nat.testBit_mod_two_pow,
    Nat.testBit_div_two_pow]
  by_cases hlow : i < 7
  · simp [hi, hlow]
  · have : i - 7 < 32 := by omega
    simp [hi, hlow, this, show i - 7 + 7 = i by omega]

/-- The number that is read after `0xb2`. -/
theorem readUleb128_uleb128 {k : Nat} {offset : BitVec 32} {shift : Nat} (hshift : shift < 32)
    (hk : k < 2 ^ (32 - shift)) :
    readUleb128 (uleb128 k ++ rest) offset shift =
      some (offset ||| (BitVec.ofNat 32 k <<< shift), rest) := by
  induction k using uleb128.induct generalizing offset shift with
  | case1 k hlt =>
    have hop : ∀ k : Fin 128, BitVec.ofNat 8 k &&& 0x80 = 0 ∧
        (BitVec.ofNat 8 k &&& 0x7f).zeroExtend 32 = BitVec.ofNat 32 k := by decide
    obtain ⟨hend, hval⟩ := hop ⟨k, hlt⟩
    rw [uleb128, if_pos hlt]
    simp only [List.cons_append, List.nil_append, readUleb128, hend, hval, if_true,
      Nat.mod_eq_of_lt hshift]
  | case2 k hge ih =>
    have hop : ∀ k : Fin 128, BitVec.ofNat 8 (k + 128) &&& 0x80 ≠ 0 ∧
        (BitVec.ofNat 8 (k + 128) &&& 0x7f).zeroExtend 32 = BitVec.ofNat 32 k := by decide
    obtain ⟨hmore, hval⟩ := hop ⟨k % 128, Nat.mod_lt _ (by decide)⟩
    -- There is room for seven more bits.
    have hroom : shift + 7 < 32 := by
      by_contra hfull
      have : 2 ^ (32 - shift) ≤ 2 ^ 7 := Nat.pow_le_pow_right (by decide) (by omega)
      omega
    have hpow : 2 ^ (32 - shift) = 128 * 2 ^ (32 - (shift + 7)) := by
      rw [show 32 - shift = 7 + (32 - (shift + 7)) by omega, Nat.pow_add]
    rw [uleb128, if_neg hge]
    simp only [List.cons_append, readUleb128, if_neg hmore, hval, Nat.mod_eq_of_lt hshift]
    rw [ih hroom (by omega), BitVec.or_assoc, ofNat_split k, BitVec.shiftLeft_or_distrib,
      ← BitVec.shiftLeft_add, Nat.add_comm 7 shift]

theorem next_long {k : Nat} (hk : k < 2 ^ 30) :
    next (0xb2 :: uleb128 k ++ rest) = some (.dataPop (BitVec.ofNat 32 (4 * k + 0x204)), rest) := by
  have hread : readUleb128 (uleb128 k ++ rest) 0#32 0 = some (BitVec.ofNat 32 k, rest) := by
    rw [readUleb128_uleb128 (by decide) (by omega)]
    simp
  have hsize : BitVec.ofNat 32 k * 4#32 + 0x204#32 = BitVec.ofNat 32 (4 * k + 0x204) := by
    rw [BitVec.ofNat_add, Nat.mul_comm, BitVec.ofNat_mul]
  simp [next, stepIter, hread, hsize]

end Decoding

-- ---------------------------------------------------------------------------
-- Applying the program
-- ---------------------------------------------------------------------------

namespace Regs

variable {regs : Regs} {r : ARMGPReg} {v w : Reg}

@[simp] theorem setGp_self : regs.setGp r (regs.gp r) = regs := by simp [setGp]

@[simp] theorem setGp_setGp : (regs.setGp r v).setGp r w = regs.setGp r w := by simp [setGp]

end Regs

section Applying

variable {m : Mem} {rest bytes : List Byte} {regs : Regs} {size : Nat}

theorem EncodesPop.apply (h : EncodesPop size bytes) :
    applyInstrs m (bytes ++ rest) regs =
      applyInstrs m rest (regs.setGp .sp (regs.gp .sp + BitVec.ofNat 32 size)) := by
  induction h generalizing regs with
  | nil => simp
  | short k hk h ih =>
    rw [List.cons_append, applyInstrs_cons (next_short hk) rfl, ih]
    simp [BitVec.ofNat_add, BitVec.add_assoc]
  | long k hk h ih =>
    rw [List.append_assoc, applyInstrs_cons (next_long hk) rfl, ih]
    simp [BitVec.ofNat_add, BitVec.add_assoc]

theorem EncodesPush.apply (h : EncodesPush size bytes) :
    applyInstrs m (bytes ++ rest) regs =
      applyInstrs m rest (regs.setGp .sp (regs.gp .sp - BitVec.ofNat 32 size)) := by
  induction h generalizing regs with
  | nil => simp
  | short k hk h ih =>
    rw [List.cons_append, applyInstrs_cons (next_shortPush hk) rfl, ih]
    simp only [Regs.setGp_gp_same, Regs.setGp_setGp, BitVec.ofNat_add]
    congr 2
    grind

/-- Load registers from successive words. -/
def loadRegs (m : Mem) : List ARMGPReg → Regs × Reg → Regs × Reg
  | [], s => s
  | r :: rs, (regs, sp) => loadRegs m rs (regs.setGp r (word m sp.toNat), sp + 4)

theorem and_shift_ne_zero {mask : Reg} {i : Nat} (hi : i < 32) :
    mask &&& ((1 : Reg) <<< i) ≠ 0 ↔ mask.getLsbD i = true := by
  have htwo : (1 : Reg) <<< i = BitVec.twoPow 32 i := rfl
  rw [htwo, BitVec.and_twoPow]
  by_cases h : mask.getLsbD i = true
  · rw [if_pos h]
    refine iff_of_true (fun hzero => ?_) h
    have hbit := congrArg (fun x => BitVec.getLsbD x i) hzero
    simp [hi] at hbit
  · rw [if_neg h]
    exact iff_of_false (fun hne => hne rfl) h

/-- The loop over all registers loads those in the mask. -/
theorem popRegs_eq {mask : Reg} {is : List Nat} (hlt : ∀ i ∈ is, i < 32)
    (h : ∀ i ∈ is, mask.getLsbD i = true → (ARMGPReg.fromRegNum i).isSome = true) (s : Regs × Reg) :
    popRegs m mask is s =
      some (loadRegs m ((is.filter fun i => mask.getLsbD i).filterMap ARMGPReg.fromRegNum) s) := by
  induction is generalizing s with
  | nil => rfl
  | cons i is ih =>
    obtain ⟨regs, sp⟩ := s
    have ih := ih (fun j hj => hlt j (List.mem_cons_of_mem _ hj)) fun j hj => h j (List.mem_cons_of_mem _ hj)
    have hiff : mask &&& ((1 : Reg) <<< i) ≠ 0 ↔ mask.getLsbD i = true :=
      and_shift_ne_zero (hlt i List.mem_cons_self)
    by_cases hi : mask.getLsbD i = true
    · obtain ⟨r, hr⟩ := Option.isSome_iff_exists.mp (h i List.mem_cons_self hi)
      rw [popRegs, if_pos (hiff.mpr hi), hr, Option.bind_some, ih, List.filter_cons_of_pos hi,
        List.filterMap_cons_some hr]
      rfl
    · rw [popRegs, if_neg (mt hiff.mp hi), ih, List.filter_cons_of_neg hi]

theorem loadRegs_spec (regs : Regs) {rs : List ARMGPReg} {g : ARMGPReg → Reg} {sp : Reg}
    (h : Holds m (storeWords sp (rs.map g))) :
    (∀ r ∈ rs, (loadRegs m rs (regs, sp)).1.gp r = g r) ∧
      (∀ r ∉ rs, (loadRegs m rs (regs, sp)).1.gp r = regs.gp r) ∧
      (loadRegs m rs (regs, sp)).1.dpfp = regs.dpfp ∧
      (loadRegs m rs (regs, sp)).2 = sp + BitVec.ofNat 32 (4 * rs.length) := by
  induction rs generalizing regs sp with
  | nil => simp [loadRegs]
  | cons r rs ih =>
    obtain ⟨hword, hrest⟩ : word m sp.toNat = g r ∧ Holds m (storeWords (sp + 4) (rs.map g)) := by
      simpa [Holds, storeWords] using h
    obtain ⟨hin, hout, hdpfp, hsp⟩ := ih (regs.setGp r (word m sp.toNat)) hrest
    refine ⟨?_, ?_, hdpfp, ?_⟩
    · intro r' hr'
      by_cases hmem : r' ∈ rs
      · exact hin r' hmem
      · obtain rfl : r' = r := by simpa [hmem] using hr'
        simp only [loadRegs]
        rw [hout r' hmem, Regs.setGp_gp_same, hword]
    · intro r' hr'
      rw [List.mem_cons, not_or] at hr'
      simp only [loadRegs]
      rw [hout r' hr'.2, Regs.setGp_gp_ne hr'.1]
    · simp only [loadRegs, hsp, List.length_cons]
      rw [show 4 * (rs.length + 1) = 4 + 4 * rs.length by omega, BitVec.ofNat_add, ← BitVec.add_assoc]
      rfl

/-- The unwinder tracks the registers in the mask of a `push`. -/
theorem fromRegNum_pushMask {low : BitVec 8} {lr : Bool} {i : Nat} (hi : i < 16)
    (h : (pushMask low lr).getLsbD i = true) : (ARMGPReg.fromRegNum i).isSome = true := by
  interval_cases i
  all_goals first
    | rfl
    | (exfalso; revert h; cases lr <;> simp [pushMask])

theorem pushMask_and_sp (low : BitVec 8) (lr : Bool) :
    pushMask low lr &&& BitVec.ofNat 32 ARMGPReg.sp.toRegNum = 0 := by
  revert low lr
  decide +kernel

/-- Undoing a `push`. -/
theorem applyInstr_regPop {low : BitVec 8} {lr : Bool} {g : ARMGPReg → Reg}
    (h : Holds m (storeWords (regs.gp .sp) ((pushList low lr).map g))) :
    ∃ regs', applyInstr m regs (.regPop (pushMask low lr)) = some (.ok regs') ∧
      (∀ r ∈ pushList low lr, r ≠ .sp → regs'.gp r = g r) ∧
      (∀ r ∉ pushList low lr, r ≠ .sp → regs'.gp r = regs.gp r) ∧ regs'.dpfp = regs.dpfp ∧
      regs'.gp .sp = regs.gp .sp + BitVec.ofNat 32 (4 * (pushList low lr).length) := by
  obtain ⟨hin, hout, hdpfp, htmp⟩ := loadRegs_spec regs h
  refine ⟨((loadRegs m (pushList low lr) (regs, regs.gp .sp)).1).setGp .sp
    (loadRegs m (pushList low lr) (regs, regs.gp .sp)).2, ?_, ?_, ?_, hdpfp, ?_⟩
  · have hpop : popRegs m (pushMask low lr) (List.range 16) (regs, regs.gp .sp) =
        some (loadRegs m (pushList low lr) (regs, regs.gp .sp)) := by
      refine popRegs_eq ?_ ?_ _
      · intro i hi
        have := List.mem_range.mp hi
        omega
      · intro i hi
        exact fromRegNum_pushMask (List.mem_range.mp hi)
    rw [applyInstr_regPop_eq, hpop, Option.map_some]
    exact congrArg some (if_pos (pushMask_and_sp low lr))
  · intro r hr hne
    rw [Regs.setGp_gp_ne hne, hin r hr]
  · intro r hr hne
    rw [Regs.setGp_gp_ne hne, hout r hr]
  · rw [Regs.setGp_gp_same, htmp]

theorem append_halves (v : BitVec 64) : v.extractLsb' 32 32 ++ v.extractLsb' 0 32 = v := by
  apply BitVec.eq_of_getLsbD_eq
  intro i hi
  rw [BitVec.getLsbD_append]
  by_cases hlow : i < 32
  · simp [hlow]
  · simp [hlow, show 32 + (i - 32) = i by omega, show i - 32 < 32 by omega]

theorem dpfp_fromRegNum {regNum : Nat} (hlo : 8 ≤ regNum) (hhi : regNum < 16) :
    ∃ d, ARMDPFPReg.fromRegNum regNum = some d := by
  interval_cases regNum
  all_goals exact ⟨_, rfl⟩

theorem popVfp_spec (regs : Regs) {count regNum : Nat} {g : ARMDPFPReg → BitVec 64} (hlo : 8 ≤ regNum)
    (hhi : regNum + count ≤ 16)
    (h : Holds m (storeWords (regs.gp .sp)
      (((List.range' regNum count).filterMap ARMDPFPReg.fromRegNum).flatMap fun d => halves (g d)))) :
    ∃ regs', popVfp m regNum count regs = some regs' ∧
      (∀ d ∈ (List.range' regNum count).filterMap ARMDPFPReg.fromRegNum, regs'.dpfp d = g d) ∧
      (∀ d ∉ (List.range' regNum count).filterMap ARMDPFPReg.fromRegNum, regs'.dpfp d = regs.dpfp d) ∧
      (∀ r, r ≠ .sp → regs'.gp r = regs.gp r) ∧
      regs'.gp .sp = regs.gp .sp + BitVec.ofNat 32 (8 * count) := by
  induction count generalizing regNum regs with
  | zero => exact ⟨regs, rfl, by simp, by simp, fun r _ => rfl, by simp⟩
  | succ count ih =>
    obtain ⟨d, hd⟩ := dpfp_fromRegNum hlo (by omega)
    rw [List.range'_succ, List.filterMap_cons_some hd] at h ⊢
    have h : word m (regs.gp .sp).toNat = (g d).extractLsb' 0 32 ∧
        word m (regs.gp .sp + 4).toNat = (g d).extractLsb' 32 32 ∧
        Holds m (storeWords (regs.gp .sp + 4 + 4)
          (((List.range' (regNum + 1) count).filterMap ARMDPFPReg.fromRegNum).flatMap fun d => halves (g d))) := by
      simpa [Holds, storeWords, halves] using h
    obtain ⟨hlow, hhigh, hrest⟩ := h
    have hsp : regs.gp .sp + 4 + 4 = regs.gp .sp + 8 := by rw [BitVec.add_assoc]; rfl
    obtain ⟨regs', hpop, hin, hout, hgp, hsp'⟩ :=
      ih ((regs.setDpfp d (g d)).setGp .sp (regs.gp .sp + 8)) (Nat.le_succ_of_le hlo) (by omega)
        (by rw [Regs.setGp_gp_same, ← hsp]; exact hrest)
    refine ⟨regs', ?_, ?_, ?_, ?_, ?_⟩
    · simp only [popVfp, hd, Option.bind_some, hlow, hhigh, append_halves]
      exact hpop
    · intro d' hd'
      by_cases hmem : d' ∈ (List.range' (regNum + 1) count).filterMap ARMDPFPReg.fromRegNum
      · exact hin d' hmem
      · obtain rfl : d' = d := by simpa only [List.mem_cons, hmem, or_false] using hd'
        rw [hout d' hmem, Regs.setGp_dpfp, Regs.setDpfp_dpfp_same]
    · intro d' hd'
      rw [List.mem_cons, not_or] at hd'
      rw [hout d' hd'.2, Regs.setGp_dpfp, Regs.setDpfp_dpfp_ne hd'.1]
    · intro r hr
      rw [hgp r hr, Regs.setGp_gp_ne hr, Regs.setDpfp_gp]
    · rw [hsp', Regs.setGp_gp_same, show 8 * (count + 1) = 8 + 8 * count by omega, BitVec.ofNat_add,
        ← BitVec.add_assoc]
      rfl

end Applying

-- ---------------------------------------------------------------------------
-- Undoing the last instruction
-- ---------------------------------------------------------------------------

section Undoing

variable {p : List PrologueInstr} {i : PrologueInstr} {caller u u' : Regs} {m : Mem} {rest b bytes : List Byte}

@[simp] theorem run_concat : run (p ++ [i]) caller = i.exec (run p caller) := by simp [run]

theorem pushedWords_concat : pushedWords (p ++ [i]) caller = pushedWords p caller ++ i.words (run p caller) := by
  induction p generalizing caller with
  | nil => simp [pushedWords, run]
  | cons j p ih =>
    simp only [List.cons_append, pushedWords, ih, List.append_assoc]
    rfl

theorem dpfp_exec {regs : Regs} : (i.exec regs).dpfp = regs.dpfp := by cases i <;> rfl

theorem dpfp_run (caller : Regs) : (run p caller).dpfp = caller.dpfp := by
  induction p generalizing caller with
  | nil => rfl
  | cons i p ih => exact (ih (i.exec caller)).trans dpfp_exec

theorem Valid.init (h : Valid (p ++ [i])) : Valid p := by
  intro q r offset q' hp
  obtain ⟨hsaved, honce⟩ := h q r offset (q' ++ [i]) (by simp [hp])
  exact ⟨hsaved, fun r' offset' hmem => honce r' offset' (List.mem_append_left _ hmem)⟩

/-- The frame pointer that is set up last is the only one, in a register that was saved. -/
theorem Valid.last {r : Fin 8} {offset : Nat} (h : Valid (p ++ [.setFp r offset])) :
    calleeReg r ∈ p.flatMap PrologueInstr.savedGp ∧ ∀ r' offset', .setFp r' offset' ∉ p := by
  refine ⟨(h p r offset [] rfl).1, ?_⟩
  intro r' offset' hmem
  obtain ⟨q, q', rfl⟩ := List.append_of_mem hmem
  obtain ⟨-, honce⟩ := h q r' offset' (q' ++ [.setFp r offset]) (by simp)
  exact honce r offset (by simp)

theorem calleeReg_ne_sp (r : Fin 8) : calleeReg r ≠ .sp := by
  revert r
  decide

theorem calleeReg_mem_preserved (r : Fin 8) : calleeReg r ∈ preserved := by
  revert r
  decide

theorem ne_sp_of_mem_preserved {r : ARMGPReg} (h : r ∈ preserved) : r ≠ .sp := by
  rintro rfl
  exact absurd h (by decide)

/-- The registers when an instruction that moves the stack pointer is undone: those that it
saved have their old values again, and so has the stack pointer. -/
structure Undone (i : PrologueInstr) (regs u u' : Regs) : Prop where
  gp : ∀ r ∈ i.savedGp, r ≠ .sp → u'.gp r = regs.gp r
  other : ∀ r ∉ i.savedGp, r ≠ .sp → u'.gp r = u.gp r
  dpfp : ∀ d ∈ i.savedDpfp, u'.dpfp d = regs.dpfp d
  dpfpOther : ∀ d ∉ i.savedDpfp, u'.dpfp d = u.dpfp d
  sp : u.gp .sp = (i.exec regs).gp .sp → u'.gp .sp = regs.gp .sp

/-- The state in the body, without the last instruction of the prologue. -/
theorem InBody.undone (hbody : InBody (p ++ [i]) caller m u) (hundone : Undone i (run p caller) u u')
    (hkeep : ∀ r, r ≠ .sp → (i.exec (run p caller)).gp r = (run p caller).gp r)
    (hsp : needsSp p.reverse = true → needsSp (p ++ [i]).reverse = true) : InBody p caller m u' := by
  obtain ⟨hwords, hgp, hfp, hdpfp, hbodySp⟩ := hbody
  simp only [run_concat] at hgp hfp hbodySp
  refine ⟨?_, ?_, ?_, ?_, ?_⟩
  · intro w hw
    exact hwords w (by rw [pushedWords_concat]; exact List.mem_append_left _ hw)
  · intro r hr hnot
    have hne := ne_sp_of_mem_preserved hr
    by_cases hsaved : r ∈ i.savedGp
    · exact hundone.gp r hsaved hne
    · rw [hundone.other r hsaved hne, hgp r hr, hkeep r hne]
      simp only [List.flatMap_append, List.mem_append, not_or]
      exact ⟨hnot, by simpa using hsaved⟩
  · intro r offset hmem
    have hne := calleeReg_ne_sp r
    by_cases hsaved : calleeReg r ∈ i.savedGp
    · exact hundone.gp _ hsaved hne
    · rw [hundone.other _ hsaved hne, hfp r offset (List.mem_append_left _ hmem), hkeep _ hne]
  · intro d hnot
    by_cases hsaved : d ∈ i.savedDpfp
    · rw [hundone.dpfp d hsaved, dpfp_run]
    · rw [hundone.dpfpOther d hsaved]
      refine hdpfp d ?_
      simp only [List.flatMap_append, List.mem_append, not_or]
      exact ⟨hnot, by simpa using hsaved⟩
  · intro hneeds
    exact hundone.sp (hbodySp (hsp hneeds))

/-- Where the words of the last instruction are. -/
theorem InBody.holds (hbody : InBody (p ++ [i]) caller m u) (hneeds : needsSp (p ++ [i]).reverse = true) :
    Holds m (storeWords (u.gp .sp) (i.saved (run p caller))) := by
  intro w hw
  refine hbody.words w ?_
  rw [pushedWords_concat]
  refine List.mem_append_right _ ?_
  rw [hbody.sp hneeds, run_concat] at hw
  exact hw

theorem length_flatMap_halves (ds : List ARMDPFPReg) (g : ARMDPFPReg → BitVec 64) :
    (ds.flatMap fun d => halves (g d)).length = 2 * ds.length := by
  induction ds with
  | nil => rfl
  | cons d ds ih =>
    rw [List.flatMap_cons, List.length_append, ih, List.length_cons]
    simp only [halves, List.length_cons, List.length_nil]
    omega

theorem length_vpushList {start count : Nat} (h : start + count ≤ 8) :
    (vpushList start count).length = count := by
  induction count generalizing start with
  | zero => rfl
  | succ count ih =>
    obtain ⟨d, hd⟩ : ∃ d, ARMDPFPReg.fromRegNum (8 + start) = some d :=
      dpfp_fromRegNum (by omega) (by omega)
    have ih : (vpushList (start + 1) count).length = count := ih (by omega)
    unfold vpushList at ih ⊢
    rw [List.range'_succ, List.filterMap_cons_some hd, List.length_cons]
    exact congrArg (· + 1) ih

theorem pc_notMem_pushList (low : BitVec 8) (lr : Bool) : .pc ∉ pushList low lr := by
  intro hmem
  obtain ⟨i, hi, hpc⟩ := List.mem_filterMap.mp hmem
  obtain ⟨hrange, hbit⟩ := List.mem_filter.mp hi
  have hlt := List.mem_range.mp hrange
  interval_cases i
  all_goals first
    | (exfalso; revert hbit; cases lr <;> simp [pushMask]; done)
    | cases hpc

theorem InBody.undo_push {low : BitVec 8} {lr : Bool} (hbody : InBody (p ++ [.push low lr]) caller m u) :
    ∃ u', applyInstr m u (.regPop (pushMask low lr)) = some (.ok u') ∧ InBody p caller m u' ∧
      u'.gp .pc = u.gp .pc := by
  have hneeds : needsSp (p ++ [PrologueInstr.push low lr]).reverse = true := by simp [needsSp]
  obtain ⟨u', happly, hin, hout, hdpfp, hsp⟩ := applyInstr_regPop (hbody.holds hneeds)
  refine ⟨u', happly, hbody.undone ⟨hin, hout, ?_, ?_, ?_⟩ ?_ (fun _ => hneeds), hout _ ?_ (by decide)⟩
  · intro d hd
    cases hd
  · intro d _
    rw [hdpfp]
  · intro hsp'
    rw [hsp, hsp']
    simp only [PrologueInstr.exec, PrologueInstr.saved, Regs.setGp_gp_same, List.length_map]
    exact BitVec.sub_add_cancel ..
  · intro r hr
    exact Regs.setGp_gp_ne hr
  · exact pc_notMem_pushList low lr

theorem InBody.undo_vpush {start count : Nat} {h : start + count ≤ 8}
    (hbody : InBody (p ++ [.vpush start count h]) caller m u) :
    ∃ u', popVfp m (8 + start) count u = some u' ∧ InBody p caller m u' ∧ u'.gp .pc = u.gp .pc := by
  have hneeds : needsSp (p ++ [PrologueInstr.vpush start count h]).reverse = true := by simp [needsSp]
  obtain ⟨u', hpop, hin, hout, hgp, hsp⟩ := popVfp_spec u (by omega) (by omega) (hbody.holds hneeds)
  refine ⟨u', hpop, hbody.undone ⟨?_, ?_, hin, hout, ?_⟩ ?_ (fun _ => hneeds), hgp _ (by decide)⟩
  · intro r hr
    cases hr
  · intro r _ hne
    exact hgp r hne
  · intro hsp'
    rw [hsp, hsp']
    simp only [PrologueInstr.exec, PrologueInstr.saved, Regs.setGp_gp_same, length_flatMap_halves,
      length_vpushList h]
    rw [show 4 * (2 * count) = 8 * count by omega]
    exact BitVec.sub_add_cancel ..
  · intro r hr
    exact Regs.setGp_gp_ne hr

theorem InBody.undo_sub {size : Nat} (hbody : InBody (p ++ [.sub size]) caller m u) :
    InBody p caller m (u.setGp .sp (u.gp .sp + BitVec.ofNat 32 size)) := by
  refine hbody.undone ⟨?_, ?_, ?_, ?_, ?_⟩ ?_ ?_
  · intro r hr
    cases hr
  · intro r _ hne
    exact Regs.setGp_gp_ne hne
  · intro d hd
    cases hd
  · intro d _
    rfl
  · intro hsp
    rw [Regs.setGp_gp_same, hsp]
    simp only [PrologueInstr.exec, Regs.setGp_gp_same]
    exact BitVec.sub_add_cancel ..
  · intro r hr
    exact Regs.setGp_gp_ne hr
  · intro hneeds
    simpa [needsSp] using hneeds

/-- The frame pointer tells where the stack pointer was, wherever it is now. -/
theorem InBody.undo_setFp {r : Fin 8} {offset : Nat} (hvalid : Valid (p ++ [.setFp r offset]))
    (hbody : InBody (p ++ [.setFp r offset]) caller m u) :
    InBody p caller m (u.setGp .sp (u.gp (calleeReg r) - BitVec.ofNat 32 offset)) := by
  obtain ⟨hsaved, honce⟩ := hvalid.last
  obtain ⟨hwords, hgp, hfp, hdpfp, -⟩ := hbody
  simp only [run_concat, PrologueInstr.exec] at hgp hfp
  refine ⟨?_, ?_, ?_, ?_, ?_⟩
  · intro w hw
    exact hwords w (by rw [pushedWords_concat]; exact List.mem_append_left _ hw)
  · intro r' hr' hnot
    have hne : r' ≠ calleeReg r := by
      rintro rfl
      exact hnot hsaved
    rw [Regs.setGp_gp_ne (ne_sp_of_mem_preserved hr'), hgp r' hr', Regs.setGp_gp_ne hne]
    simpa [PrologueInstr.savedGp] using hnot
  · intro r' offset' hmem
    exact absurd hmem (honce r' offset')
  · intro d hnot
    exact hdpfp d (by simpa [PrologueInstr.savedDpfp] using hnot)
  · intro _
    rw [Regs.setGp_gp_same, hfp r offset (by simp), Regs.setGp_gp_same]
    exact BitVec.add_sub_cancel ..

theorem applyInstr_regToSp (r : Fin 8) :
    applyInstr m u (.regToSp (BitVec.ofNat 8 (4 + r))) = some (.ok (u.setGp .sp (u.gp (calleeReg r)))) := by
  fin_cases r <;> rfl

/-- The bytes of an instruction take it off the prologue. -/
theorem InBody.undo (hvalid : Valid (p ++ [i])) (henc : Encodes i b) (hbody : InBody (p ++ [i]) caller m u) :
    ∃ u', (∀ rest, applyInstrs m (b ++ rest) u = applyInstrs m rest u') ∧ InBody p caller m u' ∧
      u'.gp .pc = u.gp .pc := by
  cases henc with
  | pushMask low lr h =>
    obtain ⟨u', happly, hbody', hpc⟩ := hbody.undo_push
    exact ⟨u', fun rest => applyInstrs_cons (next_pushMask h) happly, hbody', hpc⟩
  | pushRange k lr =>
    obtain ⟨u', happly, hbody', hpc⟩ := hbody.undo_push
    exact ⟨u', fun rest => applyInstrs_cons (next_pushRange k lr) happly, hbody', hpc⟩
  | pushNone =>
    obtain ⟨u', happly, hbody', hpc⟩ := hbody.undo_push
    have hsame : applyInstr m u (.regPop (pushMask 0 false)) = some (.ok (u.setGp .sp (u.gp .sp))) := rfl
    have heq : u' = u.setGp .sp (u.gp .sp) := Except.ok.inj (Option.some.inj (happly.symm.trans hsame))
    rw [Regs.setGp_self] at heq
    subst heq
    exact ⟨u', fun rest => rfl, hbody', rfl⟩
  | vpush start count h =>
    obtain ⟨u', hpop, hbody', hpc⟩ := hbody.undo_vpush
    refine ⟨u', fun rest => applyInstrs_cons (next_vpush h) ?_, hbody', hpc⟩
    rw [applyInstr_vfpPop_eq, BitVec.toNat_ofNat, BitVec.toNat_ofNat, Nat.mod_eq_of_lt (by omega),
      Nat.mod_eq_of_lt (by omega), hpop, Option.map_some]
  | vpushNone start h =>
    obtain ⟨u', hpop, hbody', hpc⟩ := hbody.undo_vpush
    obtain rfl := Option.some.inj hpop
    exact ⟨u, fun rest => rfl, hbody', hpc⟩
  | sub h => exact ⟨_, fun rest => h.apply, hbody.undo_sub, Regs.setGp_gp_ne (by decide)⟩
  | setFp r h =>
    refine ⟨_, fun rest => ?_, hbody.undo_setFp hvalid, Regs.setGp_gp_ne (by decide)⟩
    rw [List.cons_append, applyInstrs_cons (next_setFp r) (applyInstr_regToSp r), h.apply]
    simp

theorem calleeReg_ne_pc (r : Fin 8) : calleeReg r ≠ .pc := by
  revert r
  decide

/-- The step does not need the program counter. -/
theorem InBody.setPc {v : Reg} (hbody : InBody p caller m u) : InBody p caller m (u.setGp .pc v) := by
  obtain ⟨hwords, hgp, hfp, hdpfp, hsp⟩ := hbody
  refine ⟨hwords, ?_, ?_, hdpfp, ?_⟩
  · intro r hr hnot
    have hne : r ≠ .pc := by
      rintro rfl
      exact absurd hr (by decide)
    rw [Regs.setGp_gp_ne hne, hgp r hr hnot]
  · intro r offset hmem
    rw [Regs.setGp_gp_ne (calleeReg_ne_pc r), hfp r offset hmem]
  · intro hneeds
    rw [Regs.setGp_gp_ne (by decide), hsp hneeds]

/-- Without a prologue, the registers are those of the caller. -/
theorem InBody.entry (hbody : InBody [] caller m u) :
    (∀ r ∈ preserved, u.gp r = caller.gp r) ∧ u.dpfp = caller.dpfp ∧ u.gp .sp = caller.gp .sp := by
  refine ⟨?_, ?_, ?_⟩
  · intro r hr
    exact hbody.gp r hr (by simp)
  · funext d
    exact hbody.dpfp d (by simp)
  · exact hbody.sp rfl

/-- The unwind program takes all instructions off the prologue. -/
theorem InBody.undo_all (hvalid : Valid p) (hprog : Program p bytes) (hbody : InBody p caller m u) :
    ∃ u', (∀ rest, applyInstrs m (bytes ++ rest) u = applyInstrs m rest u') ∧ InBody [] caller m u' ∧
      u'.gp .pc = u.gp .pc := by
  induction hprog generalizing u with
  | nil => exact ⟨u, fun rest => rfl, hbody, rfl⟩
  | concat hp hi ih =>
    obtain ⟨u₁, happly, hbody₁, hpc₁⟩ := hbody.undo hvalid hi
    obtain ⟨u', happly', hbody', hpc'⟩ := ih hvalid.init hbody₁
    refine ⟨u', fun rest => ?_, hbody', hpc'.trans hpc₁⟩
    rw [List.append_assoc, happly, happly']

end Undoing

-- ---------------------------------------------------------------------------
-- The step
-- ---------------------------------------------------------------------------

section Step

variable {n : Nat} {P : Platform} {cfg : Task.Config} {getForPc : Reg → Except String UnwindAbility}
  {p : List PrologueInstr} {bytes : List Byte} {iter : UnwindByteIter} {caller : Regs} {u : UnwindState}
  {s : Machine n} {k : Nat}

/-- The state of the unwinder has the registers of the caller. -/
structure Restores (caller : Regs) (u : UnwindState) : Prop where
  callee : ∀ r, u.regs.gp (calleeReg r) = caller.gp (calleeReg r)
  dpfp : u.regs.dpfp = caller.dpfp
  sp : u.regs.gp .sp = caller.gp .sp
  /-- Inside the instruction that made the call. -/
  pc : u.regs.gp .pc = caller.gp .lr - 2

/-- Unwinding inverts the prologue: a step from the body of a function, whose table entry has
the unwind program of its prologue, gives the registers of the caller. -/
theorem step_restores (hvalid : Valid p) (hprog : Program p bytes)
    (hentry : u.unwAbility = .canUnwind iter) (hiter : iter.toList = bytes ++ List.replicate k 0xb0)
    (hbody : InBody p caller s.mem u.regs) (hrunning : u.regs.gp .pc ≠ 0) (hret : caller.gp .lr ≠ 0)
    (hless : caller.gp .lr ≠ cfg.svcLessStack) :
    ∃ u' r, u.step P cfg getForPc s = some (u', s, r) ∧ Restores caller u' ∧
      u'.stkletBoundary = u.stkletBoundary ∧ r = (getForPc (caller.gp .lr - 2)).map fun _ => () := by
  have hfin : ¬ u.hasFinished = true := by simpa [UnwindState.hasFinished] using hrunning
  obtain ⟨regs, happly, hcaller, hpc⟩ := hbody.setPc.undo_all hvalid hprog
  rw [Regs.setGp_gp_same] at hpc
  obtain ⟨hgp, hdpfp, hsp⟩ := hcaller.entry
  have hlr : regs.gp .lr = caller.gp .lr := hgp _ (by decide)
  -- The program does not touch the program counter, which is that of the return address.
  have happly : applyInstrs s.mem iter.toList (u.regs.setGp .pc (~~~0)) = some (regs, [], .ok ()) := by
    rw [hiter, happly, applyInstrs_padding]
  rw [UnwindState.step, if_neg hfin, hentry]
  simp only [happly, Option.map_some, UnwindState.afterRestore, if_pos hpc, hlr, Regs.setGp_gp_same,
    if_neg hret, if_neg hless, Regs.setGp_setGp, UnwindState.lookup]
  cases getForPc (caller.gp .lr - 2) with
  | error e =>
    refine ⟨_, _, rfl, ⟨fun r => ?_, hdpfp, ?_, Regs.setGp_gp_same⟩, rfl, rfl⟩
    · rw [Regs.setGp_gp_ne (calleeReg_ne_pc r), hgp _ (calleeReg_mem_preserved r)]
    · rw [Regs.setGp_gp_ne (by decide), hsp]
  | ok unwAbility =>
    refine ⟨_, _, rfl, ⟨fun r => ?_, hdpfp, ?_, Regs.setGp_gp_same⟩, rfl, rfl⟩
    · rw [Regs.setGp_gp_ne (calleeReg_ne_pc r), hgp _ (calleeReg_mem_preserved r)]
    · rw [Regs.setGp_gp_ne (by decide), hsp]

end Step

/-- `push r4, r7, lr; add r7, sp, #4; vpush d8; sub sp, #16`. -/
def samplePrologue : List PrologueInstr :=
  [.push 0b1001 true, .setFp 3 4, .vpush 0 1 (by decide), .sub 16]

/-- Its unwind program in a table entry, after the byte that selects the personality routine. -/
def sampleEntry : UnwindByteIter :=
  { bytes := [0x80, 0xc9, 0x03, 0x80, 0x09, 0x84, 0x40, 0x97, 0xb0, 0xb0, 0xb0, 0xb0], pos := 1, length_mod := rfl }

def sampleCaller : Regs where
  gp
    | .r4 => 4
    | .r7 => 7
    | .sp => 0x20001000
    | .lr => 0x08000C01
    | _ => 0
  dpfp d := if d = .d8 then 0x0123456789abcdef else 0

/-- The registers in the body: those that were saved are used, and `r7` is the frame pointer. -/
def sampleBody : Regs where
  gp
    | .r4 => 44
    | .r7 => 0x20000ff8
    | .sp => 0x20000fdc
    | .pc => 0x08000801
    | _ => 0
  dpfp _ := 0

def sampleMem : Mem :=
  ((pushedWords samplePrologue sampleCaller).foldl (fun m w => setWord m w.1 w.2) fun _ => 0)

theorem step_restores_sample : ∃ s : Machine 1, ∃ u' r,
    UnwindState.step board boardConfig (fun _ => .ok .cantUnwind)
        ⟨sampleBody, .canUnwind sampleEntry, 0x20000100, false⟩ s = some (u', s, r) ∧
      Restores sampleCaller u' := by
  obtain ⟨client, -, -⟩ := boardHeap_start
  have hvalid : Valid samplePrologue := by
    intro q r offset q' hq
    rcases q with _ | ⟨i₁, _ | ⟨i₂, _ | ⟨i₃, _ | ⟨i₄, q⟩⟩⟩⟩
    all_goals simp [samplePrologue] at hq
    obtain ⟨rfl, ⟨rfl, rfl⟩, rfl⟩ := hq
    exact ⟨by decide, by simp⟩
  have hprog : Program samplePrologue [0x03, 0xc9, 0x80, 0x97, 0x40, 0x84, 0x09] :=
    (((Program.nil.concat (.pushMask 0b1001 true (.inr rfl))).concat (.setFp 3 (.short 0 (by decide) .nil))).concat
      (.vpush 0 0 (by decide))).concat (.sub (.short 3 (by decide) .nil))
  have hbody : InBody samplePrologue sampleCaller sampleMem sampleBody := by
    refine ⟨?_, ?_, ?_, ?_, ?_⟩
    · unfold Holds
      decide +kernel
    · decide +kernel
    · intro r offset hmem
      obtain ⟨rfl, rfl⟩ : r = 3 ∧ offset = 4 := by simpa [samplePrologue] using hmem
      decide +kernel
    · intro d
      cases d <;> decide +kernel
    · intro _
      decide +kernel
  obtain ⟨s, hmem⟩ : ∃ s : Machine 1, s.mem = sampleMem :=
    ⟨((boardTask (.default 1) client).machine).setMem sampleMem, rfl⟩
  have hlist : sampleEntry.toList = [0x03, 0xc9, 0x80, 0x97, 0x40, 0x84, 0x09] ++ List.replicate 4 0xb0 := by
    decide +kernel
  obtain ⟨u', r, hstep, hrestores, -⟩ :=
    step_restores (P := board) (n := 1) (s := s) (u := ⟨sampleBody, .canUnwind sampleEntry, 0x20000100, false⟩)
      hvalid hprog rfl hlist (hmem ▸ hbody) (by decide) (by decide)
      (show sampleCaller.gp .lr ≠ boardConfig.svcLessStack by decide)
  exact ⟨s, u', r, hstep, hrestores⟩

end Hopter.Unwind
