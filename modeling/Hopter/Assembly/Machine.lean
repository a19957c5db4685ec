-- SUMMARY: Thumb code with labels, condition flags and calls by symbol, over any set of routines.
import Hopter.Base.Leads
import Hopter.Task.SegmentedStack

/-!
# Machine code with branches

A routine is a list of lines, as in the source: a numeric label, or an
instruction. `0b` is the nearest label `0` before the branch and `1f` the nearest
label `1` after it. The routines are placed in memory by a layout, and a jump to
an address enters a routine when it is the address of one. When control goes to
any other address, it has left the routines.
-/

namespace Hopter.Assembly

open Hopter.Task

/-- The core registers. -/
inductive Core where
  | r0 | r1 | r2 | r3 | r4 | r5 | r6 | r7 | r8 | r9 | r10 | r11 | r12 | sp | lr
  deriving DecidableEq

structure Flags where
  n : Bool
  z : Bool
  c : Bool
  v : Bool

structure Cpu where
  reg : Core → Reg
  flags : Flags
  mem : Mem

-- ---------------------------------------------------------------------------
-- Instructions
-- ---------------------------------------------------------------------------

inductive Cond where
  | eq | ne | le

inductive Operand where
  | imm (v : Reg)
  | reg (rm : Core)

inductive Address where
  /-- `[rn]`. -/
  | base (rn : Core)
  /-- `[rn, rm]`. -/
  | index (rn rm : Core)
  /-- `[rn], #imm`. -/
  | post (rn : Core) (imm : Reg)

inductive Label where
  /-- `0b`. -/
  | back (l : Nat)
  /-- `0f`. -/
  | fwd (l : Nat)

/-- The instructions of routines that name each other by symbols from `φ`. -/
inductive Instr (φ : Type) where
  | mov (rd rm : Core)
  | eors (rd rm : Core)
  | adds (rd : Core) (o : Operand)
  | subs (rd : Core) (o : Operand)
  | cmp (rn : Core) (o : Operand)
  | ldrb (rt : Core) (a : Address)
  | strb (rt : Core) (a : Address)
  /-- `ldr rd, =symbol`. -/
  | ldr (rd : Core) (f : φ)
  | cbz (rn : Core) (l : Label)
  | bcc (cond : Cond) (l : Label)
  /-- `b symbol`. -/
  | b (f : φ)
  | bx (rm : Core)

inductive Line (φ : Type) where
  | label (l : Nat)
  | instr (x : Instr φ)

/-- Where the linker puts the routines. -/
structure Layout (φ : Type) where
  addr : φ → Reg
  entry : Reg → Option φ
  entry_iff : ∀ {a f}, entry a = some f ↔ addr f = a

inductive Pc (φ : Type) where
  /-- At a line of a routine. -/
  | at (f : φ) (line : Nat)
  /-- At an address. -/
  | addr (a : Reg)

structure State (φ : Type) where
  pc : Pc φ
  cpu : Cpu

-- ---------------------------------------------------------------------------
-- Meaning
-- ---------------------------------------------------------------------------

def Cond.holds : Cond → Flags → Bool
  | .eq, f => f.z
  | .ne, f => !f.z
  | .le, f => f.z || f.n != f.v

def addFlags (a b : Reg) : Flags where
  n := (a + b).msb
  z := a + b == 0
  c := BitVec.uaddOverflow a b
  v := BitVec.saddOverflow a b

def subFlags (a b : Reg) : Flags where
  n := (a - b).msb
  z := a - b == 0
  c := !BitVec.usubOverflow a b
  v := BitVec.ssubOverflow a b

namespace Cpu

def set (c : Cpu) (rd : Core) (v : Reg) : Cpu := { c with reg := Function.update c.reg rd v }

def operand (c : Cpu) : Operand → Reg
  | .imm v => v
  | .reg rm => c.reg rm

/-- The address of a load or store. -/
def address (c : Cpu) : Address → Reg
  | .base rn => c.reg rn
  | .index rn rm => c.reg rn + c.reg rm
  | .post rn _ => c.reg rn

/-- What a load or store does to its base register. -/
def writeback (c : Cpu) : Address → Cpu
  | .post rn imm => c.set rn (c.reg rn + imm)
  | _ => c

end Cpu

section Meaning

variable {φ : Type}

/-- What an instruction does to the registers and the memory. -/
def Instr.exec (c : Cpu) : Instr φ → Layout φ → Cpu
  | .mov rd rm, _ => c.set rd (c.reg rm)
  | .eors rd rm, _ =>
    let v := c.reg rd ^^^ c.reg rm
    { c.set rd v with flags := { c.flags with n := v.msb, z := v == 0 } }
  | .adds rd o, _ => { c.set rd (c.reg rd + c.operand o) with flags := addFlags (c.reg rd) (c.operand o) }
  | .subs rd o, _ => { c.set rd (c.reg rd - c.operand o) with flags := subFlags (c.reg rd) (c.operand o) }
  | .cmp rn o, _ => { c with flags := subFlags (c.reg rn) (c.operand o) }
  | .ldrb rt a, _ => (c.writeback a).set rt (BitVec.ofNat 32 (c.mem (c.address a).toNat).toNat)
  | .strb rt a, _ =>
    { c.writeback a with mem := c.mem.storeByte (c.address a).toNat (UInt8.ofNat (c.reg rt).toNat) }
  | .ldr rd f, L => c.set rd (L.addr f)
  | .cbz _ _, _ | .bcc _ _, _ | .b _, _ | .bx _, _ => c

inductive Goto (φ : Type) where
  | fall
  | label (l : Label)
  | routine (f : φ)
  | addr (a : Reg)

/-- Where control goes after an instruction. -/
def Instr.goto (c : Cpu) : Instr φ → Goto φ
  | .cbz rn l => if c.reg rn = 0 then .label l else .fall
  | .bcc cond l => if cond.holds c.flags then .label l else .fall
  | .b f => .routine f
  | .bx rm => .addr (c.reg rm)
  | _ => .fall

def Line.isLabel (l : Nat) : Line φ → Bool
  | .label l' => l == l'
  | .instr _ => false

/-- The line of a label, seen from line `i`. -/
def resolve (ls : List (Line φ)) (i : Nat) : Label → Option Nat
  | .back l => ((ls.take i).reverse.findIdx? (Line.isLabel l)).map fun d => i - 1 - d
  | .fwd l => ((ls.drop i).findIdx? (Line.isLabel l)).map fun d => i + d

/-- One step; there is none from an address outside of the routines. -/
def step (code : φ → List (Line φ)) (L : Layout φ) (s : State φ) : Option (State φ) :=
  match s.pc with
  | .addr a => (L.entry a).map fun f => ⟨.at f 0, s.cpu⟩
  | .at f i =>
    match (code f)[i]? with
    | none => none
    | some (.label _) => some ⟨.at f (i + 1), s.cpu⟩
    | some (.instr x) =>
      match x.goto s.cpu with
      | .fall => some ⟨.at f (i + 1), x.exec s.cpu L⟩
      | .label l => (resolve (code f) i l).map fun j => ⟨.at f j, x.exec s.cpu L⟩
      | .routine g => some ⟨.at g 0, x.exec s.cpu L⟩
      | .addr a => some ⟨.addr a, x.exec s.cpu L⟩

-- ---------------------------------------------------------------------------
-- Branches
-- ---------------------------------------------------------------------------

variable {code : φ → List (Line φ)} {L : Layout φ} {f : φ} {i j : Nat} {c : Cpu} {cond : Cond} {l : Label}
  {rn : Core} {I Q : State φ → Prop}

theorem leads_bcc (hline : (code f)[i]? = some (.instr (.bcc cond l))) (hl : resolve (code f) i l = some j)
    (hI : I ⟨.at f i, c⟩) (hyes : cond.holds c.flags = true → Leads (step code L) I Q ⟨.at f j, c⟩)
    (hno : cond.holds c.flags = false → Leads (step code L) I Q ⟨.at f (i + 1), c⟩) :
    Leads (step code L) I Q ⟨.at f i, c⟩ := by
  cases hcond : cond.holds c.flags with
  | true =>
    refine .next hI ?_ (hyes hcond)
    simp only [step, hline, Instr.goto, hcond, if_true, hl, Option.map_some, Instr.exec]
  | false =>
    refine .next hI ?_ (hno hcond)
    simp only [step, hline, Instr.goto, hcond, Bool.false_eq_true, if_false, Instr.exec]

/-- The branch at the end of a loop whose last iteration is the one that makes `ne` fail. -/
theorem leads_bne {k n : Nat} (hline : (code f)[i]? = some (.instr (.bcc .ne l)))
    (hl : resolve (code f) i l = some j) (hI : I ⟨.at f i, c⟩) (hk : k < n)
    (hne : Cond.ne.holds c.flags = decide (k + 1 < n))
    (hback : k + 1 < n → Leads (step code L) I Q ⟨.at f j, c⟩)
    (hout : k + 1 = n → Leads (step code L) I Q ⟨.at f (i + 1), c⟩) : Leads (step code L) I Q ⟨.at f i, c⟩ := by
  refine leads_bcc hline hl hI (fun h => hback ?_) fun h => hout ?_
  · exact of_decide_eq_true (hne.symm.trans h)
  · exact le_antisymm hk (not_lt.mp (of_decide_eq_false (hne.symm.trans h)))

theorem leads_cbz (hline : (code f)[i]? = some (.instr (.cbz rn l))) (hl : resolve (code f) i l = some j)
    (hI : I ⟨.at f i, c⟩) (hyes : c.reg rn = 0 → Leads (step code L) I Q ⟨.at f j, c⟩)
    (hno : c.reg rn ≠ 0 → Leads (step code L) I Q ⟨.at f (i + 1), c⟩) :
    Leads (step code L) I Q ⟨.at f i, c⟩ := by
  by_cases hrn : c.reg rn = 0
  · refine .next hI ?_ (hyes hrn)
    simp only [step, hline, Instr.goto, hrn, if_true, hl, Option.map_some, Instr.exec]
  · refine .next hI ?_ (hno hrn)
    simp only [step, hline, Instr.goto, hrn, if_false, Instr.exec]

/-- A jump to the address of a routine enters it. -/
theorem step_entry : step code L ⟨.addr (L.addr f), c⟩ = some ⟨.at f 0, c⟩ := by
  simp only [step, L.entry_iff.mpr rfl, Option.map_some]

-- ---------------------------------------------------------------------------
-- Comparisons
-- ---------------------------------------------------------------------------

variable {a b : Reg}

theorem subFlags_z : (subFlags a b).z = (a == b) := by
  rw [subFlags, Bool.eq_iff_iff, beq_iff_eq, beq_iff_eq, BitVec.sub_eq_iff_eq_add, BitVec.ofNat_eq_ofNat,
    BitVec.zero_add]

/-- The flags `n` and `v` differ when the first operand is the smaller one as a signed number. -/
theorem subFlags_lt : ((subFlags a b).n != (subFlags a b).v) = decide (a.toInt < b.toInt) := by
  have ha := a.toInt_lt
  have ha' := a.le_toInt
  have hb := b.toInt_lt
  have hb' := b.le_toInt
  have hn : (subFlags a b).n = decide ((a.toInt - b.toInt).bmod (2 ^ 32) < 0) := by
    rw [subFlags, BitVec.msb_eq_toInt, BitVec.toInt_sub]
  have hv : (subFlags a b).v = decide (2 ^ 31 ≤ a.toInt - b.toInt ∨ a.toInt - b.toInt < -2 ^ 31) := by
    simp [subFlags, BitVec.ssubOverflow]
  rw [hn, hv, Bool.eq_iff_iff, bne_iff_ne, ne_eq, decide_eq_decide, decide_eq_true_iff, Int.bmod]
  omega

/-- The condition `le` compares signed numbers. -/
theorem holds_le : Cond.le.holds (subFlags a b) = decide (a.toInt ≤ b.toInt) := by
  rw [Cond.holds, subFlags_lt, subFlags_z, Bool.eq_iff_iff, Bool.or_eq_true, beq_iff_eq,
    decide_eq_true_iff, decide_eq_true_iff, ← BitVec.toInt_inj]
  omega

end Meaning

end Hopter.Assembly
