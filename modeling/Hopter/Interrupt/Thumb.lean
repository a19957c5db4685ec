-- SUMMARY: Straight-line machine code: core and floating point registers, and loads and stores of several words.
import Hopter.Task.SegmentedStack

/-!
# Machine code

The instructions of the PendSV entry sequences. An address is the number in a
register, and the words of one load or store do not wrap around the end of the
memory.
-/

namespace Hopter.Interrupt

open Hopter.Task

/-- The core registers. The two stack pointers have names of their own. -/
inductive Core where
  | r0 | r1 | r2 | r3 | r4 | r5 | r6 | r7 | r8 | r9 | r10 | r11 | r12 | lr
  deriving DecidableEq

structure Cpu where
  reg : Core → Reg
  /-- `s0` to `s31`. -/
  fp : Fin 32 → Reg
  psp : Reg
  msp : Reg
  /-- The flag that `cmp` sets when its operands are equal. -/
  zero : Bool
  mem : Mem

-- ---------------------------------------------------------------------------
-- Several words
-- ---------------------------------------------------------------------------

def loadWords (m : Mem) (a : Nat) : Nat → List Reg
  | 0 => []
  | n + 1 => word m a :: loadWords m (a + 4) n

def storeWords (m : Mem) (a : Nat) : List Reg → Mem
  | [] => m
  | v :: vs => storeWords (setWord m a v) (a + 4) vs

/-- Registers of any kind get new values. -/
def setAll {ρ : Type} [DecidableEq ρ] (f : ρ → Reg) : List ρ → List Reg → ρ → Reg
  | r :: rs, v :: vs => setAll (Function.update f r v) rs vs
  | _, _ => f

variable {m m' : Mem} {a b n : Nat} {vs : List Reg}

theorem loadWords_getElem? {i : Nat} (h : i < n) : (loadWords m a n)[i]? = some (word m (a + 4 * i)) := by
  induction n generalizing a i with
  | zero => omega
  | succ n ih =>
    cases i with
    | zero => rfl
    | succ i =>
      rw [loadWords, List.getElem?_cons_succ, ih (by omega), Nat.mul_succ, Nat.add_right_comm a 4,
        Nat.add_assoc]

@[simp] theorem length_loadWords : (loadWords m a n).length = n := by
  induction n generalizing a with
  | zero => rfl
  | succ n ih => rw [loadWords, List.length_cons, ih]

theorem setAll_of_not_mem {ρ : Type} [DecidableEq ρ] {f : ρ → Reg} {rs : List ρ} {r : ρ} (h : r ∉ rs) :
    setAll f rs vs r = f r := by
  induction rs generalizing f vs with
  | nil => rfl
  | cons r' rs ih =>
    rw [List.mem_cons, not_or] at h
    cases vs with
    | nil => rfl
    | cons v vs => rw [setAll, ih h.2, Function.update_of_ne h.1]

/-- A register gets the value at its place. -/
theorem setAll_of_getElem? {ρ : Type} [DecidableEq ρ] {f : ρ → Reg} {rs : List ρ} {r : ρ} {v : Reg} {i : Nat}
    (hrs : rs.Nodup) (hr : rs[i]? = some r) (hv : vs[i]? = some v) : setAll f rs vs r = v := by
  induction rs generalizing f vs i with
  | nil => simp at hr
  | cons r' rs ih =>
    rw [List.nodup_cons] at hrs
    cases vs with
    | nil => simp at hv
    | cons v' vs =>
      cases i with
      | zero =>
        obtain rfl : r' = r := by simpa using hr
        obtain rfl : v' = v := by simpa using hv
        rw [setAll, setAll_of_not_mem hrs.1, Function.update_self]
      | succ i => exact ih hrs.2 (by simpa using hr) (by simpa using hv)

theorem map_setAll {ρ : Type} [DecidableEq ρ] {f : ρ → Reg} {rs : List ρ} (hrs : rs.Nodup)
    (hlen : vs.length = rs.length) : rs.map (setAll f rs vs) = vs := by
  refine List.ext_getElem (by rw [List.length_map, hlen]) fun i hi hi' => ?_
  rw [List.length_map] at hi
  rw [List.getElem_map]
  exact setAll_of_getElem? hrs (List.getElem?_eq_getElem hi) (List.getElem?_eq_getElem hi')

theorem storeWords_append {ws : List Reg} :
    storeWords m a (vs ++ ws) = storeWords (storeWords m a vs) (a + 4 * vs.length) ws := by
  induction vs generalizing m a with
  | nil => rfl
  | cons v vs ih =>
    rw [List.cons_append, storeWords, ih, storeWords, List.length_cons]
    congr 1
    omega

theorem storeWords_outside {y : Nat} (h : y < a ∨ a + 4 * vs.length ≤ y) : storeWords m a vs y = m y := by
  induction vs generalizing m a with
  | nil => rfl
  | cons v vs ih =>
    rw [List.length_cons] at h
    rw [storeWords, ih (by omega), setWord_outside (by omega)]

theorem agreeOn_storeWords {c : Nat} (h : c ≤ a ∨ a + 4 * vs.length ≤ b) :
    m.AgreeOn (storeWords m a vs) b c := by
  intro y hb hc
  exact storeWords_outside (by omega)

theorem word_storeWords_disjoint (h : b + 4 ≤ a ∨ a + 4 * vs.length ≤ b) :
    word (storeWords m a vs) b = word m b :=
  word_congr (agreeOn_storeWords h)

/-- What is stored can be loaded again. -/
theorem word_storeWords {i : Nat} {v : Reg} (h : vs[i]? = some v) :
    word (storeWords m a vs) (a + 4 * i) = v := by
  induction vs generalizing m a i with
  | nil => simp at h
  | cons w vs ih =>
    cases i with
    | zero =>
      obtain rfl : w = v := by simpa using h
      rw [storeWords, word_storeWords_disjoint (by omega)]
      exact word_setWord_same
    | succ i =>
      rw [storeWords, show a + 4 * (i + 1) = a + 4 + 4 * i by omega]
      exact ih (by simpa using h)

theorem loadWords_append {k : Nat} : loadWords m a (n + k) = loadWords m a n ++ loadWords m (a + 4 * n) k := by
  induction n generalizing a with
  | zero => simp [loadWords]
  | succ n ih => simp [Nat.add_right_comm n 1 k, loadWords, ih, Nat.mul_succ, Nat.add_comm 4, Nat.add_assoc]

theorem loadWords_congr (h : m.AgreeOn m' a (a + 4 * n)) : loadWords m' a n = loadWords m a n := by
  induction n generalizing a with
  | zero => rfl
  | succ n ih => rw [loadWords, loadWords, word_congr (h.mono le_rfl (by omega)), ih (h.mono (by omega) (by omega))]

theorem loadWords_storeWords : loadWords (storeWords m a vs) a vs.length = vs := by
  induction vs generalizing m a with
  | nil => rfl
  | cons v vs ih =>
    have hhead : word (storeWords (setWord m a v) (a + 4) vs) a = v := by
      rw [word_storeWords_disjoint (by omega), word_setWord_same]
    rw [List.length_cons, loadWords, storeWords, hhead, ih]

-- ---------------------------------------------------------------------------
-- Instructions
-- ---------------------------------------------------------------------------

inductive Instr where
  | mov (rd rm : Core)
  /-- `mov rd, #imm` and `ldr rd, =imm`. -/
  | const (rd : Core) (imm : Reg)
  | movw (rd : Core) (imm : BitVec 16)
  | movt (rd : Core) (imm : BitVec 16)
  | mrsPsp (rd : Core)
  | msrPsp (rn : Core)
  | mrsMsp (rd : Core)
  /-- `ldr rd, [rn]`. -/
  | ldr (rd rn : Core)
  /-- `ldmia rn, {..}`, and with `wb` the form `ldmia rn!, {..}`. -/
  | ldmia (rn : Core) (wb : Bool) (rs : List Core)
  | stmia (rn : Core) (wb : Bool) (rs : List Core)
  /-- `vldmia rn!, {..}`. -/
  | vldmia (rn : Core) (ss : List (Fin 32))
  | vstmia (rn : Core) (ss : List (Fin 32))
  | cmp (rn rm : Core)

/-- The base register after a load or store of `n` words. -/
def writeback (wb : Bool) (rn : Core) (n : Nat) (reg : Core → Reg) : Core → Reg :=
  if wb then Function.update reg rn (reg rn + BitVec.ofNat 32 (4 * n)) else reg

/-- None of the instructions has its base register among the loaded ones, so the order of
the loads and of the write-back does not matter. -/
def Cpu.exec (c : Cpu) : Instr → Cpu
  | .mov rd rm => { c with reg := Function.update c.reg rd (c.reg rm) }
  | .const rd imm => { c with reg := Function.update c.reg rd imm }
  | .movw rd imm => { c with reg := Function.update c.reg rd (imm.setWidth 32) }
  | .movt rd imm =>
    { c with reg := Function.update c.reg rd (imm ++ (c.reg rd).extractLsb' 0 16) }
  | .mrsPsp rd => { c with reg := Function.update c.reg rd c.psp }
  | .msrPsp rn => { c with psp := c.reg rn }
  | .mrsMsp rd => { c with reg := Function.update c.reg rd c.msp }
  | .ldr rd rn => { c with reg := Function.update c.reg rd (word c.mem (c.reg rn).toNat) }
  | .ldmia rn wb rs =>
    { c with
      reg := writeback wb rn rs.length (setAll c.reg rs (loadWords c.mem (c.reg rn).toNat rs.length)) }
  | .stmia rn wb rs =>
    { c with
      mem := storeWords c.mem (c.reg rn).toNat (rs.map c.reg)
      reg := writeback wb rn rs.length c.reg }
  | .vldmia rn ss =>
    { c with
      fp := setAll c.fp ss (loadWords c.mem (c.reg rn).toNat ss.length)
      reg := writeback true rn ss.length c.reg }
  | .vstmia rn ss =>
    { c with
      mem := storeWords c.mem (c.reg rn).toNat (ss.map c.fp)
      reg := writeback true rn ss.length c.reg }
  | .cmp rn rm => { c with zero := c.reg rn == c.reg rm }

def Cpu.execAll (c : Cpu) (is : List Instr) : Cpu := is.foldl Cpu.exec c

@[simp] theorem Cpu.execAll_nil (c : Cpu) : c.execAll [] = c := rfl

@[simp] theorem Cpu.execAll_cons (c : Cpu) (i : Instr) (is : List Instr) :
    c.execAll (i :: is) = (c.exec i).execAll is := rfl

/-- A `movw` and a `movt` load a constant. -/
theorem append_extractLsb' (x : Reg) :
    x.extractLsb' 16 16 ++ ((x.extractLsb' 0 16).setWidth 32).extractLsb' 0 16 = x := by
  have hlow : ((x.extractLsb' 0 16).setWidth 32).extractLsb' 0 16 = x.extractLsb' 0 16 := by
    ext i hi
    simp [hi]
    omega
  rw [hlow]
  ext i hi
  rw [BitVec.getElem_append]
  split
  · simp [BitVec.getLsbD_eq_getElem hi]
  · have : 16 + (i - 16) = i := by omega
    simp [this, BitVec.getLsbD_eq_getElem hi]

end Hopter.Interrupt
