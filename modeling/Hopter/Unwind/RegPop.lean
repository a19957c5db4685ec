-- SUMMARY: What popping registers does: the words of the stack in order, and the stack pointer behind them.
import Hopter.Unwind.Prologue

/-!
# Popping registers

The instruction `RegPop` loads the registers of a mask from successive words of the stack. When
the mask has the stack pointer, the popped word is its new value, and else it moves behind the
words. `UnwindState::step` tells the two cases apart with `mask & 13`, which looks at the bits of
`r0`, `r2` and `r3` and not at that of `r13`.
-/

namespace Hopter.Unwind

open Hopter.Allocator Hopter.Task

variable {m : Mem} {mask : Reg} {regs regs' : Regs} {sp : Reg} {i j : Nat} {r : ARMGPReg}
  {xs ys rs : List ARMGPReg}

-- ---------------------------------------------------------------------------
-- Masks
-- ---------------------------------------------------------------------------

/-- The number of registers of the mask with a number below `i`. -/
def selectedBelow (mask : Reg) (i : Nat) : Nat := (List.range i).countP fun j => mask.getLsbD j

/-- The unwinder tracks all registers of the mask. -/
def Tracked (mask : Reg) : Prop :=
  ∀ i < 16, mask.getLsbD i = true → (ARMGPReg.fromRegNum i).isSome = true

instance : Decidable (Tracked mask) :=
  inferInstanceAs (Decidable (∀ i < 16, mask.getLsbD i = true → (ARMGPReg.fromRegNum i).isSome = true))

/-- `step_iter` yields a pop of the registers of the mask. -/
def Decoded (mask : Reg) : Prop :=
  ∃ iter rest, UnwindInstruction.stepIter iter = (.ok (some (.regPop mask)), rest)

theorem fromRegNum_toRegNum (r : ARMGPReg) : ARMGPReg.fromRegNum r.toRegNum = some r := by
  cases r <;> rfl

theorem toRegNum_lt (r : ARMGPReg) : r.toRegNum < 16 := by cases r <;> decide

theorem fromRegNum_eq_some (hi : i < 16) : ARMGPReg.fromRegNum i = some r ↔ i = r.toRegNum := by
  constructor
  · intro h
    interval_cases i <;> cases h <;> rfl
  · rintro rfl
    exact fromRegNum_toRegNum r

theorem withNext_ok {iter rest : List Byte} {f : Byte → UnwindInstruction} {instr : UnwindInstruction}
    (h : UnwindInstruction.withNext iter f = (.ok (some instr), rest)) : ∃ op2, f op2 = instr := by
  cases iter with
  | nil => simp [UnwindInstruction.withNext] at h
  | cons op2 iter =>
    simp only [UnwindInstruction.withNext, Prod.mk.injEq, Except.ok.injEq, Option.some.injEq] at h
    exact ⟨op2, h.1⟩

/-- What is read pops registers from `r4` on only, or up to `r3` only, if it is a pop. -/
def OneSided (r : Except String (Option UnwindInstruction) × List Byte) : Prop :=
  ∀ mask rest, r = (.ok (some (.regPop mask)), rest) →
    (∀ i < 4, mask.getLsbD i = false) ∨ ∀ i, 4 ≤ i → mask.getLsbD i = false

theorem oneSided_ite {c : Prop} [Decidable c] {x y : Except String (Option UnwindInstruction) × List Byte}
    (hx : OneSided x) (hy : OneSided y) : OneSided (if c then x else y) := by
  split
  · exact hx
  · exact hy

theorem oneSided_of_ne {r : Except String (Option UnwindInstruction) × List Byte}
    (h : ∀ mask rest, r ≠ (.ok (some (.regPop mask)), rest)) : OneSided r :=
  fun mask rest hr => absurd hr (h mask rest)

theorem oneSided_withNext {iter : List Byte} {f : Byte → UnwindInstruction}
    (h : ∀ op2 mask, f op2 = .regPop mask →
      (∀ i < 4, mask.getLsbD i = false) ∨ ∀ i, 4 ≤ i → mask.getLsbD i = false) :
    OneSided (UnwindInstruction.withNext iter f) := by
  intro mask rest hr
  obtain ⟨op2, hop2⟩ := withNext_ok hr
  exact h op2 mask hop2

theorem oneSided_pop {iter : List Byte} {mask : Reg} (h : ∀ i < 4, mask.getLsbD i = false) :
    OneSided (.ok (some (.regPop mask)), iter) := by
  intro mask' rest hr
  obtain rfl : mask = mask' := by simpa using (Prod.mk.inj hr).1
  exact Or.inl h

/-- `0x80` to `0x8f`. -/
theorem popMask_oneSided {op op2 : Byte} (h : UnwindInstruction.popMask op op2 = .regPop mask) :
    ∀ i < 4, mask.getLsbD i = false := by
  simp only [UnwindInstruction.popMask] at h
  split at h
  · cases h
  · split at h
    · cases h
    · obtain rfl := UnwindInstruction.regPop.inj h
      exact fun i hi => by simp [BitVec.getLsbD_shiftLeft, hi]

/-- `0xb1`. -/
theorem popLow_oneSided {op2 : Byte}
    (h : (if op2 = 0 ∨ op2 &&& 0xf0 ≠ 0 then UnwindInstruction.reserved
      else .regPop ((op2 &&& 0x0f).zeroExtend 32)) = .regPop mask) :
    ∀ i, 4 ≤ i → mask.getLsbD i = false := by
  split at h
  · cases h
  · obtain rfl := UnwindInstruction.regPop.inj h
    intro i hi
    have hpow : 2 ^ 4 ≤ 2 ^ i := Nat.pow_le_pow_right (by decide) hi
    have hlow : (15#32).getLsbD i = false := Nat.testBit_lt_two_pow (lt_of_lt_of_le (by decide) hpow)
    simp [BitVec.getLsbD_setWidth, hlow]

/-- `0xa0` to `0xaf`. -/
theorem popRange_oneSided {op : Byte} {range : Reg} :
    ∀ i < 4, (if op &&& 0x08 ≠ 0 then (range <<< 4) ||| ((1 : BitVec 32) <<< 14) else range <<< 4).getLsbD i = false := by
  intro i hi
  have hlr : ((1 : BitVec 32) <<< 14).getLsbD i = false := by interval_cases i <;> rfl
  split
  · rw [BitVec.getLsbD_or, hlr, BitVec.getLsbD_shiftLeft]
    simp [hi]
  · rw [BitVec.getLsbD_shiftLeft]
    simp [hi]

/-- The masks of `0x80` to `0x8f` and `0xa0` to `0xaf` begin at `r4`, and that of `0xb1` ends at `r3`. -/
theorem Decoded.cases (h : Decoded mask) : (∀ i < 4, mask.getLsbD i = false) ∨
    ∀ i, 4 ≤ i → mask.getLsbD i = false := by
  obtain ⟨iter, rest, hstep⟩ := h
  cases iter with
  | nil => cases hstep
  | cons op iter =>
    refine (?_ : OneSided (UnwindInstruction.stepIter (op :: iter))) mask rest hstep
    have hother : ∀ {instr : UnwindInstruction}, (∀ mask, instr ≠ .regPop mask) →
        OneSided (.ok (some instr), iter) := fun hne =>
      oneSided_of_ne fun mask _ hr => hne mask (Option.some.inj (Except.ok.inj (Prod.mk.inj hr).1))
    refine oneSided_ite (hother nofun) (oneSided_ite (hother nofun) (oneSided_ite ?_ (oneSided_ite ?_ ?_)))
    · exact oneSided_withNext fun op2 mask hmask => Or.inl (popMask_oneSided hmask)
    · exact oneSided_ite (hother nofun) (hother nofun)
    refine oneSided_ite (oneSided_pop popRange_oneSided) (oneSided_ite (hother nofun) (oneSided_ite ?_ ?_))
    · exact oneSided_withNext fun op2 mask hmask => Or.inr (popLow_oneSided hmask)
    refine oneSided_ite ?_ (oneSided_ite ?_ (oneSided_ite ?_ (hother nofun)))
    · split
      · exact oneSided_of_ne nofun
      · exact oneSided_of_ne nofun
    · exact oneSided_withNext nofun
    · exact oneSided_withNext nofun

-- ---------------------------------------------------------------------------
-- Loading
-- ---------------------------------------------------------------------------

theorem loadRegs_append (s : Regs × Reg) : loadRegs m (xs ++ ys) s = loadRegs m ys (loadRegs m xs s) := by
  induction xs generalizing s with
  | nil => rfl
  | cons r xs ih => exact ih _

theorem loadRegs_sp : (loadRegs m rs (regs, sp)).2 = sp + BitVec.ofNat 32 (4 * rs.length) := by
  induction rs generalizing regs sp with
  | nil => simp [loadRegs]
  | cons r rs ih =>
    have hlen : 4 * (r :: rs).length = 4 + 4 * rs.length := by rw [List.length_cons]; omega
    rw [loadRegs, ih, hlen, BitVec.ofNat_add, ← BitVec.add_assoc]
    rfl

theorem loadRegs_dpfp : (loadRegs m rs (regs, sp)).1.dpfp = regs.dpfp := by
  induction rs generalizing regs sp with
  | nil => rfl
  | cons r rs ih => exact ih

theorem loadRegs_of_notMem (h : r ∉ rs) : (loadRegs m rs (regs, sp)).1.gp r = regs.gp r := by
  induction rs generalizing regs sp with
  | nil => rfl
  | cons q rs ih =>
    obtain ⟨hne, hrest⟩ := List.ne_and_not_mem_of_not_mem_cons h
    rw [loadRegs, ih hrest, Regs.setGp_gp_ne hne]

/-- A register gets the word that is as many words above the stack pointer as there are registers
before it. -/
theorem loadRegs_of_append (h : r ∉ ys) : (loadRegs m (xs ++ r :: ys) (regs, sp)).1.gp r =
    word m (sp + BitVec.ofNat 32 (4 * xs.length)).toNat := by
  have hsp : (loadRegs m xs (regs, sp)).2 = sp + BitVec.ofNat 32 (4 * xs.length) := loadRegs_sp
  rw [loadRegs_append]
  generalize loadRegs m xs (regs, sp) = s at hsp
  obtain ⟨regs', sp'⟩ := s
  obtain rfl : sp' = sp + BitVec.ofNat 32 (4 * xs.length) := hsp
  rw [loadRegs, loadRegs_of_notMem h, Regs.setGp_gp_same]

-- ---------------------------------------------------------------------------
-- The instruction
-- ---------------------------------------------------------------------------

/-- What popping the registers of a mask does. -/
structure Pops (m : Mem) (mask : Reg) (regs regs' : Regs) : Prop where
  selected : ∀ r, mask.getLsbD r.toRegNum = true → regs'.gp r =
    word m (regs.gp .sp + BitVec.ofNat 32 (4 * selectedBelow mask r.toRegNum)).toNat
  unselected : ∀ r, mask.getLsbD r.toRegNum = false → r ≠ .sp → regs'.gp r = regs.gp r
  /-- A stack pointer that is not popped moves behind the words. -/
  sp : mask.getLsbD 13 = false →
    regs'.gp .sp = regs.gp .sp + BitVec.ofNat 32 (4 * selectedBelow mask 16)
  dpfp : regs'.dpfp = regs.dpfp

/-- The registers of a mask, in the order of their numbers. -/
def maskRegs (mask : Reg) (is : List Nat) : List ARMGPReg :=
  (is.filter fun i => mask.getLsbD i).filterMap ARMGPReg.fromRegNum

theorem length_maskRegs {is : List Nat} (h : Tracked mask) (hlt : ∀ i ∈ is, i < 16) :
    (maskRegs mask is).length = is.countP fun i => mask.getLsbD i := by
  induction is with
  | nil => rfl
  | cons i is ih =>
    have ih := ih fun j hj => hlt j (List.mem_cons_of_mem _ hj)
    simp only [maskRegs] at ih ⊢
    by_cases hi : mask.getLsbD i = true
    · obtain ⟨r, hr⟩ := Option.isSome_iff_exists.mp (h i (hlt i List.mem_cons_self) hi)
      rw [List.filter_cons_of_pos hi, List.filterMap_cons_some hr, List.length_cons, ih,
        List.countP_cons_of_pos hi]
    · rw [List.filter_cons_of_neg hi, ih, List.countP_cons_of_neg hi]

theorem mem_maskRegs {is : List Nat} (hlt : ∀ i ∈ is, i < 16) :
    r ∈ maskRegs mask is ↔ r.toRegNum ∈ is ∧ mask.getLsbD r.toRegNum = true := by
  simp only [maskRegs, List.mem_filterMap, List.mem_filter]
  constructor
  · rintro ⟨i, ⟨hi, hbit⟩, hr⟩
    obtain rfl := (fromRegNum_eq_some (hlt i hi)).mp hr
    exact ⟨hi, hbit⟩
  · rintro ⟨hi, hbit⟩
    exact ⟨_, ⟨hi, hbit⟩, fromRegNum_toRegNum r⟩

/-- The loop of `RegPop`: the words are in the registers, and `tmp_sp` is behind them. -/
theorem popRegs_mask (h : Tracked mask) (regs : Regs) : ∃ regs' tmpSp,
    popRegs m mask (List.range 16) (regs, regs.gp .sp) = some (regs', tmpSp) ∧
      (∀ r, mask.getLsbD r.toRegNum = true → regs'.gp r =
        word m (regs.gp .sp + BitVec.ofNat 32 (4 * selectedBelow mask r.toRegNum)).toNat) ∧
      (∀ r, mask.getLsbD r.toRegNum = false → regs'.gp r = regs.gp r) ∧ regs'.dpfp = regs.dpfp ∧
      tmpSp = regs.gp .sp + BitVec.ofNat 32 (4 * selectedBelow mask 16) := by
  have hlt : ∀ i ∈ List.range 16, i < 16 := fun i hi => List.mem_range.mp hi
  refine ⟨_, _, popRegs_eq (fun i hi => by have := hlt i hi; omega) (fun i hi => h i (hlt i hi)) _,
    fun r hr => ?_, fun r hr => ?_, loadRegs_dpfp, ?_⟩
  · -- The registers before `r` are those with a lower number.
    obtain ⟨k, hk⟩ : ∃ k, 16 = r.toRegNum + (1 + k) := ⟨15 - r.toRegNum, by have := toRegNum_lt r; omega⟩
    have hrange : List.range 16 = List.range r.toRegNum ++ r.toRegNum :: List.range' (r.toRegNum + 1) k := by
      rw [hk, List.range_eq_range', ← List.range'_append_1, Nat.zero_add, List.range_eq_range',
        Nat.add_comm 1 k, List.range'_succ]
    have hafter : ∀ i ∈ List.range' (r.toRegNum + 1) k, i < 16 := by
      intro i hi
      have := List.mem_range'_1.mp hi
      omega
    have hsplit : ((List.range 16).filter fun i => mask.getLsbD i).filterMap ARMGPReg.fromRegNum =
        maskRegs mask (List.range r.toRegNum) ++ r :: maskRegs mask (List.range' (r.toRegNum + 1) k) := by
      rw [hrange, List.filter_append, List.filter_cons_of_pos hr, List.filterMap_append,
        List.filterMap_cons_some (fromRegNum_toRegNum r)]
      rfl
    have hnot : r ∉ maskRegs mask (List.range' (r.toRegNum + 1) k) := by
      rw [mem_maskRegs hafter, List.mem_range'_1]
      omega
    have hbefore : ∀ i ∈ List.range r.toRegNum, i < 16 := by
      intro i hi
      have := List.mem_range.mp hi
      have := toRegNum_lt r
      omega
    rw [hsplit, loadRegs_of_append hnot, length_maskRegs h hbefore]
    rfl
  · refine loadRegs_of_notMem fun hmem => ?_
    have hbit := ((mem_maskRegs hlt).mp hmem).2
    rw [hr] at hbit
    cases hbit
  · rw [loadRegs_sp]
    exact congrArg (fun k => regs.gp .sp + BitVec.ofNat 32 (4 * k)) (length_maskRegs h hlt)

/-- On masks of tracked registers, the test on the number of the stack pointer looks at `r0`. -/
theorem and_spNum_eq_zero (h : Tracked mask) :
    mask &&& BitVec.ofNat 32 ARMGPReg.sp.toRegNum = 0 ↔ mask.getLsbD 0 = false := by
  constructor
  · intro hzero
    have hbit := congrArg (fun x : Reg => x.getLsbD 0) hzero
    simpa [ARMGPReg.toRegNum] using hbit
  · intro h0
    have h2 : mask.getLsbD 2 = false := by
      by_contra hbit
      exact absurd (h 2 (by decide) (by simpa using hbit)) (by decide)
    have h3 : mask.getLsbD 3 = false := by
      by_contra hbit
      exact absurd (h 3 (by decide) (by simpa using hbit)) (by decide)
    have hbits : ∀ i < 32, (BitVec.ofNat 32 ARMGPReg.sp.toRegNum).getLsbD i = true →
        i = 0 ∨ i = 2 ∨ i = 3 := by decide
    apply BitVec.eq_of_getLsbD_eq
    intro i hi
    have hzero : (0 : Reg).getLsbD i = false := BitVec.getLsbD_zero
    rw [BitVec.getLsbD_and, hzero, Bool.and_eq_false_imp]
    intro hmask
    by_contra hbit
    rcases hbits i hi (Bool.eq_true_of_not_eq_false hbit) with rfl | rfl | rfl
    · exact absurd (hmask.symm.trans h0) (by decide)
    · exact absurd (hmask.symm.trans h2) (by decide)
    · exact absurd (hmask.symm.trans h3) (by decide)

/-- Popping the registers of a mask that is decoded does what it should exactly when `r0` is not
popped, and when a popped stack pointer is the address behind the words. -/
theorem applyInstr_pops (hdecoded : Decoded mask) (h : Tracked mask) (m : Mem) (regs : Regs) :
    ∃ regs', applyInstr m regs (.regPop mask) = some (.ok regs') ∧ (Pops m mask regs regs' ↔
      mask.getLsbD 0 = false ∧ (mask.getLsbD 13 = true →
        word m (regs.gp .sp + BitVec.ofNat 32 (4 * selectedBelow mask 13)).toNat =
          regs.gp .sp + BitVec.ofNat 32 (4 * selectedBelow mask 16))) := by
  obtain ⟨popped, tmpSp, hpop, hin, hout, hdpfp, htmp⟩ := popRegs_mask (m := m) h regs
  rw [applyInstr_regPop_eq, hpop, Option.map_some]
  by_cases h0 : mask.getLsbD 0 = true
  · -- `r0` is the only register, and the stack pointer stays where it was.
    have hno : ¬ mask.getLsbD 0 = false := fun hf => absurd (h0.symm.trans hf) (by decide)
    have hne : ¬ mask &&& BitVec.ofNat 32 ARMGPReg.sp.toRegNum = 0 :=
      mt (and_spNum_eq_zero h).mp hno
    have hhigh : ∀ i, 4 ≤ i → mask.getLsbD i = false :=
      hdecoded.cases.resolve_left fun hlow => hno (hlow 0 (by decide))
    have hone : ∀ i ∈ List.range 16, mask.getLsbD i = true ↔ i = 0 := by
      intro i hi
      constructor
      · intro hbit
        by_contra hi0
        have hi4 : i < 4 := by
          by_contra hge
          exact absurd (hbit.symm.trans (hhigh i (by omega))) (by decide)
        have htracked := h i (by omega) hbit
        interval_cases i
        · exact hi0 rfl
        all_goals exact absurd htracked (by decide)
      · rintro rfl
        exact h0
    have hcount : selectedBelow mask 16 = 1 := by
      have hcongr : ∀ i ∈ List.range 16, mask.getLsbD i = true ↔ decide (i = 0) = true := by
        intro i hi
        rw [decide_eq_true_iff]
        exact hone i hi
      rw [selectedBelow, List.countP_congr hcongr]
      decide
    refine ⟨popped, congrArg some (if_neg hne), ?_⟩
    refine iff_of_false (fun hpops => ?_) (fun hcond => hno hcond.1)
    have hsp := hpops.sp (hhigh 13 (by decide))
    rw [hout .sp (hhigh 13 (by decide)), hcount] at hsp
    exact absurd (BitVec.add_right_eq_self.mp hsp.symm) (by decide)
  · have hlow : mask.getLsbD 0 = false := Bool.eq_false_of_not_eq_true h0
    refine ⟨popped.setGp .sp tmpSp, congrArg some (if_pos ((and_spNum_eq_zero h).mpr hlow)), ?_⟩
    constructor
    · intro hpops
      refine ⟨hlow, fun h13 => ?_⟩
      have hsp := hpops.selected .sp h13
      rw [Regs.setGp_gp_same, htmp] at hsp
      exact hsp.symm
    · rintro ⟨-, hsp⟩
      refine ⟨fun r hr => ?_, fun r hr hne => ?_, fun _ => ?_, ?_⟩
      · by_cases hne : r = .sp
        · subst hne
          rw [Regs.setGp_gp_same, htmp]
          exact (hsp hr).symm
        · rw [Regs.setGp_gp_ne hne, hin r hr]
      · rw [Regs.setGp_gp_ne hne, hout r hr]
      · rw [Regs.setGp_gp_same, htmp]
      · rw [Regs.setGp_dpfp, hdpfp]

/-- A memory whose words differ, and registers that differ. -/
def countingMem : Mem := fun a => UInt8.ofNat a

def countingRegs : Regs := ⟨fun r => BitVec.ofNat 32 (0x20000100 + 16 * r.toRegNum), fun _ => 7⟩

/-- The byte `0xa9` pops `r4`, `r5` and `lr`. -/
theorem applyInstr_pops_lr :
    ∃ regs', applyInstr countingMem countingRegs (.regPop 0x4030) = some (.ok regs') ∧
      regs'.gp .r4 = 0xd3d2d1d0 ∧ regs'.gp .r5 = 0xd7d6d5d4 ∧ regs'.gp .lr = 0xdbdad9d8 ∧
      regs'.gp .sp = 0x200001dc ∧ regs'.gp .r6 = 0x20000160 := by
  have hdecoded : Decoded 0x4030 := ⟨[0xa9], [], rfl⟩
  obtain ⟨regs', happly, hpops⟩ := applyInstr_pops hdecoded (by decide) countingMem countingRegs
  have hpops := hpops.mpr ⟨by decide, fun h13 => absurd h13 (by decide)⟩
  refine ⟨regs', happly, ?_, ?_, ?_, ?_, ?_⟩
  · exact (hpops.selected .r4 (by decide)).trans (by decide +kernel)
  · exact (hpops.selected .r5 (by decide)).trans (by decide +kernel)
  · exact (hpops.selected .lr (by decide)).trans (by decide +kernel)
  · exact (hpops.sp (by decide)).trans (by decide +kernel)
  · exact (hpops.unselected .r6 (by decide) (by decide)).trans (by decide +kernel)

/-- The bytes `0xb1`, `0x01` pop `r0` and leave the stack pointer at the popped word. -/
theorem regPop_misplaces_sp : ¬ ∀ (mask : Reg) (m : Mem) (regs : Regs), Decoded mask → Tracked mask →
    ∃ regs', applyInstr m regs (.regPop mask) = some (.ok regs') ∧ Pops m mask regs regs' := by
  intro h
  obtain ⟨regs', happly, hpops⟩ := h 1 (fun _ => 0) ⟨fun _ => 0x20000100, fun _ => 0⟩
    ⟨[0xb1, 0x01], [], rfl⟩ (by decide)
  obtain rfl := Except.ok.inj (Option.some.inj happly)
  exact absurd (hpops.sp (by decide)) (by decide)

end Hopter.Unwind
