-- SUMMARY: The memory routines in assembly: they fill and move memory as they should, and use no stack.
import Hopter.Assembly.Machine
import Hopter.Interrupt.ContextSwitch

/-!
# Memory routines

`memset`, `memcpy`, `memmove` and their relatives, as the assembly of both
architectures has them. A move goes backward or forward, and a fill forward. All
of these loops write the destination byte by byte, from one end to the other,
which is `Written`. A byte of the source is read before a store hits it as long
as the direction is right, and `memmove` finds the direction with a signed
comparison.
-/

namespace Hopter.Assembly

open Hopter.Task

-- ---------------------------------------------------------------------------
-- Code
-- ---------------------------------------------------------------------------

inductive Fn where
  | memset | memclr | memcpy | memcpyFwd | memmove | aeabiMemset | aeabiMemclr

def memset : Interrupt.Arch → List (Line Fn)
  | .armv7em =>
    [.instr (.cbz .r2 (.fwd 1)),
     .instr (.mov .r3 .r0),
     .label 0,
     .instr (.subs .r2 (.imm 1)),
     .instr (.strb .r1 (.post .r3 1)),
     .instr (.bcc .ne (.back 0)),
     .label 1,
     .instr (.bx .lr)]
  | .armv6m =>
    [.instr (.cmp .r2 (.imm 0)),
     .instr (.bcc .eq (.fwd 1)),
     .instr (.mov .r3 .r0),
     .label 0,
     .instr (.strb .r1 (.base .r3)),
     .instr (.adds .r3 (.imm 1)),
     .instr (.subs .r2 (.imm 1)),
     .instr (.bcc .ne (.back 0)),
     .label 1,
     .instr (.bx .lr)]

def memclr : Interrupt.Arch → List (Line Fn)
  | .armv7em =>
    [.instr (.mov .r2 .r1),
     .instr (.eors .r1 .r1),
     .instr (.b .memset)]
  | .armv6m =>
    [.instr (.mov .r2 .r1),
     .instr (.eors .r1 .r1),
     .instr (.ldr .r3 .memset),
     .instr (.bx .r3)]

def memcpy : Interrupt.Arch → List (Line Fn)
  | .armv7em =>
    [.instr (.cbz .r2 (.fwd 1)),
     .label 0,
     .instr (.subs .r2 (.imm 1)),
     .instr (.ldrb .r3 (.index .r1 .r2)),
     .instr (.strb .r3 (.index .r0 .r2)),
     .instr (.bcc .ne (.back 0)),
     .label 1,
     .instr (.bx .lr)]
  | .armv6m =>
    [.instr (.cmp .r2 (.imm 0)),
     .instr (.bcc .eq (.fwd 1)),
     .label 0,
     .instr (.subs .r2 (.imm 1)),
     .instr (.ldrb .r3 (.index .r1 .r2)),
     .instr (.strb .r3 (.index .r0 .r2)),
     .instr (.bcc .ne (.back 0)),
     .label 1,
     .instr (.bx .lr)]

def memcpyFwd : Interrupt.Arch → List (Line Fn)
  | .armv7em =>
    [.instr (.cbz .r2 (.fwd 1)),
     .instr (.mov .r12 .r0),
     .instr (.adds .r2 (.reg .r0)),
     .label 0,
     .instr (.ldrb .r3 (.post .r1 1)),
     .instr (.strb .r3 (.post .r0 1)),
     .instr (.cmp .r2 (.reg .r0)),
     .instr (.bcc .ne (.back 0)),
     .instr (.mov .r0 .r12),
     .label 1,
     .instr (.bx .lr)]
  | .armv6m =>
    [.instr (.cmp .r2 (.imm 0)),
     .instr (.bcc .eq (.fwd 1)),
     .instr (.mov .r12 .r0),
     .instr (.adds .r2 (.reg .r0)),
     .label 0,
     .instr (.ldrb .r3 (.base .r1)),
     .instr (.adds .r1 (.imm 1)),
     .instr (.strb .r3 (.base .r0)),
     .instr (.adds .r0 (.imm 1)),
     .instr (.cmp .r2 (.reg .r0)),
     .instr (.bcc .ne (.back 0)),
     .instr (.mov .r0 .r12),
     .label 1,
     .instr (.bx .lr)]

def memmove : Interrupt.Arch → List (Line Fn)
  | .armv7em =>
    [.instr (.cmp .r0 (.reg .r1)),
     .instr (.bcc .le (.fwd 0)),
     .instr (.b .memcpy),
     .label 0,
     .instr (.b .memcpyFwd)]
  | .armv6m =>
    [.instr (.cmp .r0 (.reg .r1)),
     .instr (.bcc .le (.fwd 0)),
     .instr (.ldr .r3 .memcpy),
     .instr (.bx .r3),
     .label 0,
     .instr (.ldr .r3 .memcpyFwd),
     .instr (.bx .r3)]

def aeabiMemset : Interrupt.Arch → List (Line Fn)
  | .armv7em =>
    [.instr (.mov .r3 .r2),
     .instr (.mov .r2 .r1),
     .instr (.mov .r1 .r3),
     .instr (.b .memset)]
  | .armv6m =>
    [.instr (.mov .r3 .r2),
     .instr (.mov .r2 .r1),
     .instr (.mov .r1 .r3),
     .instr (.ldr .r3 .memset),
     .instr (.bx .r3)]

def aeabiMemclr : Interrupt.Arch → List (Line Fn)
  | .armv7em =>
    [.instr (.mov .r2 .r1),
     .instr (.eors .r1 .r1),
     .instr (.b .memset)]
  | .armv6m =>
    [.instr (.mov .r2 .r1),
     .instr (.eors .r1 .r1),
     .instr (.ldr .r3 .memset),
     .instr (.bx .r3)]

def code (A : Interrupt.Arch) : Fn → List (Line Fn)
  | .memset => memset A
  | .memclr => memclr A
  | .memcpy => memcpy A
  | .memcpyFwd => memcpyFwd A
  | .memmove => memmove A
  | .aeabiMemset => aeabiMemset A
  | .aeabiMemclr => aeabiMemclr A

/-- The exported names, with the aliases that `.set` defines. -/
inductive Symbol where
  | memset | memclr | memcpy | memmove
  | aeabiMemset | aeabiMemset4 | aeabiMemset8
  | aeabiMemcpy | aeabiMemcpy4 | aeabiMemcpy8
  | aeabiMemclr | aeabiMemclr4 | aeabiMemclr8
  | aeabiMemmove | aeabiMemmove4 | aeabiMemmove8

def Symbol.fn : Symbol → Fn
  | .memset => .memset
  | .memclr => .memclr
  | .memcpy => .memcpy
  | .memmove => .memmove
  | .aeabiMemset | .aeabiMemset4 | .aeabiMemset8 => .aeabiMemset
  | .aeabiMemcpy | .aeabiMemcpy4 | .aeabiMemcpy8 => .memcpy
  | .aeabiMemclr | .aeabiMemclr4 | .aeabiMemclr8 => .aeabiMemclr
  | .aeabiMemmove | .aeabiMemmove4 | .aeabiMemmove8 => .memmove

-- ---------------------------------------------------------------------------
-- Ranges
-- ---------------------------------------------------------------------------

/-- The address of `p[i]`. -/
def elem (p : Reg) (i : Nat) : Nat := (p + BitVec.ofNat 32 i).toNat

section Ranges

variable {p : Reg} {i j lo hi n x : Nat}

theorem elem_eq : elem p i = (p.toNat + i) % 2 ^ 32 := by
  rw [elem, BitVec.toNat_add, BitVec.toNat_ofNat, Nat.add_mod_mod]

theorem elem_inj (hi : i < 2 ^ 32) (hj : j < 2 ^ 32) (h : elem p i = elem p j) : i = j := by
  rw [elem_eq, elem_eq] at h
  omega

/-- The bytes from `p[lo]` up to `p[hi]` are those of `val`, and the other bytes of the memory are as before. -/
structure Written (m₀ m : Mem) (p : Reg) (val : Nat → UInt8) (lo hi : Nat) : Prop where
  written : ∀ i, lo ≤ i → i < hi → m (elem p i) = val i
  frame : ∀ x, (∀ i, lo ≤ i → i < hi → x ≠ elem p i) → m x = m₀ x

variable {m₀ m : Mem} {val : Nat → UInt8}

namespace Written

theorem empty : Written m m p val n n where
  written i hlo hhi := by omega
  frame _ _ := rfl

/-- One more byte at the upper end. -/
theorem up (h : Written m₀ m p val lo hi) (hlo : lo ≤ hi) (hhi : hi < 2 ^ 32) {v : UInt8} (hv : v = val hi) :
    Written m₀ (m.storeByte (elem p hi) v) p val lo (hi + 1) where
  written i hi' hlt := by
    rcases Nat.lt_succ_iff_lt_or_eq.mp hlt with hlt | rfl
    · have hne : elem p i ≠ elem p hi := fun he => absurd (elem_inj (by omega) hhi he) (by omega)
      rw [Mem.storeByte, if_neg hne]
      exact h.written i hi' hlt
    · rw [Mem.storeByte, if_pos rfl, hv]
  frame x hx := by
    rw [Mem.storeByte, if_neg (hx hi hlo (by omega))]
    exact h.frame x fun i hi' hlt => hx i hi' (by omega)

/-- One more byte at the lower end. -/
theorem down (h : Written m₀ m p val (lo + 1) hi) (hlo : lo < hi) (hhi : hi ≤ 2 ^ 32) {v : UInt8}
    (hv : v = val lo) : Written m₀ (m.storeByte (elem p lo) v) p val lo hi where
  written i hi' hlt := by
    rcases Nat.eq_or_lt_of_le hi' with rfl | hi'
    · rw [Mem.storeByte, if_pos rfl, hv]
    · have hne : elem p i ≠ elem p lo := fun he => absurd (elem_inj (by omega) (by omega) he) (by omega)
      rw [Mem.storeByte, if_neg hne]
      exact h.written i hi' hlt
  frame x hx := by
    rw [Mem.storeByte, if_neg (hx lo le_rfl hlo)]
    exact h.frame x fun i hi' hlt => hx i (by omega) hlt

theorem unique {m' : Mem} (h : Written m₀ m p val lo hi) (h' : Written m₀ m' p val lo hi) : m = m' := by
  funext x
  by_cases hx : ∃ i, lo ≤ i ∧ i < hi ∧ x = elem p i
  · obtain ⟨i, hlo, hhi, rfl⟩ := hx
    rw [h.written i hlo hhi, h'.written i hlo hhi]
  · have hout : ∀ i, lo ≤ i → i < hi → x ≠ elem p i := fun i hlo hhi he => hx ⟨i, hlo, hhi, he⟩
    rw [h.frame x hout, h'.frame x hout]

/-- Every range can be written. -/
theorem exists_mem (m₀ : Mem) (p : Reg) (val : Nat → UInt8) (hn : n ≤ 2 ^ 32) :
    ∃ m, Written m₀ m p val 0 n := by
  induction n with
  | zero => exact ⟨m₀, .empty⟩
  | succ n ih =>
    obtain ⟨m, h⟩ := ih (by omega)
    exact ⟨_, h.up (Nat.zero_le _) (by omega) rfl⟩

end Written

end Ranges

-- ---------------------------------------------------------------------------
-- Calls
-- ---------------------------------------------------------------------------

/-- The stack pointer is that of the call, and so is the memory outside of the `n` bytes at `p`. -/
def Kept (c : Cpu) (p : Reg) (n : Nat) (c' : Cpu) : Prop :=
  c'.reg .sp = c.reg .sp ∧ ∀ x, (∀ i, i < n → x ≠ elem p i) → c'.mem x = c.mem x

/-- Control is back at the caller, who gets the first argument, with `Q` for the memory. -/
def Returned (c : Cpu) (Q : Mem → Prop) (s : State Fn) : Prop :=
  s.pc = .addr (c.reg .lr) ∧ s.cpu.reg .r0 = c.reg .r0 ∧ Q s.cpu.mem

/-- A call returns, writes at most the `n` bytes at its first argument and never moves the stack pointer. -/
def Returns (A : Interrupt.Arch) (L : Layout Fn) (f : Fn) (c : Cpu) (n : Nat) (Q : Mem → Prop) : Prop :=
  Leads (step (code A) L) (fun s => Kept c (c.reg .r0) n s.cpu) (Returned c Q) ⟨.at f 0, c⟩

/-- A routine that is called in place of another one returns to its caller. -/
theorem Returns.tail {A : Interrupt.Arch} {L : Layout Fn} {f : Fn} {c c' : Cpu} {n : Nat} {Q : Mem → Prop}
    (h : Returns A L f c' n Q) (hsp : c'.reg .sp = c.reg .sp) (hlr : c'.reg .lr = c.reg .lr)
    (hr0 : c'.reg .r0 = c.reg .r0) (hmem : c'.mem = c.mem) :
    Leads (step (code A) L) (fun s => Kept c (c.reg .r0) n s.cpu) (Returned c Q) ⟨.at f 0, c'⟩ := by
  refine h.mono (fun s hs => ?_) fun s hs => ?_
  · rw [Kept, hsp, hmem, hr0] at hs
    exact hs
  · rw [Returned, hlr, hr0] at hs
    exact hs

theorem Kept.refl {c : Cpu} {p : Reg} {n : Nat} : Kept c p n c := ⟨rfl, fun _ _ => rfl⟩

theorem Written.kept {c c' : Cpu} {p : Reg} {val : Nat → UInt8} {lo hi n : Nat}
    (h : Written c.mem c'.mem p val lo hi) (hhi : hi ≤ n) (hsp : c'.reg .sp = c.reg .sp) : Kept c p n c' :=
  ⟨hsp, fun x hx => h.frame x fun i _ hlt => hx i (lt_of_lt_of_le hlt hhi)⟩

section Loops

variable {A : Interrupt.Arch} {L : Layout Fn} {c₀ c : Cpu} {i n : Nat}

theorem add_ofNat_succ {p : Reg} : p + BitVec.ofNat 32 i + 1 = p + BitVec.ofNat 32 (i + 1) := by
  rw [BitVec.ofNat_add, BitVec.add_assoc]
  rfl

theorem ofNat_sub_one (hi : i < n) : BitVec.ofNat 32 (n - i) - 1 = BitVec.ofNat 32 (n - (i + 1)) := by
  have hsplit : n - i = n - (i + 1) + 1 := by omega
  rw [hsplit, BitVec.ofNat_add]
  exact BitVec.add_sub_cancel _ _

theorem toNat_pos {a : Reg} (h : a ≠ 0) : 0 < a.toNat :=
  Nat.pos_of_ne_zero fun h0 => h (BitVec.eq_of_toNat_eq h0)

/-- Counting down, `ne` holds until the last iteration. -/
theorem holds_ne_count (hi : i < n) (hn : n < 2 ^ 32) :
    Cond.ne.holds (subFlags (BitVec.ofNat 32 (n - i)) 1) = decide (i + 1 < n) := by
  rw [Cond.holds, subFlags_z, Bool.eq_iff_iff, Bool.not_eq_true', beq_eq_false_iff_ne, decide_eq_true_iff, ne_eq,
    ← BitVec.toNat_inj, BitVec.toNat_ofNat, Nat.mod_eq_of_lt (by omega)]
  show ¬ n - i = 1 ↔ i + 1 < n
  omega

/-- Against the end of a range, `ne` holds until the last iteration. -/
theorem holds_ne_end {p k : Reg} (hi : i < k.toNat) :
    Cond.ne.holds (subFlags (k + p) (p + BitVec.ofNat 32 (i + 1))) = decide (i + 1 < k.toNat) := by
  have hk := k.isLt
  have hi' : (BitVec.ofNat 32 (i + 1)).toNat = i + 1 := by
    rw [BitVec.toNat_ofNat, Nat.mod_eq_of_lt (by omega)]
  rw [Cond.holds, subFlags_z, Bool.eq_iff_iff, Bool.not_eq_true', beq_eq_false_iff_ne, decide_eq_true_iff, ne_eq,
    BitVec.add_comm, BitVec.add_right_inj, ← BitVec.toNat_inj, hi']
  omega

/-- A byte that is loaded can be stored again. -/
theorem byte_stored (b : UInt8) : UInt8.ofNat (BitVec.ofNat 32 b.toNat).toNat = b := by
  have hb := b.toNat_lt
  rw [BitVec.toNat_ofNat, Nat.mod_eq_of_lt (by omega), UInt8.ofNat_toNat]

-- ---------------------------------------------------------------------------
-- Filling
-- ---------------------------------------------------------------------------

/-- What `memset` writes. -/
def fillByte (c : Cpu) : Nat → UInt8 := fun _ => UInt8.ofNat (c.reg .r1).toNat

/-- Iteration `i` of the loop in `memset` begins. -/
structure FillLoop (c₀ : Cpu) (i : Nat) (c : Cpu) : Prop where
  sp : c.reg .sp = c₀.reg .sp
  lr : c.reg .lr = c₀.reg .lr
  r0 : c.reg .r0 = c₀.reg .r0
  r1 : c.reg .r1 = c₀.reg .r1
  r2 : c.reg .r2 = BitVec.ofNat 32 ((c₀.reg .r2).toNat - i)
  r3 : c.reg .r3 = c₀.reg .r0 + BitVec.ofNat 32 i
  mem : Written c₀.mem c.mem (c₀.reg .r0) (fillByte c₀) 0 i

namespace FillLoop

theorem kept (h : FillLoop c₀ i c) (hi : i ≤ (c₀.reg .r2).toNat) :
    Kept c₀ (c₀.reg .r0) (c₀.reg .r2).toNat c :=
  h.mem.kept hi h.sp

theorem begin (hsp : c.reg .sp = c₀.reg .sp) (hlr : c.reg .lr = c₀.reg .lr) (hr0 : c.reg .r0 = c₀.reg .r0)
    (hr1 : c.reg .r1 = c₀.reg .r1) (hr2 : c.reg .r2 = c₀.reg .r2) (hr3 : c.reg .r3 = c₀.reg .r0)
    (hmem : c.mem = c₀.mem) : FillLoop c₀ 0 c where
  sp := hsp
  lr := hlr
  r0 := hr0
  r1 := hr1
  r2 := by rw [hr2, Nat.sub_zero, BitVec.ofNat_toNat, BitVec.setWidth_eq]
  r3 := by rw [hr3, BitVec.add_zero]
  mem := hmem ▸ .empty

theorem next_armv7em (h : FillLoop c₀ i c) (hi : i < (c₀.reg .r2).toNat) :
    FillLoop c₀ (i + 1)
      (Instr.exec (Instr.exec c (.subs .r2 (.imm 1)) L) (.strb .r1 (.post .r3 1)) L) where
  sp := h.sp
  lr := h.lr
  r0 := h.r0
  r1 := h.r1
  r2 := by
    show c.reg .r2 - 1 = _
    rw [h.r2, ofNat_sub_one hi]
  r3 := by
    show c.reg .r3 + 1 = _
    rw [h.r3, add_ofNat_succ]
  mem := by
    have hn := (c₀.reg .r2).isLt
    show Written _ (c.mem.storeByte (c.reg .r3).toNat (UInt8.ofNat (c.reg .r1).toNat)) _ _ _ _
    rw [h.r3, h.r1]
    exact h.mem.up (Nat.zero_le _) (by omega) rfl

theorem next_armv6m (h : FillLoop c₀ i c) (hi : i < (c₀.reg .r2).toNat) :
    FillLoop c₀ (i + 1)
      (Instr.exec (Instr.exec (Instr.exec c (.strb .r1 (.base .r3)) L) (.adds .r3 (.imm 1)) L)
        (.subs .r2 (.imm 1)) L) where
  sp := h.sp
  lr := h.lr
  r0 := h.r0
  r1 := h.r1
  r2 := (h.next_armv7em (L := L) hi).r2
  r3 := (h.next_armv7em (L := L) hi).r3
  mem := (h.next_armv7em (L := L) hi).mem

end FillLoop

/-- `memset` fills the `n` bytes at its first argument. -/
theorem returns_memset (A : Interrupt.Arch) (L : Layout Fn) (c₀ : Cpu) :
    Returns A L .memset c₀ (c₀.reg .r2).toNat fun m =>
      Written c₀.mem m (c₀.reg .r0) (fillByte c₀) 0 (c₀.reg .r2).toNat := by
  have hn := (c₀.reg .r2).isLt
  have hk : Kept c₀ (c₀.reg .r0) (c₀.reg .r2).toNat c₀ := .refl
  have hzero (h0 : c₀.reg .r2 = 0) : Written c₀.mem c₀.mem (c₀.reg .r0) (fillByte c₀) 0 (c₀.reg .r2).toNat := by
    rw [h0]
    exact .empty
  cases A with
  | armv7em =>
    refine leads_cbz rfl rfl hk (fun h0 => ?_) fun h0 => .next hk rfl ?_
    · exact .next hk rfl (.next hk rfl (.here hk ⟨rfl, rfl, hzero h0⟩))
    · refine Leads.loop (n := (c₀.reg .r2).toNat) (fun i s => ∃ c, s = ⟨.at .memset 2, c⟩ ∧ FillLoop c₀ i c) ?_
        (toNat_pos h0) ⟨_, rfl, .begin rfl rfl rfl rfl rfl rfl rfl⟩
      rintro i _ hi ⟨c, rfl, h⟩
      have hne := holds_ne_count hi hn
      rw [← h.r2] at hne
      have hnext := h.next_armv7em (L := L) hi
      have hk := h.kept (Nat.le_of_lt hi)
      have hk' := hnext.kept hi
      refine .next hk rfl (.next hk rfl (.next hk rfl (leads_bne rfl rfl hk' hi hne ?_ ?_)))
      · exact fun hlast => .here hk' (.inl ⟨hlast, _, rfl, hnext⟩)
      · intro hlast
        rw [hlast] at hnext
        exact .next hk' rfl (.next hk' rfl (.here hk' (.inr ⟨congrArg Pc.addr hnext.lr, hnext.r0, hnext.mem⟩)))
  | armv6m =>
    refine .next hk rfl (leads_bcc rfl rfl hk (fun h0 => ?_) fun h0 => .next hk rfl ?_)
    · have h0 : c₀.reg .r2 = 0 := beq_iff_eq.mp (subFlags_z.symm.trans h0)
      exact .next hk rfl (.next hk rfl (.here hk ⟨rfl, rfl, hzero h0⟩))
    · have h0 : c₀.reg .r2 ≠ 0 := beq_eq_false_iff_ne.mp (subFlags_z.symm.trans h0)
      refine Leads.loop (n := (c₀.reg .r2).toNat) (fun i s => ∃ c, s = ⟨.at .memset 3, c⟩ ∧ FillLoop c₀ i c) ?_
        (toNat_pos h0) ⟨_, rfl, .begin rfl rfl rfl rfl rfl rfl rfl⟩
      rintro i _ hi ⟨c, rfl, h⟩
      have hne := holds_ne_count hi hn
      rw [← h.r2] at hne
      have hnext := h.next_armv6m (L := L) hi
      have hk := h.kept (Nat.le_of_lt hi)
      have hk' := hnext.kept hi
      refine .next hk rfl (.next hk rfl (.next hk' rfl (.next hk' rfl (leads_bne rfl rfl hk' hi hne ?_ ?_))))
      · exact fun hlast => .here hk' (.inl ⟨hlast, _, rfl, hnext⟩)
      · intro hlast
        rw [hlast] at hnext
        exact .next hk' rfl (.next hk' rfl (.here hk' (.inr ⟨congrArg Pc.addr hnext.lr, hnext.r0, hnext.mem⟩)))

-- ---------------------------------------------------------------------------
-- Copying
-- ---------------------------------------------------------------------------

/-- What a copy writes: the bytes of the source before the call. -/
def srcByte (c : Cpu) (i : Nat) : UInt8 := c.mem (elem (c.reg .r1) i)

/-- No byte of the source is hit before a copy from the end to the beginning has read it. -/
def BackwardSafe (c : Cpu) : Prop :=
  ∀ i j, i < j → j < (c.reg .r2).toNat → elem (c.reg .r1) i ≠ elem (c.reg .r0) j

/-- No byte of the source is hit before a copy from the beginning to the end has read it. -/
def ForwardSafe (c : Cpu) : Prop :=
  ∀ i j, j < i → i < (c.reg .r2).toNat → elem (c.reg .r1) i ≠ elem (c.reg .r0) j

/-- Iteration `i` of the loop in `memcpy` begins. -/
structure BackLoop (c₀ : Cpu) (i : Nat) (c : Cpu) : Prop where
  sp : c.reg .sp = c₀.reg .sp
  lr : c.reg .lr = c₀.reg .lr
  r0 : c.reg .r0 = c₀.reg .r0
  r1 : c.reg .r1 = c₀.reg .r1
  r2 : c.reg .r2 = BitVec.ofNat 32 ((c₀.reg .r2).toNat - i)
  mem : Written c₀.mem c.mem (c₀.reg .r0) (srcByte c₀) ((c₀.reg .r2).toNat - i) (c₀.reg .r2).toNat

namespace BackLoop

theorem kept (h : BackLoop c₀ i c) : Kept c₀ (c₀.reg .r0) (c₀.reg .r2).toNat c :=
  h.mem.kept le_rfl h.sp

theorem begin (hsp : c.reg .sp = c₀.reg .sp) (hlr : c.reg .lr = c₀.reg .lr) (hr0 : c.reg .r0 = c₀.reg .r0)
    (hr1 : c.reg .r1 = c₀.reg .r1) (hr2 : c.reg .r2 = c₀.reg .r2) (hmem : c.mem = c₀.mem) : BackLoop c₀ 0 c where
  sp := hsp
  lr := hlr
  r0 := hr0
  r1 := hr1
  r2 := by rw [hr2, Nat.sub_zero, BitVec.ofNat_toNat, BitVec.setWidth_eq]
  mem := hmem ▸ .empty

theorem next (h : BackLoop c₀ i c) (hi : i < (c₀.reg .r2).toNat) (hsafe : BackwardSafe c₀) :
    BackLoop c₀ (i + 1)
      (Instr.exec (Instr.exec (Instr.exec c (.subs .r2 (.imm 1)) L) (.ldrb .r3 (.index .r1 .r2)) L)
        (.strb .r3 (.index .r0 .r2)) L) where
  sp := h.sp
  lr := h.lr
  r0 := h.r0
  r1 := h.r1
  r2 := by
    show c.reg .r2 - 1 = _
    rw [h.r2, ofNat_sub_one hi]
  mem := by
    have hn := (c₀.reg .r2).isLt
    have hlo : (c₀.reg .r2).toNat - (i + 1) + 1 = (c₀.reg .r2).toNat - i := by omega
    have hread : c.mem (elem (c₀.reg .r1) ((c₀.reg .r2).toNat - (i + 1)))
        = srcByte c₀ ((c₀.reg .r2).toNat - (i + 1)) :=
      h.mem.frame _ fun j hj hlt => hsafe _ j (by omega) hlt
    show Written _ (c.mem.storeByte (c.reg .r0 + (c.reg .r2 - 1)).toNat
      (UInt8.ofNat (BitVec.ofNat 32 (c.mem (c.reg .r1 + (c.reg .r2 - 1)).toNat).toNat).toNat)) _ _ _ _
    rw [h.r0, h.r1, h.r2, ofNat_sub_one hi, byte_stored]
    exact (hlo ▸ h.mem).down (by omega) (Nat.le_of_lt hn) hread

end BackLoop

/-- The line of the loop in `memcpy`. -/
def memcpyLoop : Interrupt.Arch → Nat
  | .armv7em => 1
  | .armv6m => 2

theorem BackLoop.run (h : BackLoop c₀ 0 c) (h0 : c₀.reg .r2 ≠ 0) (hsafe : BackwardSafe c₀) :
    Leads (step (code A) L) (fun s => Kept c₀ (c₀.reg .r0) (c₀.reg .r2).toNat s.cpu)
      (Returned c₀ fun m => Written c₀.mem m (c₀.reg .r0) (srcByte c₀) 0 (c₀.reg .r2).toNat)
      ⟨.at .memcpy (memcpyLoop A), c⟩ := by
  refine Leads.loop (n := (c₀.reg .r2).toNat)
    (fun i s => ∃ c, s = ⟨.at .memcpy (memcpyLoop A), c⟩ ∧ BackLoop c₀ i c) ?_ (toNat_pos h0) ⟨_, rfl, h⟩
  rintro i _ hi ⟨c, rfl, h⟩
  have hne := holds_ne_count hi (c₀.reg .r2).isLt
  rw [← h.r2] at hne
  have hnext := h.next (L := L) hi hsafe
  have hk := h.kept
  have hk' := hnext.kept
  have hdone (hlast : i + 1 = (c₀.reg .r2).toNat) := Nat.sub_self _ ▸ hlast ▸ hnext.mem
  cases A
  -- The loop is the same on both architectures, at different lines.
  all_goals
    refine .next hk rfl (.next hk rfl (.next hk rfl (.next hk rfl (leads_bne rfl rfl hk' hi hne ?_ ?_))))
    · exact fun hlast => .here hk' (.inl ⟨hlast, _, rfl, hnext⟩)
    · intro hlast
      exact .next hk' rfl (.next hk' rfl
        (.here hk' (.inr ⟨congrArg Pc.addr hnext.lr, hnext.r0, hdone hlast⟩)))

/-- `memcpy` copies the `n` bytes at its second argument, which it reads from the end to the beginning. -/
theorem returns_memcpy (A : Interrupt.Arch) (L : Layout Fn) (c₀ : Cpu) (hsafe : BackwardSafe c₀) :
    Returns A L .memcpy c₀ (c₀.reg .r2).toNat fun m =>
      Written c₀.mem m (c₀.reg .r0) (srcByte c₀) 0 (c₀.reg .r2).toNat := by
  have hk : Kept c₀ (c₀.reg .r0) (c₀.reg .r2).toNat c₀ := .refl
  have hzero (h0 : c₀.reg .r2 = 0) : Written c₀.mem c₀.mem (c₀.reg .r0) (srcByte c₀) 0 (c₀.reg .r2).toNat := by
    rw [h0]
    exact .empty
  cases A with
  | armv7em =>
    refine leads_cbz rfl rfl hk (fun h0 => ?_) fun h0 => ?_
    · exact .next hk rfl (.next hk rfl (.here hk ⟨rfl, rfl, hzero h0⟩))
    · exact BackLoop.run (.begin rfl rfl rfl rfl rfl rfl) h0 hsafe
  | armv6m =>
    refine .next hk rfl (leads_bcc rfl rfl hk (fun h0 => ?_) fun h0 => ?_)
    · have h0 : c₀.reg .r2 = 0 := beq_iff_eq.mp (subFlags_z.symm.trans h0)
      exact .next hk rfl (.next hk rfl (.here hk ⟨rfl, rfl, hzero h0⟩))
    · have h0 : c₀.reg .r2 ≠ 0 := beq_eq_false_iff_ne.mp (subFlags_z.symm.trans h0)
      exact BackLoop.run (.begin rfl rfl rfl rfl rfl rfl) h0 hsafe

/-- Iteration `i` of the loop in `memcpy_fwd` begins. -/
structure FwdLoop (c₀ : Cpu) (i : Nat) (c : Cpu) : Prop where
  sp : c.reg .sp = c₀.reg .sp
  lr : c.reg .lr = c₀.reg .lr
  r0 : c.reg .r0 = c₀.reg .r0 + BitVec.ofNat 32 i
  r1 : c.reg .r1 = c₀.reg .r1 + BitVec.ofNat 32 i
  r2 : c.reg .r2 = c₀.reg .r2 + c₀.reg .r0
  r12 : c.reg .r12 = c₀.reg .r0
  mem : Written c₀.mem c.mem (c₀.reg .r0) (srcByte c₀) 0 i

namespace FwdLoop

theorem kept (h : FwdLoop c₀ i c) (hi : i ≤ (c₀.reg .r2).toNat) : Kept c₀ (c₀.reg .r0) (c₀.reg .r2).toNat c :=
  h.mem.kept hi h.sp

theorem begin (hsp : c.reg .sp = c₀.reg .sp) (hlr : c.reg .lr = c₀.reg .lr) (hr0 : c.reg .r0 = c₀.reg .r0)
    (hr1 : c.reg .r1 = c₀.reg .r1) (hr2 : c.reg .r2 = c₀.reg .r2 + c₀.reg .r0) (hr12 : c.reg .r12 = c₀.reg .r0)
    (hmem : c.mem = c₀.mem) : FwdLoop c₀ 0 c where
  sp := hsp
  lr := hlr
  r0 := by rw [hr0, BitVec.add_zero]
  r1 := by rw [hr1, BitVec.add_zero]
  r2 := hr2
  r12 := hr12
  mem := hmem ▸ .empty

theorem next_armv7em (h : FwdLoop c₀ i c) (hi : i < (c₀.reg .r2).toNat) (hsafe : ForwardSafe c₀) :
    FwdLoop c₀ (i + 1)
      (Instr.exec (Instr.exec (Instr.exec c (.ldrb .r3 (.post .r1 1)) L) (.strb .r3 (.post .r0 1)) L)
        (.cmp .r2 (.reg .r0)) L) where
  sp := h.sp
  lr := h.lr
  r0 := by
    show c.reg .r0 + 1 = _
    rw [h.r0, add_ofNat_succ]
  r1 := by
    show c.reg .r1 + 1 = _
    rw [h.r1, add_ofNat_succ]
  r2 := h.r2
  r12 := h.r12
  mem := by
    have hn := (c₀.reg .r2).isLt
    have hread : c.mem (elem (c₀.reg .r1) i) = srcByte c₀ i :=
      h.mem.frame _ fun j _ hlt => hsafe i j hlt hi
    show Written _ (c.mem.storeByte (c.reg .r0).toNat
      (UInt8.ofNat (BitVec.ofNat 32 (c.mem (c.reg .r1).toNat).toNat).toNat)) _ _ _ _
    rw [h.r0, h.r1, byte_stored]
    exact h.mem.up (Nat.zero_le _) (by omega) hread

theorem next_armv6m (h : FwdLoop c₀ i c) (hi : i < (c₀.reg .r2).toNat) (hsafe : ForwardSafe c₀) :
    FwdLoop c₀ (i + 1)
      (Instr.exec (Instr.exec (Instr.exec (Instr.exec (Instr.exec c (.ldrb .r3 (.base .r1)) L)
        (.adds .r1 (.imm 1)) L) (.strb .r3 (.base .r0)) L) (.adds .r0 (.imm 1)) L) (.cmp .r2 (.reg .r0)) L) where
  sp := h.sp
  lr := h.lr
  r0 := (h.next_armv7em (L := L) hi hsafe).r0
  r1 := (h.next_armv7em (L := L) hi hsafe).r1
  r2 := h.r2
  r12 := h.r12
  mem := (h.next_armv7em (L := L) hi hsafe).mem

end FwdLoop

/-- `memcpy_fwd` copies the `n` bytes at its second argument, which it reads from the beginning to the end. -/
theorem returns_memcpyFwd (A : Interrupt.Arch) (L : Layout Fn) (c₀ : Cpu) (hsafe : ForwardSafe c₀) :
    Returns A L .memcpyFwd c₀ (c₀.reg .r2).toNat fun m =>
      Written c₀.mem m (c₀.reg .r0) (srcByte c₀) 0 (c₀.reg .r2).toNat := by
  have hk : Kept c₀ (c₀.reg .r0) (c₀.reg .r2).toNat c₀ := .refl
  have hzero (h0 : c₀.reg .r2 = 0) : Written c₀.mem c₀.mem (c₀.reg .r0) (srcByte c₀) 0 (c₀.reg .r2).toNat := by
    rw [h0]
    exact .empty
  cases A with
  | armv7em =>
    refine leads_cbz rfl rfl hk (fun h0 => ?_) fun h0 => .next hk rfl (.next hk rfl ?_)
    · exact .next hk rfl (.next hk rfl (.here hk ⟨rfl, rfl, hzero h0⟩))
    · refine Leads.loop (n := (c₀.reg .r2).toNat) (fun i s => ∃ c, s = ⟨.at .memcpyFwd 3, c⟩ ∧ FwdLoop c₀ i c) ?_
        (toNat_pos h0) ⟨_, rfl, .begin rfl rfl rfl rfl rfl rfl rfl⟩
      rintro i _ hi ⟨c, rfl, h⟩
      have hne := holds_ne_end (p := c₀.reg .r0) hi
      have hnext := h.next_armv7em (L := L) hi hsafe
      rw [← hnext.r0, ← hnext.r2] at hne
      have hk := h.kept (Nat.le_of_lt hi)
      have hk' := hnext.kept hi
      refine .next hk rfl (.next hk rfl (.next hk rfl (.next hk' rfl (leads_bne rfl rfl hk' hi hne ?_ ?_))))
      · exact fun hlast => .here hk' (.inl ⟨hlast, _, rfl, hnext⟩)
      · intro hlast
        rw [hlast] at hnext
        exact .next hk' rfl (.next hk' rfl (.next hk' rfl
          (.here hk' (.inr ⟨congrArg Pc.addr hnext.lr, hnext.r12, hnext.mem⟩))))
  | armv6m =>
    refine .next hk rfl (leads_bcc rfl rfl hk (fun h0 => ?_) fun h0 => .next hk rfl (.next hk rfl ?_))
    · have h0 : c₀.reg .r2 = 0 := beq_iff_eq.mp (subFlags_z.symm.trans h0)
      exact .next hk rfl (.next hk rfl (.here hk ⟨rfl, rfl, hzero h0⟩))
    · have h0 : c₀.reg .r2 ≠ 0 := beq_eq_false_iff_ne.mp (subFlags_z.symm.trans h0)
      refine Leads.loop (n := (c₀.reg .r2).toNat) (fun i s => ∃ c, s = ⟨.at .memcpyFwd 4, c⟩ ∧ FwdLoop c₀ i c) ?_
        (toNat_pos h0) ⟨_, rfl, .begin rfl rfl rfl rfl rfl rfl rfl⟩
      rintro i _ hi ⟨c, rfl, h⟩
      have hne := holds_ne_end (p := c₀.reg .r0) hi
      have hnext := h.next_armv6m (L := L) hi hsafe
      rw [← hnext.r0, ← hnext.r2] at hne
      have hk := h.kept (Nat.le_of_lt hi)
      have hk' := hnext.kept hi
      refine .next hk rfl (.next hk rfl (.next hk rfl (.next hk rfl (.next hk' rfl (.next hk' rfl
        (leads_bne rfl rfl hk' hi hne ?_ ?_))))))
      · exact fun hlast => .here hk' (.inl ⟨hlast, _, rfl, hnext⟩)
      · intro hlast
        rw [hlast] at hnext
        exact .next hk' rfl (.next hk' rfl (.next hk' rfl
          (.here hk' (.inr ⟨congrArg Pc.addr hnext.lr, hnext.r12, hnext.mem⟩))))

-- ---------------------------------------------------------------------------
-- Directions
-- ---------------------------------------------------------------------------

/-- The `n` bytes at `p` lie below `0x8000_0000`, or at or above it, and do not wrap around. -/
def InHalf (p : Reg) (n : Nat) : Prop :=
  p.toNat + n ≤ 2 ^ 31 ∨ (2 ^ 31 ≤ p.toNat ∧ p.toNat + n ≤ 2 ^ 32)

/-- No byte of the first range is one of the second. -/
def Disjoint (p q : Reg) (n : Nat) : Prop :=
  ∀ i j, i < n → j < n → elem p i ≠ elem q j

theorem Disjoint.backwardSafe (h : Disjoint (c₀.reg .r0) (c₀.reg .r1) (c₀.reg .r2).toNat) : BackwardSafe c₀ :=
  fun i j hij hj he => h j i hj (lt_trans hij hj) he.symm

/-- The signed comparison of `memmove` finds the safe direction. -/
theorem forwardSafe_of_le (hsrc : InHalf (c₀.reg .r1) (c₀.reg .r2).toNat)
    (hle : (c₀.reg .r0).toInt ≤ (c₀.reg .r1).toInt) : ForwardSafe c₀ := by
  intro i j hij hi
  rw [BitVec.toInt_eq_toNat_cond, BitVec.toInt_eq_toNat_cond] at hle
  rw [InHalf] at hsrc
  rw [elem_eq, elem_eq]
  omega

theorem backwardSafe_of_lt (hdst : InHalf (c₀.reg .r0) (c₀.reg .r2).toNat)
    (hlt : (c₀.reg .r1).toInt < (c₀.reg .r0).toInt) : BackwardSafe c₀ := by
  intro i j hij hj
  rw [BitVec.toInt_eq_toNat_cond, BitVec.toInt_eq_toNat_cond] at hlt
  rw [InHalf] at hdst
  rw [elem_eq, elem_eq]
  omega

/-- `memmove` copies the `n` bytes at its second argument, wherever the two ranges are in their halves. -/
theorem returns_memmove (A : Interrupt.Arch) (L : Layout Fn) (c₀ : Cpu) (hdst : InHalf (c₀.reg .r0) (c₀.reg .r2).toNat)
    (hsrc : InHalf (c₀.reg .r1) (c₀.reg .r2).toNat) :
    Returns A L .memmove c₀ (c₀.reg .r2).toNat fun m =>
      Written c₀.mem m (c₀.reg .r0) (srcByte c₀) 0 (c₀.reg .r2).toNat := by
  have hk : Kept c₀ (c₀.reg .r0) (c₀.reg .r2).toNat c₀ := .refl
  have hfwd (h : Cond.le.holds (subFlags (c₀.reg .r0) (c₀.reg .r1)) = true) : ForwardSafe c₀ :=
    forwardSafe_of_le hsrc (of_decide_eq_true (holds_le.symm.trans h))
  have hbwd (h : Cond.le.holds (subFlags (c₀.reg .r0) (c₀.reg .r1)) = false) : BackwardSafe c₀ :=
    backwardSafe_of_lt hdst (Int.not_le.mp (of_decide_eq_false (holds_le.symm.trans h)))
  -- The routine that is called finds the arguments of the call in the registers.
  cases A with
  | armv7em =>
    refine .next hk rfl (leads_bcc rfl rfl hk (fun h => .next hk rfl ?_) fun h => ?_)
    · exact .next hk rfl (Returns.tail (returns_memcpyFwd .armv7em L _ (hfwd h)) rfl rfl rfl rfl)
    · exact .next hk rfl (Returns.tail (returns_memcpy .armv7em L _ (hbwd h)) rfl rfl rfl rfl)
  | armv6m =>
    refine .next hk rfl (leads_bcc rfl rfl hk (fun h => .next hk rfl ?_) fun h => ?_)
    · refine .next hk rfl (.next hk rfl (.next hk step_entry ?_))
      exact Returns.tail (returns_memcpyFwd .armv6m L _ (hfwd h)) rfl rfl rfl rfl
    · refine .next hk rfl (.next hk rfl (.next hk step_entry ?_))
      exact Returns.tail (returns_memcpy .armv6m L _ (hbwd h)) rfl rfl rfl rfl

-- ---------------------------------------------------------------------------
-- Other argument orders
-- ---------------------------------------------------------------------------

/-- `__aeabi_memset` is `memset` with its second and third argument exchanged. -/
theorem returns_aeabiMemset (A : Interrupt.Arch) (L : Layout Fn) (c₀ : Cpu) :
    Returns A L .aeabiMemset c₀ (c₀.reg .r1).toNat fun m =>
      Written c₀.mem m (c₀.reg .r0) (fun _ => UInt8.ofNat (c₀.reg .r2).toNat) 0 (c₀.reg .r1).toNat := by
  have hk : Kept c₀ (c₀.reg .r0) (c₀.reg .r1).toNat c₀ := .refl
  cases A with
  | armv7em =>
    refine .next hk rfl (.next hk rfl (.next hk rfl (.next hk rfl ?_)))
    exact Returns.tail (returns_memset .armv7em L _) rfl rfl rfl rfl
  | armv6m =>
    refine .next hk rfl (.next hk rfl (.next hk rfl (.next hk rfl (.next hk rfl (.next hk step_entry ?_)))))
    exact Returns.tail (returns_memset .armv6m L _) rfl rfl rfl rfl

/-- `memclr` and `__aeabi_memclr` are `memset` with a zero. -/
theorem returns_memclr (A : Interrupt.Arch) (L : Layout Fn) (c₀ : Cpu) {f : Fn} (hf : f = .memclr ∨ f = .aeabiMemclr) :
    Returns A L f c₀ (c₀.reg .r1).toNat fun m =>
      Written c₀.mem m (c₀.reg .r0) (fun _ => 0) 0 (c₀.reg .r1).toNat := by
  have hk : Kept c₀ (c₀.reg .r0) (c₀.reg .r1).toNat c₀ := .refl
  have hzero : (fun _ => 0 : Nat → UInt8) = fun _ => UInt8.ofNat (c₀.reg .r1 ^^^ c₀.reg .r1).toNat := by
    rw [BitVec.xor_self]
    rfl
  rw [hzero]
  rcases hf with rfl | rfl <;> cases A
  case inl.armv7em | inr.armv7em =>
    refine .next hk rfl (.next hk rfl (.next hk rfl ?_))
    exact Returns.tail (returns_memset .armv7em L _) rfl rfl rfl rfl
  case inl.armv6m | inr.armv6m =>
    refine .next hk rfl (.next hk rfl (.next hk rfl (.next hk rfl (.next hk step_entry ?_))))
    exact Returns.tail (returns_memset .armv6m L _) rfl rfl rfl rfl

/-- What a call leaves in the memory, as one memory. -/
theorem Returns.eq_mem {f : Fn} {p : Reg} {val : Nat → UInt8} {k : Nat} {m : Mem}
    (h : Returns A L f c n fun m => Written c.mem m p val 0 k) (hm : Written c.mem m p val 0 k) :
    Returns A L f c n fun m' => m' = m :=
  h.mono (fun _ hs => hs) fun _ hs => ⟨hs.1, hs.2.1, hs.2.2.unique hm⟩

-- ---------------------------------------------------------------------------
-- Main result
-- ---------------------------------------------------------------------------

/-- Every call of a memory routine returns its first argument without use of the stack, and the memory is that of
the call except for the `n` bytes at the first argument. After a move, with both ranges in a half of the address
space, and after a copy of disjoint ranges these are the bytes that the source had before the call. After `memset`
they are the given byte, and the other fills agree with `memset`. -/
theorem memOps_correct (A : Interrupt.Arch) (L : Layout Fn) (c : Cpu) :
    (∀ f : Symbol, f.fn = .memmove →
      InHalf (c.reg .r0) (c.reg .r2).toNat → InHalf (c.reg .r1) (c.reg .r2).toNat →
      Returns A L f.fn c (c.reg .r2).toNat fun m =>
        Written c.mem m (c.reg .r0) (fun i => c.mem (elem (c.reg .r1) i)) 0 (c.reg .r2).toNat) ∧
    (∀ f : Symbol, f.fn = .memcpy → Disjoint (c.reg .r0) (c.reg .r1) (c.reg .r2).toNat →
      Returns A L f.fn c (c.reg .r2).toNat fun m =>
        Written c.mem m (c.reg .r0) (fun i => c.mem (elem (c.reg .r1) i)) 0 (c.reg .r2).toNat) ∧
    (Returns A L .memset c (c.reg .r2).toNat fun m =>
      Written c.mem m (c.reg .r0) (fun _ => UInt8.ofNat (c.reg .r1).toNat) 0 (c.reg .r2).toNat) ∧
    (∀ f : Symbol, f.fn = .aeabiMemset → ∀ c' : Cpu, c'.reg .r0 = c.reg .r0 → c'.reg .r1 = c.reg .r2 →
      c'.reg .r2 = c.reg .r1 → c'.mem = c.mem →
      ∃ m, Returns A L f.fn c' (c.reg .r2).toNat (· = m) ∧ Returns A L .memset c (c.reg .r2).toNat (· = m)) ∧
    (∀ f : Symbol, f.fn = .memclr ∨ f.fn = .aeabiMemclr → ∀ c' : Cpu, c'.reg .r0 = c.reg .r0 →
      c'.reg .r1 = c.reg .r2 → c'.mem = c.mem → c.reg .r1 = 0 →
      ∃ m, Returns A L f.fn c' (c.reg .r2).toNat (· = m) ∧ Returns A L .memset c (c.reg .r2).toNat (· = m)) := by
  obtain ⟨m, hm⟩ := Written.exists_mem c.mem (c.reg .r0) (fillByte c) (Nat.le_of_lt (c.reg .r2).isLt)
  have hset := (returns_memset A L c).eq_mem hm
  refine ⟨fun f hf hdst hsrc => ?_, fun f hf hdisj => ?_, returns_memset A L c, ?_, ?_⟩
  · rw [hf]
    exact returns_memmove A L c hdst hsrc
  · rw [hf]
    exact returns_memcpy A L c hdisj.backwardSafe
  · intro f hf c' hr0 hr1 hr2 hmem
    have h := returns_aeabiMemset A L c'
    rw [hf]
    rw [hr0, hr1, hr2] at h
    exact ⟨m, h.eq_mem (hmem ▸ hm), hset⟩
  · intro f hf c' hr0 hr1 hmem hval
    have h := returns_memclr A L c' hf
    have hbyte : fillByte c = fun _ => 0 := by
      funext
      show UInt8.ofNat (c.reg .r1).toNat = 0
      rw [hval]
      rfl
    rw [hbyte] at hm
    rw [hr0, hr1] at h
    exact ⟨m, h.eq_mem (hmem ▸ hm), hset⟩

def flashAddr : Fn → Reg
  | .memset => 0x08000000
  | .memclr => 0x08000020
  | .memcpy => 0x08000040
  | .memcpyFwd => 0x08000060
  | .memmove => 0x08000080
  | .aeabiMemset => 0x080000a0
  | .aeabiMemclr => 0x080000c0

/-- The routines, one after another in the flash memory. -/
def flash : Layout Fn where
  addr := flashAddr
  entry a :=
    [.memset, .memclr, .memcpy, .memcpyFwd, .memmove, .aeabiMemset, .aeabiMemclr].find? (flashAddr · == a)
  entry_iff {a f} := by
    constructor
    · intro h
      have hf := List.find?_some h
      exact beq_iff_eq.mp hf
    · rintro rfl
      cases f <;> rfl

/-- A move of three bytes by one byte. -/
theorem memOps_correct_overlap :
    Returns .armv6m flash .memmove
      ⟨fun | .r0 => 0x20000001 | .r1 => 0x20000000 | .r2 => 3 | .lr => 0x08001000 | _ => 0,
        ⟨false, false, false, false⟩, fun x => UInt8.ofNat x⟩ 3
      fun m => m 0x20000001 = 0 ∧ m 0x20000002 = 1 ∧ m 0x20000003 = 2 := by
  refine ((memOps_correct .armv6m flash _).1 .memmove rfl (.inl (by decide)) (.inl (by decide))).mono
    (fun _ h => h) fun _ h => ⟨h.1, h.2.1, ?_⟩
  exact ⟨h.2.2.written 0 (by decide) (by decide), h.2.2.written 1 (by decide) (by decide),
    h.2.2.written 2 (by decide) (by decide)⟩

end Loops

end Hopter.Assembly
