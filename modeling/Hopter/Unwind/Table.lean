-- SUMMARY: The entries of the exception tables: their layouts, and what is parsed from them.
import Hopter.Unwind.Pointer
import Hopter.Unwind.Prologue

/-!
# Table entries

The index table `.ARM.exidx` has an entry of two words for each function. The unwind instructions
are in the second word, or in an entry of `.ARM.extab` that it points to:
`src/unwind/unw_table.rs`. Pointers are relative to their own place, so a slice has its address.

`none` is the end of the system: an index or a range outside of a slice.
-/

namespace Hopter.Unwind

open Hopter.Task

namespace U8Slice

/-- `slice[start..stop]`. -/
def sub (s : U8Slice) (start stop : Nat) : Option U8Slice :=
  if h : start ≤ stop ∧ stop ≤ s.bytes.length then
    some
      { addr := s.addr + start
        bytes := (s.bytes.drop start).take (stop - start)
        inBounds := by
          have := s.inBounds
          rw [List.length_take, List.length_drop]
          omega }
  else none

end U8Slice

-- ---------------------------------------------------------------------------
-- Relative pointers
-- ---------------------------------------------------------------------------

structure Prel31 where
  offsetRaw : Reg
  selfAddr : Reg

namespace Prel31

/-- The four bytes of the slice. -/
def fromBytes (s : U8Slice) : Prel31 := ⟨BitVec.ofNat 32 (leNat s.bytes), BitVec.ofNat 32 s.addr⟩

/-- The shift to the right keeps the sign. -/
def offsetValue (p : Prel31) : Reg := (p.offsetRaw <<< 1).sshiftRight 1

def value (p : Prel31) : Reg := p.selfAddr + p.offsetValue

def isMsbSet (p : Prel31) : Prop := p.offsetRaw &&& 0x80000000 ≠ 0

instance (p : Prel31) : Decidable p.isMsbSet := inferInstanceAs (Decidable (_ ≠ _))

end Prel31

-- ---------------------------------------------------------------------------
-- Index entries
-- ---------------------------------------------------------------------------

inductive PersonalityType where
  | compact (persSel : Byte)
  | generic (addr : Reg)

/-- `byte_iter.next();` -/
def UnwindByteIter.skip (iter : UnwindByteIter) : UnwindByteIter :=
  match iter.next with
  | some (_, iter) => iter
  | none => iter

inductive ExIdxEntryContent where
  | exTabEntryAddr (addr : Reg)
  | compact (personality : PersonalityType) (iter : UnwindByteIter)
  | cantUnwind

/-- `ExIdxEntryContent::from_raw`. -/
def ExIdxEntryContent.fromRaw (prel31 : Prel31) (s : U8Slice) : Option ExIdxEntryContent :=
  if prel31.offsetRaw = 1 then some .cantUnwind
  else if prel31.isMsbSet then
    let persSel := ((prel31.offsetRaw &&& 0x0f000000) >>> 24).setWidth 8
    (UnwindByteIter.fromBytes s.bytes).toOption.map fun iter => .compact (.compact persSel) iter.skip
  else some (.exTabEntryAddr prel31.value)

structure ExIdxEntry where
  funcAddr : Reg
  content : ExIdxEntryContent

/-- `ExIdxEntry::from_bytes`, for the eight bytes of a slice. -/
def ExIdxEntry.fromBytes (s : U8Slice) : Option (Except String ExIdxEntry) :=
  (s.sub 0 4).bind fun funcBytes =>
  (s.sub 4 8).bind fun contentBytes =>
    let funcOffset := Prel31.fromBytes funcBytes
    if funcOffset.isMsbSet then some (.error "ExIdxEntry::from_bytes: corrupted entry.")
    else
      (ExIdxEntryContent.fromRaw (Prel31.fromBytes contentBytes) contentBytes).map fun content =>
        .ok ⟨funcOffset.value, content⟩

-- ---------------------------------------------------------------------------
-- Table entries
-- ---------------------------------------------------------------------------

structure ExTabEntry where
  personality : PersonalityType
  unwInstrIter : UnwindByteIter

/-- The end of `ExTabEntry::from_bytes`: an entry whose instructions are in the words from `start` up
to `stop`, behind `skip`. -/
def ExTabEntry.build (extab : U8Slice) (personality : PersonalityType) (start stop : Nat)
    (skip : UnwindByteIter → UnwindByteIter) : Option (Except String (ExTabEntry × U8Slice)) :=
  (extab.sub start stop).bind fun wordAlignedBytes =>
    match UnwindByteIter.fromBytes wordAlignedBytes.bytes with
    | .error e => some (.error e)
    | .ok iter => (extab.sub stop extab.bytes.length).map fun lsda => .ok (⟨personality, skip iter⟩, lsda)

/-- `ExTabEntry::from_bytes`. -/
def ExTabEntry.fromBytes (extab : U8Slice) (entryOffset : Nat) :
    Option (Except String (ExTabEntry × U8Slice)) :=
  if entryOffset % 4 ≠ 0 then some (.error "ExTabEntry::from_bytes: offset not multiple of 4.")
  else
    extab.bytes[entryOffset + 3]?.bind fun rawPers =>
      if rawPers &&& 0x80 = 0x80 then
        let persSel := rawPers &&& 0x0f
        if persSel = 1 ∨ persSel = 2 then
          extab.bytes[entryOffset + 2]?.bind fun extraWordNum =>
            build extab (.compact persSel) entryOffset (entryOffset + 4 + 4 * extraWordNum.toNat)
              fun iter => iter.skip.skip
        else if persSel = 0 then
          build extab (.compact persSel) entryOffset (entryOffset + 4) fun iter => iter.skip
        else some (.error "ExTabEntry::from_bytes: unexpected compact personality number.")
      else
        (extab.sub entryOffset (entryOffset + 4)).bind fun persBytes =>
        extab.bytes[entryOffset + 7]?.bind fun extraWordNum =>
          build extab (.generic (Prel31.fromBytes persBytes).value) (entryOffset + 4)
            (entryOffset + 8 + 4 * extraWordNum.toNat) fun iter => iter.skip

-- ---------------------------------------------------------------------------
-- Instructions
-- ---------------------------------------------------------------------------

open UnwindInstrIter

/-- The instructions that an iterator yields before `None`. -/
inductive Yields : List Byte → List UnwindInstruction → Prop
  | done {iter : List Byte} (h : next iter = none) : Yields iter []
  | step {iter rest : List Byte} {i : UnwindInstruction} {is : List UnwindInstruction}
      (h : next iter = some (i, rest)) (hs : Yields rest is) : Yields iter (i :: is)

/-- The bytes of the instructions that are supported. The masks have a bit for each register. -/
inductive EncodesInstr : UnwindInstruction → List Byte → Prop
  | addSp (k : Nat) (hk : k < 64) : EncodesInstr (.dataPop (BitVec.ofNat 32 (4 * k + 4))) [BitVec.ofNat 8 k]
  | subSp (k : Nat) (hk : k < 64) :
      EncodesInstr (.dataPush (BitVec.ofNat 32 (4 * k + 4))) [BitVec.ofNat 8 (0x40 + k)]
  /-- `r12` to `r15` are in `high`, and `r4` to `r11` in `low`. -/
  | popHigh (high : BitVec 4) (low : BitVec 8) (h : high ≠ 0 ∨ low ≠ 0) :
      EncodesInstr (.regPop ((high ++ low ++ 0#4).setWidth 32)) [0x80 ||| high.setWidth 8, low]
  /-- `r4` to `r[4 + n]`, and maybe `r14`. -/
  | popRange (n : Fin 8) (lr : Bool) {mask : Reg}
      (h : ∀ i, mask.getLsbD i = decide (4 ≤ i ∧ i ≤ 4 + n.val ∨ lr = true ∧ i = 14)) :
      EncodesInstr (.regPop mask) [BitVec.ofNat 8 ((if lr then 0xa8 else 0xa0) + n)]
  | popLow (low : BitVec 4) (h : low ≠ 0) : EncodesInstr (.regPop (low.setWidth 32)) [0xb1, low.setWidth 8]
  | moveSp (r : BitVec 4) (h : r ≠ 13 ∧ r ≠ 15) :
      EncodesInstr (.regToSp (r.setWidth 8)) [0x90 ||| r.setWidth 8]
  | addSpLong {n : Nat} {code : List Byte} (hn : n < 2 ^ 32) (h : Uleb128 code n) :
      EncodesInstr (.dataPop (BitVec.ofNat 32 (0x204 + 4 * n))) (0xb2 :: code)
  | popVfpHigh (start count : BitVec 4) :
      EncodesInstr (.vfpPop (start.setWidth 8 + 16) (count.setWidth 8 + 1)) [0xc8, start ++ count]
  | popVfp (start count : BitVec 4) :
      EncodesInstr (.vfpPop (start.setWidth 8) (count.setWidth 8 + 1)) [0xc9, start ++ count]
  | finish : EncodesInstr .finish [0xb0]

/-- The bytes of a list of instructions. -/
inductive EncodesInstrs : List UnwindInstruction → List Byte → Prop
  | nil : EncodesInstrs [] []
  | cons {i : UnwindInstruction} {is : List UnwindInstruction} {code codes : List Byte}
      (h : EncodesInstr i code) (hs : EncodesInstrs is codes) : EncodesInstrs (i :: is) (code ++ codes)

-- ---------------------------------------------------------------------------
-- Decoding
-- ---------------------------------------------------------------------------

section

open UnwindInstruction

variable {code rest : List Byte} {i : UnwindInstruction} {is : List UnwindInstruction}

/-- Seven more bits of a number. -/
theorem or_ofNat_split {b n shift : Nat} (hb : b < 128) :
    BitVec.ofNat 32 (b * 2 ^ shift) ||| BitVec.ofNat 32 (n * 2 ^ (shift + 7)) =
      BitVec.ofNat 32 ((b + 128 * n) * 2 ^ shift) := by
  apply BitVec.eq_of_toNat_eq
  have hsum : (b + 128 * n) * 2 ^ shift = b * 2 ^ shift ||| n * 2 ^ (shift + 7) := by
    have hlt : b * 2 ^ shift < 2 ^ (shift + 7) := by
      rw [Nat.pow_add, Nat.mul_comm]
      exact Nat.mul_lt_mul_of_pos_left hb (Nat.two_pow_pos shift)
    rw [Nat.or_comm, ← Nat.shiftLeft_eq n, ← Nat.shiftLeft_add_eq_or_of_lt hlt, Nat.shiftLeft_eq, Nat.pow_add]
    grind
  rw [BitVec.toNat_or, BitVec.toNat_ofNat, BitVec.toNat_ofNat, BitVec.toNat_ofNat, hsum, Nat.or_mod_two_pow]

/-- The seven bits of a byte at their place in the number. A byte whose shift is 32 or more is zero. -/
theorem shiftLeft_low {b : Byte} {k shift : Nat} (hk : (b &&& 0x7f).toNat = k) (hfit : k * 2 ^ shift < 2 ^ 32) :
    (b &&& 0x7f).zeroExtend 32 <<< (shift % 32) = BitVec.ofNat 32 (k * 2 ^ shift) := by
  apply BitVec.eq_of_toNat_eq
  rw [BitVec.toNat_shiftLeft, BitVec.toNat_setWidth, hk, BitVec.toNat_ofNat, Nat.mod_eq_of_lt hfit,
    Nat.shiftLeft_eq]
  rcases Nat.eq_zero_or_pos k with rfl | hpos
  · simp
  · have hshift : shift < 32 := by
      by_contra hge
      have hpow : 2 ^ 32 ≤ 2 ^ shift := Nat.pow_le_pow_right (by decide) (by omega)
      have := Nat.le_mul_of_pos_left (2 ^ shift) hpos
      omega
    have hlt : k < 2 ^ 32 := by
      rw [← hk]
      have := (b &&& 0x7f).isLt
      omega
    rw [Nat.mod_eq_of_lt hshift, Nat.mod_eq_of_lt hlt, Nat.mod_eq_of_lt hfit]

theorem byte_last : ∀ b : Byte, b.toNat < 128 → b &&& 0x80 = 0 ∧ (b &&& 0x7f).toNat = b.toNat := by decide

theorem byte_more : ∀ b : Byte, 128 ≤ b.toNat → b &&& 0x80 ≠ 0 ∧ (b &&& 0x7f).toNat = b.toNat - 128 := by
  decide

/-- A number that fits in 32 bits is read from each of its codes. -/
theorem readUleb128_of_uleb128 {n shift : Nat} {offset : BitVec 32} (h : Uleb128 code n)
    (hfit : n * 2 ^ shift < 2 ^ 32) :
    readUleb128 (code ++ rest) offset shift = some (offset ||| BitVec.ofNat 32 (n * 2 ^ shift), rest) := by
  induction h generalizing offset shift with
  | @last b hb =>
    obtain ⟨hend, hval⟩ := byte_last b hb
    simp only [List.cons_append, List.nil_append, readUleb128, hend, if_true, shiftLeft_low hval hfit]
  | @more b bs n hb hbs ih =>
    obtain ⟨hmore, hval⟩ := byte_more b hb
    have hb7 : b.toNat - 128 < 128 := by
      have := b.isLt
      omega
    have hsplit : (b.toNat - 128 + 128 * n) * 2 ^ shift = (b.toNat - 128) * 2 ^ shift + n * 2 ^ (shift + 7) := by
      rw [Nat.pow_add]
      grind
    rw [hsplit] at hfit
    rw [← or_ofNat_split hb7, ← BitVec.or_assoc]
    simp only [List.cons_append, readUleb128, if_neg hmore]
    rw [shiftLeft_low hval (by omega), ih (by omega)]

theorem append_mask (high : BitVec 4) (low : BitVec 8) :
    ((high.setWidth 8).zeroExtend 32 <<< 8) ||| low.zeroExtend 32 = (high ++ low).setWidth 32 := by
  have hhigh := high.isLt
  have hlow := low.isLt
  have hshift : high.toNat <<< 8 < 2 ^ 32 := by
    rw [Nat.shiftLeft_eq]
    omega
  have hor : high.toNat <<< 8 ||| low.toNat < 2 ^ 32 := Nat.or_lt_two_pow hshift (by omega)
  apply BitVec.eq_of_toNat_eq
  simp only [BitVec.toNat_or, BitVec.toNat_shiftLeft, BitVec.toNat_setWidth, BitVec.toNat_append]
  rw [Nat.mod_eq_of_lt (show high.toNat < 2 ^ 8 by omega), Nat.mod_eq_of_lt (show high.toNat < 2 ^ 32 by omega),
    Nat.mod_eq_of_lt (show low.toNat < 2 ^ 32 by omega), Nat.mod_eq_of_lt hshift, Nat.mod_eq_of_lt hor]

theorem append_mask_shiftLeft (x : BitVec 12) : x.setWidth 32 <<< 4 = (x ++ 0#4).setWidth 32 := by
  have hx := x.isLt
  apply BitVec.eq_of_toNat_eq
  simp only [BitVec.toNat_shiftLeft, BitVec.toNat_setWidth, BitVec.toNat_append, BitVec.toNat_ofNat,
    Nat.zero_mod, Nat.or_zero]
  rw [Nat.mod_eq_of_lt (show x.toNat < 2 ^ 32 by omega)]

theorem next_popHigh {high : BitVec 4} {low : BitVec 8} (h : high ≠ 0 ∨ low ≠ 0) :
    UnwindInstrIter.next ((0x80 ||| high.setWidth 8) :: low :: rest) =
      some (.regPop ((high ++ low ++ 0#4).setWidth 32), rest) := by
  have hop : ∀ high : BitVec 4, ((0x80 : Byte) ||| high.setWidth 8) &&& 0xc0 ≠ 0x00 ∧
      ((0x80 : Byte) ||| high.setWidth 8) &&& 0xc0 ≠ 0x40 ∧ ((0x80 : Byte) ||| high.setWidth 8) &&& 0xf0 = 0x80 ∧
      ((0x80 : Byte) ||| high.setWidth 8) &&& 0x0f = high.setWidth 8 ∧ ((0x80 : Byte) ||| high.setWidth 8 = 0x80 → high = 0) := by
    decide
  obtain ⟨hpop, hpush, hmask, hlow, hzero⟩ := hop high
  have hrefused : ¬ ((0x80 : Byte) ||| high.setWidth 8 = 0x80 ∧ low = 0x00) := fun hr =>
    h.elim (fun hne => hne (hzero hr.1)) fun hne => hne hr.2
  have hne : (high ++ low).setWidth 32 ≠ (0 : Reg) := by
    intro heq
    have hhigh := high.isLt
    have htoNat := congrArg BitVec.toNat heq
    rw [BitVec.toNat_setWidth, BitVec.toNat_append, ← Nat.shiftLeft_add_eq_or_of_lt low.isLt,
      Nat.shiftLeft_eq] at htoNat
    change _ = 0 at htoNat
    have := low.isLt
    refine h.elim (fun hne => hne (BitVec.eq_of_toNat_eq ?_)) fun hne => hne (BitVec.eq_of_toNat_eq ?_)
    · change high.toNat = 0
      omega
    · change low.toNat = 0
      omega
  have hstep : popMask (0x80 ||| high.setWidth 8) low = .regPop ((high ++ low ++ 0#4).setWidth 32) := by
    rw [popMask, if_neg hrefused]
    dsimp only
    rw [hlow, append_mask, if_neg hne, append_mask_shiftLeft]
  simp only [UnwindInstrIter.next, stepIter, if_neg hpop, if_neg hpush, if_pos hmask, withNext, hstep]

theorem next_popRange (n : Fin 8) (lr : Bool) {mask : Reg}
    (h : ∀ i, mask.getLsbD i = decide (4 ≤ i ∧ i ≤ 4 + n.val ∨ lr = true ∧ i = 14)) :
    UnwindInstrIter.next (BitVec.ofNat 8 ((if lr then 0xa8 else 0xa0) + n) :: rest) = some (.regPop mask, rest) := by
  have hbits : ∀ (n : Fin 8) (lr : Bool), ∀ i < 32, (pushMask (BitVec.ofNat 8 (2 ^ (n.val + 1) - 1)) lr).getLsbD i =
      decide (4 ≤ i ∧ i ≤ 4 + n.val ∨ lr = true ∧ i = 14) := by decide +kernel
  have hmask : mask = pushMask (BitVec.ofNat 8 (2 ^ (n.val + 1) - 1)) lr :=
    BitVec.eq_of_getLsbD_eq fun i hi => (h i).trans (hbits n lr i hi).symm
  rw [hmask]
  exact next_pushRange n lr

theorem append_nibbles : ∀ start count : BitVec 4,
    ((start ++ count : Byte) >>> 4 = start.setWidth 8) ∧ ((start ++ count : Byte) &&& 0x0f = count.setWidth 8) := by
  decide

/-- Each of the bytes of the supported instructions is decoded, whatever is behind them. -/
theorem EncodesInstr.next (h : EncodesInstr i code) : UnwindInstrIter.next (code ++ rest) = some (i, rest) := by
  cases h with
  | addSp k hk => exact next_short hk
  | subSp k hk => exact next_shortPush hk
  | popHigh high low h => exact next_popHigh h
  | popRange n lr h => exact next_popRange n lr h
  | popLow low h =>
    have hop : ∀ low : BitVec 4, low ≠ 0 →
        ¬ (low.setWidth 8 = (0 : Byte) ∨ low.setWidth 8 &&& (0xf0 : Byte) ≠ 0) ∧
          (low.setWidth 8 &&& (0x0f : Byte)).zeroExtend 32 = low.setWidth 32 := by decide
    obtain ⟨hreserved, hmask⟩ := hop low h
    have hnext : UnwindInstrIter.next ([0xb1, low.setWidth 8] ++ rest) =
        some (if low.setWidth 8 = (0 : Byte) ∨ low.setWidth 8 &&& (0xf0 : Byte) ≠ 0 then .reserved
          else .regPop ((low.setWidth 8 &&& (0x0f : Byte)).zeroExtend 32), rest) := rfl
    rw [hnext, if_neg hreserved, hmask]
  | moveSp r h =>
    have hop : ∀ r : BitVec 4, r ≠ 13 → r ≠ 15 →
        ((0x90 : Byte) ||| r.setWidth 8) &&& 0xc0 ≠ 0x00 ∧ ((0x90 : Byte) ||| r.setWidth 8) &&& 0xc0 ≠ 0x40 ∧
        ((0x90 : Byte) ||| r.setWidth 8) &&& 0xf0 ≠ 0x80 ∧ ((0x90 : Byte) ||| r.setWidth 8) &&& 0xf0 = 0x90 ∧
        ¬ ((0x90 : Byte) ||| r.setWidth 8 = 0x9d ∨ (0x90 : Byte) ||| r.setWidth 8 = 0x9f) ∧
        ((0x90 : Byte) ||| r.setWidth 8) &&& 0x0f = r.setWidth 8 := by decide
    obtain ⟨hpop, hpush, hmask, hmove, hreserved, hnum⟩ := hop r h.1 h.2
    simp only [List.cons_append, List.nil_append, UnwindInstrIter.next, stepIter, if_neg hpop, if_neg hpush,
      if_neg hmask, if_pos hmove, if_neg hreserved, hnum]
  | @addSpLong n code hn h =>
    have hread : readUleb128 (code ++ rest) 0#32 0 = some (BitVec.ofNat 32 n, rest) := by
      rw [readUleb128_of_uleb128 h (by simpa using hn)]
      simp
    have hsize : BitVec.ofNat 32 n * 4#32 + 0x204#32 = BitVec.ofNat 32 (0x204 + 4 * n) := by
      rw [Nat.add_comm, BitVec.ofNat_add, Nat.mul_comm, BitVec.ofNat_mul]
    simp [UnwindInstrIter.next, stepIter, hread, hsize]
  | popVfpHigh start count =>
    obtain ⟨hstart, hcount⟩ := append_nibbles start count
    have hnext : UnwindInstrIter.next ([0xc8, start ++ count] ++ rest) =
        some (.vfpPop (((start ++ count : Byte) >>> 4) + 16) (((start ++ count : Byte) &&& 0x0f) + 1), rest) := rfl
    rw [hnext, hstart, hcount]
  | popVfp start count =>
    obtain ⟨hstart, hcount⟩ := append_nibbles start count
    have hnext : UnwindInstrIter.next ([0xc9, start ++ count] ++ rest) =
        some (.vfpPop (((start ++ count : Byte) >>> 4)) (((start ++ count : Byte) &&& 0x0f) + 1), rest) := rfl
    rw [hnext, hstart, hcount]
  | finish => rfl

-- ---------------------------------------------------------------------------
-- Iterating
-- ---------------------------------------------------------------------------

theorem EncodesInstrs.yields {js : List UnwindInstruction} (h : EncodesInstrs is code)
    (hrest : Yields rest js) : Yields (code ++ rest) (is ++ js) := by
  induction h with
  | nil => exact hrest
  | cons h _ ih =>
    rw [List.append_assoc, List.cons_append]
    exact .step h.next ih

theorem yields_padding (k : Nat) : Yields (List.replicate k 0xb0) (List.replicate k .finish) := by
  induction k with
  | zero => exact .done rfl
  | succ k ih => exact .step (next_finish _) ih

/-- All bytes are instructions, and each instruction takes a byte. -/
theorem exists_yields (iter : List Byte) : ∃ is, Yields iter is ∧ is.length ≤ iter.length := by
  cases hnext : UnwindInstrIter.next iter with
  | none => exact ⟨[], .done hnext, Nat.zero_le _⟩
  | some x =>
    obtain ⟨i, rest⟩ := x
    have hlt := next_length hnext
    obtain ⟨is, hyields, hlen⟩ := exists_yields rest
    exact ⟨i :: is, .step hnext hyields, Nat.succ_le_of_lt (Nat.lt_of_le_of_lt hlen hlt)⟩
termination_by iter.length

/-- The bytes of words in the memory, whose bytes are given from the most significant one on. -/
def wordBytes : List Byte → List Byte
  | a :: b :: c :: d :: bs => d :: c :: b :: a :: wordBytes bs
  | _ => []

theorem length_wordBytes {bs : List Byte} (h : bs.length % 4 = 0) : (wordBytes bs).length = bs.length := by
  induction bs using wordBytes.induct with
  | case1 a b c d bs ih =>
    have hlen : (a :: b :: c :: d :: bs).length = bs.length + 4 := rfl
    have hwords : (wordBytes (a :: b :: c :: d :: bs)).length = (wordBytes bs).length + 4 := rfl
    rw [hwords, hlen, ih (by omega)]
  | case2 bs hshort =>
    rcases bs with _ | ⟨a, _ | ⟨b, _ | ⟨c, _ | ⟨d, bs⟩⟩⟩⟩
    · rfl
    · cases h
    · cases h
    · cases h
    · exact absurd rfl (hshort a b c d bs)

theorem getElem?_wordBytes {bs : List Byte} {p : Nat} (h : bs.length % 4 = 0) :
    (wordBytes bs)[UnwindByteIter.index p]? = bs[p]? := by
  induction bs using wordBytes.induct generalizing p with
  | case1 a b c d bs ih =>
    have hlen : (a :: b :: c :: d :: bs).length = bs.length + 4 := rfl
    rcases p with _ | _ | _ | _ | p
    · rfl
    · rfl
    · rfl
    · rfl
    · have hindex : UnwindByteIter.index (p + 4) = UnwindByteIter.index p + 4 := by
        unfold UnwindByteIter.index
        omega
      change (wordBytes (a :: b :: c :: d :: bs))[UnwindByteIter.index (p + 4)]? = _
      rw [hindex]
      exact ih (by omega)
  | case2 bs hshort =>
    rcases bs with _ | ⟨a, _ | ⟨b, _ | ⟨c, _ | ⟨d, bs⟩⟩⟩⟩
    · rfl
    · cases h
    · cases h
    · cases h
    · exact absurd rfl (hshort a b c d bs)

/-- An iterator yields the bytes of the words from the most significant one on. -/
theorem toList_wordBytes {iter : UnwindByteIter} {bs : List Byte} (h : bs.length % 4 = 0)
    (hbytes : iter.bytes = wordBytes bs) (hpos : iter.pos = 0) : iter.toList = bs := by
  rw [UnwindByteIter.toList, hpos, hbytes, length_wordBytes h]
  apply List.ext_getElem
  · simp
  · intro p hp hp'
    rw [List.getElem_map, List.getElem_range', List.getD_eq_getElem?_getD, Nat.zero_add, Nat.one_mul,
      getElem?_wordBytes h, List.getElem?_eq_getElem hp', Option.getD_some]

theorem toList_skip (iter : UnwindByteIter) : iter.skip.toList = iter.toList.tail := by
  unfold UnwindByteIter.skip
  cases hnext : iter.next with
  | none => rw [UnwindByteIter.next_eq_none hnext]; rfl
  | some x =>
    obtain ⟨b, iter'⟩ := x
    rw [UnwindByteIter.next_eq_some hnext]
    rfl

-- ---------------------------------------------------------------------------
-- Parsing
-- ---------------------------------------------------------------------------

theorem U8Slice.sub_append {s : U8Slice} {before mid rest : List Byte} (h : s.bytes = before ++ (mid ++ rest)) :
    ∃ t, s.sub before.length (before.length + mid.length) = some t ∧ t.bytes = mid ∧
      t.addr = s.addr + before.length := by
  have hle : before.length ≤ before.length + mid.length ∧ before.length + mid.length ≤ s.bytes.length := by
    rw [h, List.length_append, List.length_append]
    omega
  refine ⟨_, dif_pos hle, ?_, rfl⟩
  dsimp only
  rw [h, List.drop_left, Nat.add_sub_cancel_left, List.take_left]

/-- The entry is built from the words before `rest`. -/
theorem build_eq {extab : U8Slice} {before words rest : List Byte} (personality : PersonalityType)
    (skip : UnwindByteIter → UnwindByteIter) (hwords : words.length % 4 = 0)
    (h : extab.bytes = before ++ (wordBytes words ++ rest)) :
    ∃ (iter : UnwindByteIter) (lsda : U8Slice),
      ExTabEntry.build extab personality before.length (before.length + words.length) skip =
        some (.ok (⟨personality, skip iter⟩, lsda)) ∧
      iter.toList = words ∧ lsda.bytes = rest ∧ lsda.addr = extab.addr + (before.length + words.length) := by
  obtain ⟨t, ht, hbytes, -⟩ := U8Slice.sub_append h
  have hlen := length_wordBytes hwords
  rw [hlen] at ht
  have hmod : t.bytes.length % 4 = 0 := by rw [hbytes, hlen, hwords]
  have hiter : UnwindByteIter.fromBytes t.bytes = .ok ⟨t.bytes, 0, hmod⟩ := dif_pos hmod
  have hend : extab.bytes = (before ++ wordBytes words) ++ (rest ++ []) := by simp [h]
  obtain ⟨lsda, hlsda, hrest, haddr⟩ := U8Slice.sub_append hend
  have hstop : (before ++ wordBytes words).length = before.length + words.length := by
    rw [List.length_append, hlen]
  have htotal : before.length + words.length + rest.length = extab.bytes.length := by
    rw [h, List.length_append, List.length_append, hlen, Nat.add_assoc]
  rw [hstop, htotal] at hlsda
  refine ⟨⟨t.bytes, 0, hmod⟩, lsda, ?_, toList_wordBytes hwords hbytes rfl, hrest, by rw [haddr, hstop]⟩
  rw [ExTabEntry.build, ht, Option.bind_some, hiter]
  dsimp only
  rw [hlsda]
  rfl

/-- A word whose highest bit is clear, as the bytes of the memory. -/
inductive ClearWord : List Byte → Prop
  | mk (a b c d : Byte) (h : d &&& 0x80 ≠ 0x80) : ClearWord [a, b, c, d]

/-- The layouts of an entry of `.ARM.extab`: the bytes of its instructions, and those of the memory. -/
inductive EncodesEntryWords : List Byte → List Byte → Prop
  | short {instrs : List Byte} (h : instrs.length = 3) : EncodesEntryWords instrs (wordBytes (0x80 :: instrs))
  | long {persSel : Byte} (hsel : persSel = 1 ∨ persSel = 2) {extraWordNum : Byte} {instrs : List Byte}
      (h : instrs.length = 2 + 4 * extraWordNum.toNat) :
      EncodesEntryWords instrs (wordBytes ((0x80 ||| persSel) :: extraWordNum :: instrs))
  | generic {pers : List Byte} (hpers : ClearWord pers) {extraWordNum : Byte} {instrs : List Byte}
      (h : instrs.length = 3 + 4 * extraWordNum.toNat) :
      EncodesEntryWords instrs (pers ++ wordBytes (extraWordNum :: instrs))

theorem getElem?_entry {extab : U8Slice} {before entry : List Byte} (h : extab.bytes = before ++ (entry ++ rest))
    {k : Nat} {b : Byte} (hb : entry[k]? = some b) : extab.bytes[before.length + k]? = some b := by
  have hlt : k < entry.length := (List.getElem?_eq_some_iff.mp hb).1
  rw [h, List.getElem?_append_right (Nat.le_add_right _ _), Nat.add_sub_cancel_left,
    List.getElem?_append_left hlt, hb]

/-- The instructions of an entry are those that were encoded, and the rest of the slice is behind it. -/
theorem exTabEntry_fromBytes {extab : U8Slice} {before instrs entry : List Byte}
    (henc : EncodesEntryWords instrs entry) (hoffset : before.length % 4 = 0)
    (h : extab.bytes = before ++ (entry ++ rest)) :
    ∃ (e : ExTabEntry) (lsda : U8Slice), ExTabEntry.fromBytes extab before.length = some (.ok (e, lsda)) ∧
      e.unwInstrIter.toList = instrs ∧ lsda.bytes = rest ∧
      lsda.addr = extab.addr + (before.length + entry.length) := by
  have haligned : ¬ before.length % 4 ≠ 0 := not_not.mpr hoffset
  cases henc with
  | short hlen =>
    have hwords : (0x80 :: instrs).length % 4 = 0 := by rw [List.length_cons, hlen]
    obtain ⟨x, y, z, rfl⟩ := List.length_eq_three.mp hlen
    have hpers := getElem?_entry h (k := 3) (b := 0x80) rfl
    obtain ⟨iter, lsda, hbuild, hiter, hrest, haddr⟩ := build_eq (.compact 0)
      (fun iter => iter.skip) hwords h
    refine ⟨⟨.compact 0, iter.skip⟩, lsda, ?_, by rw [toList_skip, hiter]; rfl, hrest, haddr⟩
    rw [ExTabEntry.fromBytes, if_neg haligned, hpers]
    exact hbuild
  | @long persSel hsel extraWordNum instrs hlen =>
    have hwords : ((0x80 ||| persSel) :: extraWordNum :: instrs).length % 4 = 0 := by
      rw [List.length_cons, List.length_cons, hlen]
      omega
    have hop : ∀ persSel : Byte, persSel = 1 ∨ persSel = 2 →
        (0x80 ||| persSel) &&& 0x80 = 0x80 ∧ (0x80 ||| persSel) &&& 0x0f = persSel := by
      rintro _ (rfl | rfl) <;> decide
    obtain ⟨hcompact, hpersSel⟩ := hop persSel hsel
    obtain ⟨x, y, more, rfl⟩ : ∃ x y more, instrs = x :: y :: more := by
      rcases instrs with _ | ⟨x, _ | ⟨y, more⟩⟩
      · rw [List.length_nil] at hlen; omega
      · rw [List.length_singleton] at hlen; omega
      · exact ⟨x, y, more, rfl⟩
    have hpers := getElem?_entry h (k := 3) (b := 0x80 ||| persSel) rfl
    have hextra := getElem?_entry h (k := 2) (b := extraWordNum) rfl
    obtain ⟨iter, lsda, hbuild, hiter, hrest, haddr⟩ := build_eq (.compact persSel)
      (fun iter => iter.skip.skip) hwords h
    have hstop : before.length + ((0x80 ||| persSel) :: extraWordNum :: x :: y :: more).length =
        before.length + 4 + 4 * extraWordNum.toNat := by
      rw [List.length_cons, List.length_cons, hlen]
      omega
    refine ⟨⟨.compact persSel, iter.skip.skip⟩, lsda, ?_, by rw [toList_skip, toList_skip, hiter]; rfl, hrest,
      by rw [haddr, length_wordBytes hwords]⟩
    rw [ExTabEntry.fromBytes, if_neg haligned, hpers, Option.bind_some, if_pos hcompact, hpersSel]
    dsimp only
    rw [if_pos hsel, hextra, Option.bind_some, ← hstop]
    exact hbuild
  | @generic pers hpers extraWordNum instrs hlen =>
    obtain ⟨a, b, c, d, hclear⟩ := hpers
    have hwords : (extraWordNum :: instrs).length % 4 = 0 := by
      rw [List.length_cons, hlen]
      omega
    obtain ⟨x, y, z, more, rfl⟩ : ∃ x y z more, instrs = x :: y :: z :: more := by
      rcases instrs with _ | ⟨x, _ | ⟨y, _ | ⟨z, more⟩⟩⟩
      · rw [List.length_nil] at hlen; omega
      · rw [List.length_singleton] at hlen; omega
      · rw [List.length_cons, List.length_singleton] at hlen; omega
      · exact ⟨x, y, z, more, rfl⟩
    have hpers := getElem?_entry h (k := 3) (b := d) rfl
    have hextra := getElem?_entry h (k := 7) (b := extraWordNum) rfl
    have hsplit : extab.bytes = before ++ ([a, b, c, d] ++
        (wordBytes (extraWordNum :: x :: y :: z :: more) ++ rest)) := by rw [h, List.append_assoc]
    obtain ⟨persBytes, hsub⟩ : ∃ t, extab.sub before.length (before.length + 4) = some t :=
      let ⟨t, ht, _, _⟩ := U8Slice.sub_append hsplit
      ⟨t, ht⟩
    rw [← List.append_assoc] at hsplit
    obtain ⟨iter, lsda, hbuild, hiter, hrest, haddr⟩ := build_eq
      (.generic (Prel31.fromBytes persBytes).value) (fun iter => iter.skip) hwords hsplit
    have hstart : (before ++ [a, b, c, d]).length = before.length + 4 := List.length_append
    have hstop : (before ++ [a, b, c, d]).length + (extraWordNum :: x :: y :: z :: more).length =
        before.length + 8 + 4 * extraWordNum.toNat := by
      rw [hstart, List.length_cons, hlen]
      omega
    refine ⟨⟨.generic (Prel31.fromBytes persBytes).value, iter.skip⟩, lsda, ?_,
      by rw [toList_skip, hiter]; rfl, hrest, ?_⟩
    · rw [ExTabEntry.fromBytes, if_neg haligned, hpers, Option.bind_some, if_neg hclear]
      rw [hsub, Option.bind_some, hextra, Option.bind_some, ← hstop, ← hstart]
      exact hbuild
    · rw [haddr, List.length_append, List.length_append, length_wordBytes hwords]
      omega

theorem toNat_offsetRaw {s : U8Slice} {a b c d : Byte} (h : s.bytes = [a, b, c, d]) :
    (Prel31.fromBytes s).offsetRaw.toNat = a.toNat + 256 * (b.toNat + 256 * (c.toNat + 256 * d.toNat)) := by
  have ha := a.isLt
  have hb := b.isLt
  have hc := c.isLt
  have hd := d.isLt
  simp only [Prel31.fromBytes, h, leNat, BitVec.toNat_ofNat]
  omega

/-- The highest bit of a word is that of its last byte. -/
theorem isMsbSet_iff {s : U8Slice} {a b c d : Byte} (h : s.bytes = [a, b, c, d]) :
    (Prel31.fromBytes s).isMsbSet ↔ d &&& 0x80 = 0x80 := by
  have hbyte : ∀ d : Byte, d &&& 0x80 = 0x80 ↔ 128 ≤ d.toNat := by decide
  have hmsb : (Prel31.fromBytes s).isMsbSet ↔ 2 ^ 31 ≤ (Prel31.fromBytes s).offsetRaw.toNat := by
    rw [Prel31.isMsbSet, show (0x80000000 : Reg) = BitVec.twoPow 32 31 from rfl, BitVec.and_twoPow]
    have hbit : (Prel31.fromBytes s).offsetRaw.getLsbD 31 = (Prel31.fromBytes s).offsetRaw.msb := rfl
    rw [hbit, BitVec.msb_eq_decide]
    by_cases hge : 2 ^ 31 ≤ (Prel31.fromBytes s).offsetRaw.toNat
    · exact iff_of_true (by rw [decide_eq_true hge]; decide) hge
    · exact iff_of_false (by rw [decide_eq_false hge]; decide) hge
  have ha := a.isLt
  have hb := b.isLt
  have hc := c.isLt
  rw [hmsb, hbyte, toNat_offsetRaw h]
  omega

theorem persSel_eq {s : U8Slice} {a b c d : Byte} (h : s.bytes = [a, b, c, d]) :
    (((Prel31.fromBytes s).offsetRaw &&& 0x0f000000) >>> 24).setWidth 8 = d &&& 0x0f := by
  have ha := a.isLt
  have hb := b.isLt
  have hc := c.isLt
  have hd := d.isLt
  apply BitVec.eq_of_toNat_eq
  have hshift : (Prel31.fromBytes s).offsetRaw.toNat >>> 24 = d.toNat := by
    rw [toNat_offsetRaw h, Nat.shiftRight_eq_div_pow]
    omega
  have hmask : (0x0f000000 : Reg).toNat >>> 24 = (0x0f : Byte).toNat := rfl
  have hlt : d.toNat &&& (0x0f : Byte).toNat < 2 ^ 8 := Nat.and_lt_two_pow _ (by decide)
  rw [BitVec.toNat_setWidth, BitVec.toNat_ushiftRight, BitVec.toNat_and, Nat.shiftRight_and_distrib, hshift,
    hmask, BitVec.toNat_and, Nat.mod_eq_of_lt hlt]

/-- The instructions of an index entry are the last three bytes of its second word. -/
theorem exIdxEntry_fromBytes {s : U8Slice} {func instrs : List Byte} {persSel : BitVec 4} (hfunc : ClearWord func)
    (hlen : instrs.length = 3) (h : s.bytes = func ++ wordBytes ((0x80 ||| persSel.setWidth 8) :: instrs)) :
    ∃ funcAddr iter, ExIdxEntry.fromBytes s =
        some (.ok ⟨funcAddr, .compact (.compact (persSel.setWidth 8)) iter⟩) ∧ iter.toList = instrs := by
  obtain ⟨a, b, c, d, hclear⟩ := hfunc
  obtain ⟨x, y, z, rfl⟩ := List.length_eq_three.mp hlen
  have hop : ∀ persSel : BitVec 4, ((0x80 : Byte) ||| persSel.setWidth 8) &&& 0x80 = 0x80 ∧
      ((0x80 : Byte) ||| persSel.setWidth 8) &&& 0x0f = persSel.setWidth 8 ∧
      128 ≤ ((0x80 : Byte) ||| persSel.setWidth 8).toNat := by decide
  obtain ⟨hcompact, hpersSel, hge⟩ := hop persSel
  have h₀ : s.bytes = [] ++ ([a, b, c, d] ++ [z, y, x, 0x80 ||| persSel.setWidth 8]) := h
  have h₁ : s.bytes = [a, b, c, d] ++ ([z, y, x, 0x80 ||| persSel.setWidth 8] ++ []) := h
  obtain ⟨funcBytes, hsub₀, hfuncBytes, -⟩ := U8Slice.sub_append h₀
  obtain ⟨content, hsub₁, hcontent, -⟩ := U8Slice.sub_append h₁
  change s.sub 0 4 = some funcBytes at hsub₀
  change s.sub 4 8 = some content at hsub₁
  have hmod : content.bytes.length % 4 = 0 := by simp [hcontent]
  have hiter : UnwindByteIter.fromBytes content.bytes = .ok ⟨content.bytes, 0, hmod⟩ := dif_pos hmod
  have hwords : (UnwindByteIter.mk content.bytes 0 hmod).toList = [0x80 ||| persSel.setWidth 8, x, y, z] :=
    toList_wordBytes (by simp) hcontent rfl
  have hne : (Prel31.fromBytes content).offsetRaw ≠ 1 := by
    intro heq
    have htoNat := toNat_offsetRaw hcontent
    rw [heq] at htoNat
    change 1 = _ at htoNat
    omega
  refine ⟨(Prel31.fromBytes funcBytes).value, (UnwindByteIter.mk content.bytes 0 hmod).skip, ?_, ?_⟩
  · rw [ExIdxEntry.fromBytes, hsub₀, Option.bind_some, hsub₁, Option.bind_some]
    dsimp only
    rw [if_neg (mt (isMsbSet_iff hfuncBytes).mp hclear), ExIdxEntryContent.fromRaw, if_neg hne,
      if_pos ((isMsbSet_iff hcontent).mpr hcompact), hiter, persSel_eq hcontent, hpersSel]
    rfl
  · rw [toList_skip, hwords]
    rfl

/-- The entries of the tables decode to the instructions that they were made from, followed by the
padding. The rest of the slice is behind the entry. All bytes yield some instructions, and then
`None`. -/
theorem entries_decode :
    (∀ (s : U8Slice) (func code : List Byte) (persSel : BitVec 4) (is : List UnwindInstruction) (pad : Nat),
      EncodesInstrs is code → code.length + pad = 3 → ClearWord func →
      s.bytes = func ++ wordBytes ((0x80 ||| persSel.setWidth 8) :: (code ++ List.replicate pad 0xb0)) →
        ∃ funcAddr iter, ExIdxEntry.fromBytes s =
            some (.ok ⟨funcAddr, .compact (.compact (persSel.setWidth 8)) iter⟩) ∧
          Yields iter.toList (is ++ List.replicate pad .finish)) ∧
    (∀ (extab : U8Slice) (before entry code rest : List Byte) (is : List UnwindInstruction) (pad : Nat),
      EncodesInstrs is code → EncodesEntryWords (code ++ List.replicate pad 0xb0) entry →
      before.length % 4 = 0 → extab.bytes = before ++ (entry ++ rest) →
        ∃ (e : ExTabEntry) (lsda : U8Slice), ExTabEntry.fromBytes extab before.length = some (.ok (e, lsda)) ∧
          Yields e.unwInstrIter.toList (is ++ List.replicate pad .finish) ∧ lsda.bytes = rest ∧
          lsda.addr = extab.addr + (before.length + entry.length)) ∧
    ∀ iter : UnwindByteIter, ∃ is, Yields iter.toList is ∧ is.length ≤ iter.bytes.length := by
  refine ⟨fun s func code persSel is pad hcode hlen hfunc h => ?_,
    fun extab before entry code rest is pad hcode hentry hoffset h => ?_, fun iter => ?_⟩
  · have hthree : (code ++ List.replicate pad 0xb0).length = 3 := by
      rw [List.length_append, List.length_replicate, hlen]
    obtain ⟨funcAddr, iter, hparse, hiter⟩ := exIdxEntry_fromBytes hfunc hthree h
    refine ⟨funcAddr, iter, hparse, ?_⟩
    rw [hiter]
    exact hcode.yields (yields_padding pad)
  · obtain ⟨e, lsda, hparse, hiter, hrest, haddr⟩ := exTabEntry_fromBytes hentry hoffset h
    refine ⟨e, lsda, hparse, ?_, hrest, haddr⟩
    rw [hiter]
    exact hcode.yields (yields_padding pad)
  · obtain ⟨is, hyields, hlen⟩ := exists_yields iter.toList
    refine ⟨is, hyields, le_trans hlen ?_⟩
    rw [UnwindByteIter.toList, List.length_map, List.length_range']
    exact Nat.sub_le _ _

/-- `pop {r4-r7, lr}` in an index entry. -/
def popIndexEntry : U8Slice := ⟨0x08002000, [0x00, 0x10, 0x00, 0x00, 0xb0, 0x0f, 0x84, 0x80], by decide⟩

/-- `pop {r4-r7, lr}` and `vsp += 0x214` in an entry with one more word, with the bytes of an LSDA
behind it. -/
def popTableEntry : U8Slice where
  addr := 0x08003000
  bytes := [0x00, 0x00, 0x00, 0x00, 0x0f, 0x84, 0x01, 0x81, 0xb0, 0xb0, 0x04, 0xb2, 0xff, 0x9b]
  inBounds := by decide

theorem entries_decode_pop :
    (∃ funcAddr iter, ExIdxEntry.fromBytes popIndexEntry =
        some (.ok ⟨funcAddr, .compact (.compact 0) iter⟩) ∧
      Yields iter.toList [.regPop 0x40f0, .finish]) ∧
    ∃ (e : ExTabEntry) (lsda : U8Slice), ExTabEntry.fromBytes popTableEntry 4 = some (.ok (e, lsda)) ∧
      Yields e.unwInstrIter.toList [.regPop 0x40f0, .dataPop 0x214, .finish, .finish] ∧
      lsda.bytes = [0xff, 0x9b] ∧ lsda.addr = 0x0800300c := by
  obtain ⟨hindex, htable, -⟩ := entries_decode
  have hpop : EncodesInstr (.regPop 0x40f0) [0x84, 0x0f] := .popHigh 4 0x0f (by decide)
  have hfour : Uleb128 [0x04] 4 := Uleb128.last (show (4 : Byte).toNat < 128 by decide)
  have hadd : EncodesInstr (.dataPop 0x214) [0xb2, 0x04] := .addSpLong (by decide) hfour
  refine ⟨?_, ?_⟩
  · exact hindex popIndexEntry [0x00, 0x10, 0x00, 0x00] [0x84, 0x0f] 0 _ 1 (.cons hpop .nil) rfl
      (.mk _ _ _ _ (by decide)) rfl
  · exact htable popTableEntry [0x00, 0x00, 0x00, 0x00] _ [0x84, 0x0f, 0xb2, 0x04] [0xff, 0x9b] _ 2
      (.cons hpop (.cons hadd .nil)) (@EncodesEntryWords.long 1 (Or.inl rfl) 1 _ rfl) rfl rfl

end

end Hopter.Unwind
