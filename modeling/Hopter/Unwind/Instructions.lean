-- SUMMARY: Frame-unwinding instructions: their bytes in a table entry, and how they are decoded.
import Mathlib.Algebra.Ring.Int.Defs
import Mathlib.Algebra.Ring.Nat
import Mathlib.Data.List.Range
import Mathlib.Tactic.Common

/-!
# Unwind instructions

The bytes of an entry of the exception table and the instructions that they hold:
`UnwindByteIter`, `UnwindInstruction::step_iter` and `UnwindInstrIter` in
`src/unwind/unw_table.rs`. An iterator over bytes is the list of the bytes that it still
yields.

Arithmetic is that of a release build, where it wraps and shifts take the low bits of the
amount.
-/

namespace Hopter.Unwind

abbrev Byte := BitVec 8

-- ---------------------------------------------------------------------------
-- Bytes
-- ---------------------------------------------------------------------------

/-- The bytes of a table entry. They come in words; the words are read in order and the bytes
of a word from the most significant one on. -/
structure UnwindByteIter where
  bytes : List Byte
  pos : Nat
  length_mod : bytes.length % 4 = 0

namespace UnwindByteIter

def fromBytes (bytes : List Byte) : Except String UnwindByteIter :=
  if h : bytes.length % 4 = 0 then .ok ⟨bytes, 0, h⟩
  else .error "UnwindInstrIter::from_bytes: bytes length not a multiple of 4."

/-- Where the byte at a position of the iterator is. -/
def index (pos : Nat) : Nat := pos / 4 * 4 + (3 - pos % 4)

theorem index_lt {it : UnwindByteIter} {pos : Nat} (h : pos < it.bytes.length) :
    index pos < it.bytes.length := by
  have := it.length_mod
  unfold index
  omega

def next (it : UnwindByteIter) : Option (Byte × UnwindByteIter) :=
  if h : it.pos < it.bytes.length then
    some (it.bytes.get ⟨index it.pos, index_lt h⟩, { it with pos := it.pos + 1 })
  else none

/-- The bytes that the iterator still yields. -/
def toList (it : UnwindByteIter) : List Byte :=
  (List.range' it.pos (it.bytes.length - it.pos)).map fun pos => it.bytes.getD (index pos) 0

theorem next_eq_none {it : UnwindByteIter} (h : it.next = none) : it.toList = [] := by
  unfold next at h
  split at h
  · cases h
  · have : it.bytes.length - it.pos = 0 := by omega
    simp [toList, this]

theorem next_eq_some {it it' : UnwindByteIter} {b : Byte} (h : it.next = some (b, it')) :
    it.toList = b :: it'.toList := by
  unfold next at h
  split at h
  · rename_i hlt
    simp only [Option.some.injEq, Prod.mk.injEq] at h
    obtain ⟨rfl, rfl⟩ := h
    have hlen : it.bytes.length - it.pos = (it.bytes.length - (it.pos + 1)) + 1 := by omega
    simp [toList, hlen, List.range'_succ, List.getElem?_eq_getElem (index_lt hlt)]
  · cases h

end UnwindByteIter

-- ---------------------------------------------------------------------------
-- Instructions
-- ---------------------------------------------------------------------------

inductive UnwindInstruction where
  | dataPop (size : BitVec 32)
  | dataPush (size : BitVec 32)
  | regPop (mask : BitVec 32)
  | regToSp (regNum : Byte)
  | vfpPop (startRegNum count : Byte)
  | wregPop
  | wcgrPop
  | finish
  | refused
  | reserved
  | unimplemented
  | error
  deriving DecidableEq

namespace UnwindInstruction

/-- `ERR_MSG` of `step_iter`. -/
def errMsg : String := "UnwindInstruction::step_iter: unexpected end of iterator."

/-- The loop that reads a number after `0xb2`. -/
def readUleb128 : List Byte → BitVec 32 → Nat → Option (BitVec 32 × List Byte)
  | [], _, _ => none
  | byte :: iter, offset, shift =>
    let offset := offset ||| ((byte &&& 0x7f).zeroExtend 32 <<< (shift % 32))
    if byte &&& 0x80 = 0 then some (offset, iter) else readUleb128 iter offset (shift + 7)

/-- An instruction whose second byte is `op2`. -/
def withNext (iter : List Byte) (f : Byte → UnwindInstruction) :
    Except String (Option UnwindInstruction) × List Byte :=
  match iter with
  | [] => (.error errMsg, [])
  | op2 :: iter => (.ok (some (f op2)), iter)

/-- The instruction of `0x80` to `0x8f` with the second byte `op2`. -/
def popMask (op op2 : Byte) : UnwindInstruction :=
  if op = 0x80 ∧ op2 = 0x00 then .refused
  else
    let mask := ((op &&& 0x0f).zeroExtend 32 <<< 8) ||| op2.zeroExtend 32
    if mask = 0 then .error else .regPop (mask <<< 4)

/-- `step_iter`. -/
def stepIter : List Byte → Except String (Option UnwindInstruction) × List Byte
  | [] => (.ok none, [])
  | op :: iter =>
    if op &&& 0xc0 = 0x00 then
      (.ok (some (.dataPop (((op &&& 0x3f).zeroExtend 32 <<< 2) + 4))), iter)
    else if op &&& 0xc0 = 0x40 then
      (.ok (some (.dataPush (((op &&& 0x3f).zeroExtend 32 <<< 2) + 4))), iter)
    else if op &&& 0xf0 = 0x80 then
      withNext iter (popMask op)
    else if op &&& 0xf0 = 0x90 then
      if op = 0x9d ∨ op = 0x9f then (.ok (some .reserved), iter)
      else (.ok (some (.regToSp (op &&& 0x0f))), iter)
    else if op &&& 0xf0 = 0xa0 then
      let mask := (((1 : BitVec 32) <<< ((op &&& 0x07).toNat + 1)) - 1) <<< 4
      let mask := if op &&& 0x08 ≠ 0 then mask ||| ((1 : BitVec 32) <<< 14) else mask
      (.ok (some (.regPop mask)), iter)
    else if op = 0xb0 then (.ok (some .finish), iter)
    else if op = 0xb1 then
      withNext iter fun op2 =>
        if op2 = 0 ∨ op2 &&& 0xf0 ≠ 0 then .reserved else .regPop ((op2 &&& 0x0f).zeroExtend 32)
    else if op = 0xb2 then
      match readUleb128 iter 0 0 with
      | none => (.error errMsg, [])
      | some (offset, iter) => (.ok (some (.dataPop (offset * 4 + 0x204))), iter)
    else if op = 0xc8 then
      withNext iter fun op2 => .vfpPop ((op2 >>> 4) + 16) ((op2 &&& 0x0f) + 1)
    else if op = 0xc9 then
      withNext iter fun op2 => .vfpPop (op2 >>> 4) ((op2 &&& 0x0f) + 1)
    else (.ok (some .unimplemented), iter)

theorem readUleb128_length {iter rest : List Byte} {offset value : BitVec 32} {shift : Nat}
    (h : readUleb128 iter offset shift = some (value, rest)) : rest.length < iter.length := by
  induction iter generalizing offset shift with
  | nil => cases h
  | cons byte iter ih =>
    simp only [readUleb128] at h
    split at h
    · simp only [Option.some.injEq, Prod.mk.injEq] at h
      obtain ⟨-, rfl⟩ := h
      simp
    · exact Nat.lt_succ_of_lt (ih h)

theorem withNext_length (iter : List Byte) (f : Byte → UnwindInstruction) :
    (withNext iter f).2.length ≤ iter.length := by
  cases iter with
  | nil => simp [withNext]
  | cons op2 iter => simp [withNext]

theorem length_ite {α β : Type} {c : Prop} [Decidable c] {n : Nat} {x y : α × List β} (hx : x.2.length ≤ n)
    (hy : y.2.length ≤ n) : (if c then x else y).2.length ≤ n := by
  split
  · exact hx
  · exact hy

theorem stepIter_length (op : Byte) (iter : List Byte) : (stepIter (op :: iter)).2.length ≤ iter.length := by
  have hnext : ∀ f, (withNext iter f).2.length ≤ iter.length := withNext_length iter
  have hread : (match readUleb128 iter 0 0 with
      | none => (Except.error errMsg, [])
      | some (offset, iter) => (.ok (some (.dataPop (offset * 4 + 0x204))), iter) :
        Except String (Option UnwindInstruction) × List Byte).2.length ≤ iter.length := by
    split
    · exact Nat.zero_le _
    · rename_i hread
      exact (readUleb128_length hread).le
  -- One step down for each branch of the chain.
  refine length_ite le_rfl (length_ite le_rfl (length_ite (hnext _) (length_ite (length_ite le_rfl le_rfl) ?_)))
  refine length_ite le_rfl (length_ite le_rfl (length_ite (hnext _) (length_ite hread ?_)))
  exact length_ite (hnext _) (length_ite (hnext _) le_rfl)

end UnwindInstruction

-- ---------------------------------------------------------------------------
-- Iterating over instructions
-- ---------------------------------------------------------------------------

namespace UnwindInstrIter

open UnwindInstruction

/-- The next instruction, and the bytes after it. -/
def next (iter : List Byte) : Option (UnwindInstruction × List Byte) :=
  match stepIter iter with
  | (.ok none, _) => none
  | (.ok (some instr), iter) => some (instr, iter)
  | (.error _, iter) => some (.error, iter)

theorem next_length {iter rest : List Byte} {instr : UnwindInstruction}
    (h : next iter = some (instr, rest)) : rest.length < iter.length := by
  cases iter with
  | nil => cases h
  | cons op iter =>
    have hlen := stepIter_length op iter
    unfold next at h
    split at h
    · cases h
    all_goals
      rename_i heq
      simp only [Option.some.injEq, Prod.mk.injEq] at h
      obtain ⟨-, rfl⟩ := h
      rw [heq] at hlen
      exact Nat.lt_succ_of_le hlen

/-- The byte that pads an entry. -/
theorem next_finish (rest : List Byte) : next (0xb0 :: rest) = some (.finish, rest) := rfl

end UnwindInstrIter

end Hopter.Unwind
