-- SUMMARY: Readers that move along a slice, and the numbers they read: little-endian words and LEB128.
import Mathlib.Algebra.Group.Nat.Defs
import Mathlib.Data.List.Range
import Mathlib.Tactic.Common

/-!
# Reading

A reader stands somewhere in a slice. `Reads` says that a computation reads an encoding of a value:
whatever comes behind the encoding, the value is the result, and the reader stands right behind it.
Since the rest is arbitrary, the statements compose. The encodings of numbers are relations where a
number has several.
-/

-- ---------------------------------------------------------------------------
-- Readers
-- ---------------------------------------------------------------------------

/-- Where a reader is: its position, and what it has not read. -/
structure Slice (β : Type) where
  pos : Nat
  unread : List β

section

variable {σ ε α γ ι β : Type} {slice : σ → Slice β} {p : StateT σ (Except ε) α}
  {q : α → StateT σ (Except ε) γ} {code code' : List β} {a : α} {c : γ}

/-- The computation reads the code of a value, whatever comes after it. -/
def Reads (slice : σ → Slice β) (p : StateT σ (Except ε) α) (code : List β) (a : α) : Prop :=
  ∀ s pos rest, slice s = ⟨pos, code ++ rest⟩ →
    ∃ s', p.run s = .ok (a, s') ∧ slice s' = ⟨pos + code.length, rest⟩

namespace Reads

theorem pure (a : α) : Reads slice (Pure.pure a : StateT σ (Except ε) α) [] a :=
  fun s _ _ hs => ⟨s, rfl, hs⟩

theorem bind (hp : Reads slice p code a) (hq : Reads slice (q a) code' c) :
    Reads slice (p >>= q) (code ++ code') c := by
  intro s pos rest hs
  rw [List.append_assoc] at hs
  obtain ⟨s₁, hrun₁, hs₁⟩ := hp s pos _ hs
  obtain ⟨s₂, hrun₂, hs₂⟩ := hq s₁ _ rest hs₁
  refine ⟨s₂, ?_, ?_⟩
  · rw [StateT.run_bind, hrun₁]
    exact hrun₂
  · rw [hs₂, List.length_append, Nat.add_assoc]

theorem map (f : α → γ) (hp : Reads slice p code a) : Reads slice (f <$> p) code (f a) := by
  intro s pos rest hs
  obtain ⟨s', hrun, hs'⟩ := hp s pos rest hs
  refine ⟨s', ?_, hs'⟩
  rw [StateT.run_map, hrun]
  rfl

/-- Reading one thing after the other. -/
theorem mapM {f : ι → StateT σ (Except ε) α} {code : ι → List β} {value : ι → α} {xs : List ι}
    (h : ∀ x ∈ xs, Reads slice (f x) (code x) (value x)) :
    Reads slice (xs.mapM f) (xs.flatMap code) (xs.map value) := by
  induction xs with
  | nil => exact pure []
  | cons x xs ih =>
    have hx := h x List.mem_cons_self
    have hxs := ih fun y hy => h y (List.mem_cons_of_mem x hy)
    rw [List.mapM_cons, List.flatMap_cons, List.map_cons]
    refine hx.bind ?_
    rw [← List.append_nil (xs.flatMap code)]
    exact hxs.bind (pure _)

end Reads

end

-- ---------------------------------------------------------------------------
-- Little-endian numbers
-- ---------------------------------------------------------------------------

/-- The `k` lowest bytes of a number, the lowest first. -/
def leBytes : Nat → Nat → List (BitVec 8)
  | 0, _ => []
  | k + 1, n => BitVec.ofNat 8 n :: leBytes k (n / 256)

/-- The number that the bytes are, the lowest first. -/
def leNat : List (BitVec 8) → Nat
  | [] => 0
  | b :: bs => b.toNat + 256 * leNat bs

@[simp] theorem length_leBytes (k n : Nat) : (leBytes k n).length = k := by
  induction k generalizing n with
  | zero => rfl
  | succ k ih => rw [leBytes, List.length_cons, ih]

theorem leNat_leBytes {k n : Nat} (h : n < 256 ^ k) : leNat (leBytes k n) = n := by
  induction k generalizing n with
  | zero => simp_all [leBytes, leNat]
  | succ k ih =>
    have hrest : n / 256 < 256 ^ k := Nat.div_lt_of_lt_mul (Nat.pow_succ' ▸ h)
    rw [leBytes, leNat, ih hrest, BitVec.toNat_ofNat]
    omega

theorem leNat_lt (bs : List (BitVec 8)) : leNat bs < 2 ^ (8 * bs.length) := by
  induction bs with
  | nil => exact Nat.one_pos
  | cons b bs ih =>
    have hb := b.isLt
    rw [leNat, List.length_cons, Nat.mul_succ, Nat.pow_add]
    omega

theorem leBytes_leNat (bs : List (BitVec 8)) : leBytes bs.length (leNat bs) = bs := by
  induction bs with
  | nil => rfl
  | cons b bs ih =>
    have hb := b.isLt
    have hrest : (b.toNat + 256 * leNat bs) / 256 = leNat bs := by omega
    have hlow : BitVec.ofNat 8 (b.toNat + 256 * leNat bs) = b := by
      apply BitVec.eq_of_toNat_eq
      rw [BitVec.toNat_ofNat]
      omega
    rw [List.length_cons, leNat, leBytes, hrest, hlow, ih]

-- ---------------------------------------------------------------------------
-- LEB128
-- ---------------------------------------------------------------------------

/-- Seven bits of the number in a byte, the lowest first. All bytes but the last have their highest
bit set. A number has one shortest code, and longer ones with zeros at the end. -/
inductive Uleb128 : List (BitVec 8) → Nat → Prop
  | last {b : BitVec 8} (hb : b.toNat < 128) : Uleb128 [b] b.toNat
  | more {b : BitVec 8} {bs : List (BitVec 8)} {n : Nat} (hb : 128 ≤ b.toNat) (hbs : Uleb128 bs n) :
      Uleb128 (b :: bs) (b.toNat - 128 + 128 * n)

/-- As `Uleb128`, where the last byte is a number of seven bits with a sign. -/
inductive Sleb128 : List (BitVec 8) → Int → Prop
  | nonneg {b : BitVec 8} (hb : b.toNat < 64) : Sleb128 [b] b.toNat
  | neg {b : BitVec 8} (hlo : 64 ≤ b.toNat) (hhi : b.toNat < 128) : Sleb128 [b] (b.toNat - 128)
  | more {b : BitVec 8} {bs : List (BitVec 8)} {z : Int} (hb : 128 ≤ b.toNat) (hbs : Sleb128 bs z) :
      Sleb128 (b :: bs) (b.toNat - 128 + 128 * z)

theorem Uleb128.length_pos {code : List (BitVec 8)} {n : Nat} (h : Uleb128 code n) : 0 < code.length := by
  cases h with
  | last => exact Nat.one_pos
  | more => exact Nat.succ_pos _

/-- Decode a number with at most `k` bytes. -/
def readUleb : Nat → List (BitVec 8) → Option (Nat × List (BitVec 8))
  | 0, _ => none
  | _ + 1, [] => none
  | k + 1, b :: bs =>
    if b.toNat < 128 then some (b.toNat, bs)
    else (readUleb k bs).map fun (n, rest) => (b.toNat - 128 + 128 * n, rest)

/-- Decode a number with a sign with at most `k` bytes. -/
def readSleb : Nat → List (BitVec 8) → Option (Int × List (BitVec 8))
  | 0, _ => none
  | _ + 1, [] => none
  | k + 1, b :: bs =>
    if b.toNat < 64 then some (b.toNat, bs)
    else if b.toNat < 128 then some (b.toNat - 128, bs)
    else (readSleb k bs).map fun (z, rest) => (b.toNat - 128 + 128 * z, rest)

theorem readUleb_of_uleb128 {code rest : List (BitVec 8)} {n k : Nat} (h : Uleb128 code n)
    (hk : code.length ≤ k) : readUleb k (code ++ rest) = some (n, rest) := by
  induction h generalizing k with
  | last hb =>
    obtain ⟨k, rfl⟩ := Nat.exists_eq_succ_of_ne_zero (Nat.ne_of_gt hk)
    simp [readUleb, hb]
  | more hb _ ih =>
    obtain ⟨k, rfl⟩ := Nat.exists_eq_succ_of_ne_zero (Nat.ne_of_gt (Nat.lt_of_lt_of_le (Nat.succ_pos _) hk))
    have hk : _ ≤ k := Nat.le_of_succ_le_succ hk
    simp [readUleb, Nat.not_lt.mpr hb, ih hk]

theorem readSleb_of_sleb128 {code rest : List (BitVec 8)} {z : Int} {k : Nat} (h : Sleb128 code z)
    (hk : code.length ≤ k) : readSleb k (code ++ rest) = some (z, rest) := by
  induction h generalizing k with
  | nonneg hb =>
    obtain ⟨k, rfl⟩ := Nat.exists_eq_succ_of_ne_zero (Nat.ne_of_gt hk)
    simp [readSleb, hb]
  | neg hlo hhi =>
    obtain ⟨k, rfl⟩ := Nat.exists_eq_succ_of_ne_zero (Nat.ne_of_gt hk)
    simp [readSleb, Nat.not_lt.mpr hlo, hhi]
  | more hb _ ih =>
    obtain ⟨k, rfl⟩ := Nat.exists_eq_succ_of_ne_zero (Nat.ne_of_gt (Nat.lt_of_lt_of_le (Nat.succ_pos _) hk))
    have hk : _ ≤ k := Nat.le_of_succ_le_succ hk
    have hlo : ¬ _ < 64 := Nat.not_lt.mpr (Nat.le_trans (by decide) hb)
    simp [readSleb, hlo, Nat.not_lt.mpr hb, ih hk]
