-- SUMMARY: Tick numbers and their comparison across the wrap of the tick counter.
import Mathlib.Algebra.Group.Int.Defs
import Mathlib.Algebra.Group.Nat.Defs
import Mathlib.Tactic.Common

/-!
# Ticks

The tick counter has 32 bits and wraps. Two tick numbers are compared by the sign of
their difference (`tick_cmp` in `src/time/mod.rs`), which is the comparison of the two
absolute times as long as these are less than `2 ^ 31` ticks apart.
-/

namespace Hopter.Time

/-- A value of the tick counter. -/
abbrev Tick := BitVec 32

/-- The low bits of an absolute time. -/
def Tick.of (time : Nat) : Tick := BitVec.ofNat 32 time

/-- `tick_cmp`. -/
def tickCmp (lhs rhs : Tick) : Ordering := compare (lhs - rhs).toInt 0

/-- The signed difference of two times that are not too far apart. -/
theorem toInt_of_sub_of {a b : Nat} (hab : a < b + 2 ^ 31) (hba : b ≤ a + 2 ^ 31) :
    (Tick.of a - Tick.of b).toInt = (a : Int) - b := by
  rw [Tick.of, Tick.of, BitVec.toInt_sub, BitVec.toInt_ofNat', BitVec.toInt_ofNat', Int.bmod_sub_bmod,
    Int.sub_bmod_bmod]
  apply Int.bmod_eq_of_le <;> omega

theorem tickCmp_of {a b : Nat} (hab : a < b + 2 ^ 31) (hba : b ≤ a + 2 ^ 31) :
    tickCmp (Tick.of a) (Tick.of b) = compare a b := by
  rw [tickCmp, toInt_of_sub_of hab hba]
  rcases Nat.lt_trichotomy a b with h | h | h
  · rw [Nat.compare_eq_lt.mpr h, Int.compare_eq_lt]
    omega
  · rw [Nat.compare_eq_eq.mpr h, Int.compare_eq_eq]
    omega
  · rw [Nat.compare_eq_gt.mpr h, Int.compare_eq_gt]
    omega

/-- A time that is `2 ^ 31` or more ticks later counts as an earlier one. -/
theorem tickCmp_of_far {a b : Nat} (hfar : b + 2 ^ 31 ≤ a) (hab : a < b + 2 ^ 32) :
    tickCmp (Tick.of a) (Tick.of b) = .lt := by
  have hwrap : Tick.of b = Tick.of (b + 2 ^ 32) := by
    apply BitVec.eq_of_toNat_eq
    simp [Tick.of]
  rw [hwrap, tickCmp_of (by omega) (by omega), Nat.compare_eq_lt]
  exact hab

end Hopter.Time
