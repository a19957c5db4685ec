-- SUMMARY: The comparison of ticks relative to the current one, and when the simplified comparison agrees with it.
import Hopter.Task.TaskList

/-!
# Relative ticks

The documentation of `tick_cmp` views the current tick as the origin, and a tick as its signed
offset from there. The comparison of two offsets is simplified to the sign of the difference of the
ticks, as the current tick cancels out. The difference wraps when the two offsets are far apart.
-/

namespace Hopter.Time

open Hopter.Task

-- ---------------------------------------------------------------------------
-- Comparison
-- ---------------------------------------------------------------------------

/-- The relative tick. -/
def offset (curTick tick : Tick) : Int := (tick - curTick).toInt

/-- `tick_cmp` of the documentation, with `cur_tick`. -/
def tickCmpFrom (curTick lhs rhs : Tick) : Ordering := compare (offset curTick lhs) (offset curTick rhs)

theorem offset_bounds (curTick tick : Tick) : -2 ^ 31 ≤ offset curTick tick ∧ offset curTick tick < 2 ^ 31 :=
  ⟨BitVec.le_toInt (tick - curTick), BitVec.toInt_lt (x := tick - curTick)⟩

/-- The current tick cancels out, up to the wrap. -/
theorem toInt_sub_eq (curTick lhs rhs : Tick) :
    (lhs - rhs).toInt = (offset curTick lhs - offset curTick rhs).bmod (2 ^ 32) := by
  have hcancel : lhs - rhs = (lhs - curTick) - (rhs - curTick) := by
    bv_omega
  rw [hcancel, BitVec.toInt_sub]
  rfl

theorem tickCmp_eq_lt (curTick lhs rhs : Tick) :
    tickCmp lhs rhs = .lt ↔
      offset curTick lhs < offset curTick rhs ∧ offset curTick rhs ≤ offset curTick lhs + 2 ^ 31 ∨
        offset curTick rhs + 2 ^ 31 ≤ offset curTick lhs := by
  have hlhs := offset_bounds curTick lhs
  have hrhs := offset_bounds curTick rhs
  rw [tickCmp, Int.compare_eq_lt, toInt_sub_eq curTick, Int.bmod_def]
  omega

/-- The simplified comparison is right when the offsets are less than `2 ^ 31` ticks apart, or
exactly so far with the left one first. -/
theorem tickCmp_eq_iff (curTick lhs rhs : Tick) :
    tickCmp lhs rhs = tickCmpFrom curTick lhs rhs ↔
      -2 ^ 31 ≤ offset curTick lhs - offset curTick rhs ∧ offset curTick lhs - offset curTick rhs < 2 ^ 31 := by
  have hlhs := offset_bounds curTick lhs
  have hrhs := offset_bounds curTick rhs
  rw [tickCmp, tickCmpFrom, toInt_sub_eq curTick, Int.bmod_def]
  rcases Int.lt_trichotomy (offset curTick lhs) (offset curTick rhs) with h | h | h
  · rw [Int.compare_eq_lt.mpr h, Int.compare_eq_lt]
    omega
  · rw [Int.compare_eq_eq.mpr h, Int.compare_eq_eq]
    omega
  · rw [Int.compare_eq_gt.mpr h, Int.compare_eq_gt]
    omega

-- ---------------------------------------------------------------------------
-- Insertion
-- ---------------------------------------------------------------------------

/-- The list is sorted by the relative ticks. -/
def TickSorted {τ : Type} (curTick : Tick) (wakeTick : τ → Tick) (l : List τ) : Prop :=
  l.Pairwise fun t u => offset curTick (wakeTick t) ≤ offset curTick (wakeTick u)

section Insertion

variable {τ : Type} {curTick : Tick} {wakeTick : τ → Tick} {newTask : τ} {l : List τ}

/-- No task of the list is `2 ^ 31` or more ticks before the new one, and the first task after the new
one, if there is one, is at most `2 ^ 31` ticks after it. -/
structure Close (curTick : Tick) (wakeTick : τ → Tick) (newTask : τ) (l : List τ) : Prop where
  before : ∀ t ∈ l, offset curTick (wakeTick newTask) - offset curTick (wakeTick t) < 2 ^ 31
  after : (∀ t ∈ l, offset curTick (wakeTick t) ≤ offset curTick (wakeTick newTask)) ∨
    ∃ t ∈ l, offset curTick (wakeTick newTask) < offset curTick (wakeTick t) ∧
      offset curTick (wakeTick t) ≤ offset curTick (wakeTick newTask) + 2 ^ 31

/-- Insertion keeps a sorted list sorted when the ticks are close, and only then. -/
theorem pushBackTickSorted_sorted_iff (hl : TickSorted curTick wakeTick l) :
    TickSorted curTick wakeTick (pushBackTickSorted wakeTick newTask l) ↔ Close curTick wakeTick newTask l := by
  induction l with
  | nil => exact ⟨fun _ => ⟨by simp, Or.inl (by simp)⟩, fun _ => List.pairwise_singleton ..⟩
  | cons t ts ih =>
    obtain ⟨hfirst, hts⟩ := List.pairwise_cons.mp hl
    have hcmp := tickCmp_eq_lt curTick (wakeTick newTask) (wakeTick t)
    unfold pushBackTickSorted
    split
    · -- The new task goes in front of the list.
      rename_i hlt
      rw [hcmp] at hlt
      constructor
      · intro hsorted
        have hle := (List.pairwise_cons.mp hsorted).1
        have hlet := hle t (List.mem_cons_self ..)
        refine ⟨fun u hu => ?_, Or.inr ⟨t, List.mem_cons_self .., by omega, by omega⟩⟩
        have := hle u hu
        omega
      · intro hclose
        have hbefore := hclose.before t (List.mem_cons_self ..)
        refine List.pairwise_cons.mpr ⟨fun u hu => ?_, hl⟩
        rcases List.mem_cons.mp hu with rfl | hu
        · omega
        · have := hfirst u hu
          omega
    · rename_i hge
      rw [hcmp] at hge
      constructor
      · intro hsorted
        obtain ⟨hle, hrest⟩ := List.pairwise_cons.mp hsorted
        have hlet := hle newTask ((pushBackTickSorted_perm wakeTick newTask ts).mem_iff.mpr (List.mem_cons_self ..))
        obtain ⟨hbefore, hafter⟩ := (ih hts).mp hrest
        refine ⟨List.forall_mem_cons.mpr ⟨by omega, hbefore⟩, ?_⟩
        rcases hafter with hall | ⟨u, hu, hlt⟩
        · exact Or.inl (List.forall_mem_cons.mpr ⟨hlet, hall⟩)
        · exact Or.inr ⟨u, List.mem_cons_of_mem _ hu, hlt⟩
      · rintro ⟨hbefore, hafter⟩
        rw [List.forall_mem_cons] at hbefore
        -- The first task of the list is not after the new one.
        have hlet : offset curTick (wakeTick t) ≤ offset curTick (wakeTick newTask) := by
          rcases hafter with hall | ⟨u, hu, hlt⟩
          · exact hall t (List.mem_cons_self ..)
          · rcases List.mem_cons.mp hu with rfl | hu
            · omega
            · have := hfirst u hu
              omega
        refine List.pairwise_cons.mpr ⟨fun u hu => ?_, (ih hts).mpr ⟨hbefore.2, ?_⟩⟩
        · rcases List.mem_cons.mp ((pushBackTickSorted_perm wakeTick newTask ts).mem_iff.mp hu) with rfl | hu
          · exact hlet
          · exact hfirst u hu
        · rcases hafter with hall | ⟨u, hu, hlt⟩
          · exact Or.inl (List.forall_mem_cons.mp hall).2
          · rcases List.mem_cons.mp hu with rfl | hu
            · omega
            · exact Or.inr ⟨u, hu, hlt⟩

end Insertion

-- ---------------------------------------------------------------------------
-- The simplification
-- ---------------------------------------------------------------------------

/-- The simplified comparison is that of the relative ticks as long as these are close, and so is the
order of the sleep queue. -/
theorem tickCmp_relative (curTick : Tick) :
    (∀ lhs rhs, tickCmp lhs rhs = tickCmpFrom curTick lhs rhs ↔
      -2 ^ 31 ≤ offset curTick lhs - offset curTick rhs ∧ offset curTick lhs - offset curTick rhs < 2 ^ 31) ∧
    ∀ {τ : Type} (wakeTick : τ → Tick) (newTask : τ) (l : List τ), TickSorted curTick wakeTick l →
      (TickSorted curTick wakeTick (pushBackTickSorted wakeTick newTask l) ↔ Close curTick wakeTick newTask l) :=
  ⟨tickCmp_eq_iff curTick, fun _ _ _ hl => pushBackTickSorted_sorted_iff hl⟩

/-- A sleep of 7 ticks goes behind one of 5. -/
theorem tickCmp_relative_short : TickSorted 100 id (pushBackTickSorted id 107 [105]) :=
  ((tickCmp_relative 100).2 id 107 [105] (List.pairwise_singleton ..)).mpr
    ⟨List.forall_mem_singleton.mpr (by decide), Or.inl (List.forall_mem_singleton.mpr (by decide))⟩

/-- A task that is late by one tick, and a sleep of `2 ^ 31 - 1` ticks: the comparison is wrong, and
the new task goes in front of the late one. -/
theorem tickCmp_late : tickCmp (0x7fffffff : Tick) 0xffffffff = .lt ∧
    tickCmpFrom 0 (0x7fffffff : Tick) 0xffffffff = .gt ∧ TickSorted 0 id [(0xffffffff : Tick)] ∧
    ¬ TickSorted 0 id (pushBackTickSorted id (0x7fffffff : Tick) [0xffffffff]) := by
  have hpush : pushBackTickSorted id (0x7fffffff : Tick) [0xffffffff] = [0x7fffffff, 0xffffffff] := by decide
  refine ⟨by decide, by decide, List.pairwise_singleton .., fun hsorted => ?_⟩
  rw [hpush, TickSorted, List.pairwise_pair] at hsorted
  exact absurd hsorted (by decide)

end Hopter.Time
