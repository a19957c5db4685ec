-- SUMMARY: Task states, and the operations on intrusive lists of tasks.
import Hopter.Base.FirstMin
import Hopter.Time.Tick
import Mathlib.Data.List.Perm.Basic
import Mathlib.Data.List.Nodup
import Mathlib.Data.Nat.Basic
import Mathlib.Tactic.Common

/-!
# Task lists

`src/task/task_list.rs`. A list of tasks is an intrusive linked list, and here a list.
Priorities are numbers, and a smaller number is a higher priority. The priority and the
wake-up tick of a task are read when the list is scanned.
-/

namespace Hopter.Task

open Time

inductive TaskState where
  | initializing
  | blocked
  | ready
  | running
  | destructing
  deriving DecidableEq

variable {τ : Type}

-- ---------------------------------------------------------------------------
-- Removal of a given task
-- ---------------------------------------------------------------------------

/-- `remove_task`: the list without the task, or `none` when the task is not in the list. -/
def removeTask [DecidableEq τ] (task : τ) : List τ → Option (List τ)
  | [] => none
  | t :: ts => if t = task then some ts else (removeTask task ts).map (t :: ·)

theorem removeTask_eq [DecidableEq τ] (task : τ) (l : List τ) :
    removeTask task l = if task ∈ l then some (l.erase task) else none := by
  induction l with
  | nil => rfl
  | cons t ts ih =>
    by_cases ht : t = task
    · subst ht
      simp [removeTask]
    · have ht' : ¬ task = t := fun h => ht h.symm
      rw [removeTask, if_neg ht, ih]
      by_cases hmem : task ∈ ts
      · simp [hmem, ht]
      · simp [hmem, ht']

-- ---------------------------------------------------------------------------
-- Insertion by wake-up tick
-- ---------------------------------------------------------------------------

/-- `push_back_tick_sorted`: the new task goes in front of the first task that wakes up
later. -/
def pushBackTickSorted (wakeTick : τ → Tick) (newTask : τ) : List τ → List τ
  | [] => [newTask]
  | t :: ts =>
    if tickCmp (wakeTick newTask) (wakeTick t) = .lt then newTask :: t :: ts
    else t :: pushBackTickSorted wakeTick newTask ts

theorem pushBackTickSorted_perm (wakeTick : τ → Tick) (newTask : τ) (l : List τ) :
    (pushBackTickSorted wakeTick newTask l).Perm (newTask :: l) := by
  induction l with
  | nil => exact List.Perm.refl _
  | cons t ts ih =>
    unfold pushBackTickSorted
    split
    · exact List.Perm.refl _
    · exact (ih.cons t).trans (List.Perm.swap newTask t ts)

/-- The list stays in an order that agrees with the comparison of the ticks. -/
theorem pushBackTickSorted_pairwise {R : τ → τ → Prop} (htrans : ∀ {a b c}, R a b → R b c → R a c)
    {wakeTick : τ → Tick} {newTask : τ} {l : List τ} (hl : l.Pairwise R)
    (hlt : ∀ t ∈ l, tickCmp (wakeTick newTask) (wakeTick t) = .lt → R newTask t)
    (hge : ∀ t ∈ l, tickCmp (wakeTick newTask) (wakeTick t) ≠ .lt → R t newTask) :
    (pushBackTickSorted wakeTick newTask l).Pairwise R := by
  induction l with
  | nil => exact List.pairwise_singleton R newTask
  | cons t ts ih =>
    rw [List.pairwise_cons] at hl
    rw [List.forall_mem_cons] at hlt hge
    unfold pushBackTickSorted
    split
    · rename_i hcmp
      refine List.pairwise_cons.mpr ⟨fun u hu => ?_, List.pairwise_cons.mpr hl⟩
      rcases List.mem_cons.mp hu with rfl | hu
      · exact hlt.1 hcmp
      · exact htrans (hlt.1 hcmp) (hl.1 u hu)
    · rename_i hcmp
      refine List.pairwise_cons.mpr ⟨fun u hu => ?_, ih hl.2 hlt.2 hge.2⟩
      rcases List.mem_cons.mp ((pushBackTickSorted_perm wakeTick newTask ts).mem_iff.mp hu) with rfl | hu
      · exact hge.1 hcmp
      · exact hl.1 u hu

-- ---------------------------------------------------------------------------
-- Removal by priority
-- ---------------------------------------------------------------------------

/-- The scan of `pop_highest_priority`, from the position `curPos` on: the position of the
first task whose priority is higher than all before it. -/
def scanHighest (priority : τ → Nat) : List τ → Nat → Nat → Nat → Nat
  | [], _, maxPos, _ => maxPos
  | t :: ts, curPos, maxPos, maxPrio =>
    if priority t < maxPrio then scanHighest priority ts (curPos + 1) curPos (priority t)
    else scanHighest priority ts (curPos + 1) maxPos maxPrio

/-- `pop_highest_priority`: the task, and the list without it. -/
def popHighestPriority (priority : τ → Nat) : List τ → Option (τ × List τ)
  | [] => none
  | t :: ts =>
    let maxPos := scanHighest priority ts 1 0 (priority t)
    (t :: ts)[maxPos]?.map fun u => (u, (t :: ts).eraseIdx maxPos)

/-- The result of the scan is a position that was scanned. Nothing that was scanned has a higher
priority, and nothing before the position has the same one. -/
theorem scanHighest_spec (priority : τ → Nat) {l pre ts : List τ} {maxPos : Nat} {u : τ}
    (hl : l = pre ++ ts) (hu : l[maxPos]? = some u) (hpre : ∀ v ∈ pre, priority u ≤ priority v)
    (hbefore : ∀ i < maxPos, ∀ v, l[i]? = some v → priority u < priority v) :
    ∃ w, l[scanHighest priority ts pre.length maxPos (priority u)]? = some w ∧
      (∀ i < scanHighest priority ts pre.length maxPos (priority u), ∀ v, l[i]? = some v →
        priority w < priority v) ∧ ∀ v ∈ l, priority w ≤ priority v := by
  induction ts generalizing pre maxPos u with
  | nil =>
    rw [List.append_nil] at hl
    subst hl
    exact ⟨u, hu, hbefore, hpre⟩
  | cons t ts ih =>
    have hl' : l = (pre ++ [t]) ++ ts := by simp [hl]
    have hlen : (pre ++ [t]).length = pre.length + 1 := by simp
    unfold scanHighest
    split
    · rename_i hlt
      have ht : l[pre.length]? = some t := by simp [hl]
      rw [← hlen]
      refine ih hl' ht (fun v hv => ?_) fun i hi v hv => ?_
      · rcases List.mem_append.mp hv with hv | hv
        · exact Nat.le_of_lt (Nat.lt_of_lt_of_le hlt (hpre v hv))
        · simp_all
      · rw [hl, List.getElem?_append_left hi] at hv
        exact Nat.lt_of_lt_of_le hlt (hpre v (List.mem_of_getElem? hv))
    · rename_i hge
      rw [← hlen]
      refine ih hl' hu (fun v hv => ?_) hbefore
      rcases List.mem_append.mp hv with hv | hv
      · exact hpre v hv
      · simp_all

/-- `pop_highest_priority` takes the first task of the highest priority out of a list that is
not empty. -/
theorem popHighestPriority_firstMin (priority : τ → Nat) {l : List τ} (hl : l ≠ []) :
    ∃ t rest, popHighestPriority priority l = some (t, rest) ∧ FirstMin priority l t rest := by
  cases l with
  | nil => exact absurd rfl hl
  | cons t ts =>
    obtain ⟨w, hw, hbefore, hmin⟩ := scanHighest_spec priority (show t :: ts = [t] ++ ts from rfl)
      (show (t :: ts)[0]? = some t from rfl) (by simp) (fun i hi => absurd hi (Nat.not_lt_zero i))
    refine ⟨w, (t :: ts).eraseIdx (scanHighest priority ts 1 0 (priority t)), ?_,
      FirstMin.of_getElem? hw hbefore hmin⟩
    rw [List.length_singleton] at hw
    simp only [popHighestPriority, hw, Option.map_some]

/-- `pop_highest_priority` takes one task out of a list that is not empty, and no other
task of the list has a higher priority. -/
theorem popHighestPriority_spec (priority : τ → Nat) {l : List τ} (hl : l ≠ []) :
    ∃ t rest, popHighestPriority priority l = some (t, rest) ∧ l.Perm (t :: rest) ∧
      ∀ u ∈ l, priority t ≤ priority u := by
  obtain ⟨t, rest, hpop, hfirst⟩ := popHighestPriority_firstMin priority hl
  exact ⟨t, rest, hpop, hfirst.perm, hfirst.le⟩

@[simp] theorem popHighestPriority_nil (priority : τ → Nat) :
    popHighestPriority priority ([] : List τ) = none := rfl

/-- Everything that `pop_highest_priority` can return. -/
theorem popHighestPriority_cases (priority : τ → Nat) (l : List τ) :
    (l = [] ∧ popHighestPriority priority l = none) ∨
      ∃ t rest, popHighestPriority priority l = some (t, rest) ∧ l.Perm (t :: rest) := by
  by_cases hl : l = []
  · subst hl
    exact Or.inl ⟨rfl, rfl⟩
  · obtain ⟨t, rest, hpop, hperm, -⟩ := popHighestPriority_spec priority hl
    exact Or.inr ⟨t, rest, hpop, hperm⟩

end Hopter.Task
