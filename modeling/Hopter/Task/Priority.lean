-- SUMMARY: Task priorities with inheritance.
import Mathlib.Tactic.Common

/-!
# Priorities

`src/task/priority.rs` and the operations of `src/task/task_struct.rs` on the field
`priority`. Smaller numbers are higher priorities.
-/

namespace Hopter.Task

inductive TaskPriority where
  | intrinsic (prio : Nat)
  | inherited (inherited intrinsic : Nat)
  deriving DecidableEq

namespace TaskPriority

def effectivePriority : TaskPriority → Nat
  | intrinsic prio => prio
  | inherited prio _ => prio

def intrinsicPriority : TaskPriority → Nat
  | intrinsic prio => prio
  | inherited _ prio => prio

/-- `partial_cmp`: priorities are ordered by the effective priority. -/
def partialCmp (this other : TaskPriority) : Ordering :=
  compare this.effectivePriority other.effectivePriority

instance : LT TaskPriority := ⟨fun this other => this.partialCmp other = .lt⟩

instance (this other : TaskPriority) : Decidable (this < other) :=
  inferInstanceAs (Decidable (this.partialCmp other = .lt))

/-- `try_inherit_from`. -/
def tryInheritFrom (this other : TaskPriority) : Option TaskPriority :=
  if this.effectivePriority ≤ other.effectivePriority then none
  else some (inherited other.effectivePriority this.intrinsicPriority)

/-- `ceil_priority_from`. -/
def ceilPriorityFrom (this other : TaskPriority) : TaskPriority :=
  (tryInheritFrom this other).getD this

/-- `restore_intrinsic`. -/
def restoreIntrinsic (this : TaskPriority) : TaskPriority := intrinsic this.intrinsicPriority

/-- `change_intrinsic`. -/
def changeIntrinsic (this : TaskPriority) (prio : Nat) : TaskPriority :=
  match this with
  | intrinsic _ => intrinsic prio
  | inherited p _ => if p < prio then inherited p prio else intrinsic prio

variable (this other : TaskPriority) (prio : Nat)

theorem lt_iff {this other : TaskPriority} :
    this < other ↔ this.effectivePriority < other.effectivePriority :=
  Nat.compare_eq_lt

@[simp] theorem intrinsicPriority_ceilPriorityFrom :
    (this.ceilPriorityFrom other).intrinsicPriority = this.intrinsicPriority := by
  unfold ceilPriorityFrom tryInheritFrom
  split <;> rfl

@[simp] theorem intrinsicPriority_restoreIntrinsic :
    this.restoreIntrinsic.intrinsicPriority = this.intrinsicPriority := rfl

@[simp] theorem intrinsicPriority_changeIntrinsic :
    (this.changeIntrinsic prio).intrinsicPriority = prio := by
  cases this with
  | intrinsic _ => rfl
  | inherited p _ =>
    unfold changeIntrinsic
    dsimp only
    split <;> rfl

/-- Inheritance is a minimum. -/
@[simp] theorem effectivePriority_ceilPriorityFrom :
    (this.ceilPriorityFrom other).effectivePriority =
      min this.effectivePriority other.effectivePriority := by
  unfold ceilPriorityFrom tryInheritFrom
  split
  · rename_i h
    exact (Nat.min_eq_left h).symm
  · rename_i h
    exact (Nat.min_eq_right (Nat.le_of_not_le h)).symm

end TaskPriority

end Hopter.Task
