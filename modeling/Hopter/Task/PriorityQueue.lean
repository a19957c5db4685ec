-- SUMMARY: Removal by priority with cursors: the first task of the highest priority, and first-in first-out among equals.
import Hopter.Task.Priority
import Hopter.Task.TaskList
import Mathlib.Logic.Function.Iterate

/-!
# Lists of tasks as priority queues

`pop_highest_priority` in `src/task/task_list.rs` scans the list with one cursor and walks to
the position that it has found with another one. It takes out the first of the tasks with the
highest priority, and so tasks that have the same priority whenever one is taken out come out
in the order in which they were pushed.
-/

namespace Hopter.Task

variable {τ : Type}

-- ---------------------------------------------------------------------------
-- Cursors
-- ---------------------------------------------------------------------------

/-- A cursor in a linked list: the tasks before it, and the tasks from it on. When there are none
of these, the cursor is on the null object behind the last task. -/
structure CursorMut (τ : Type) where
  before : List τ
  after : List τ

namespace CursorMut

/-- `front_mut`. -/
def frontMut (l : List τ) : CursorMut τ := ⟨[], l⟩

/-- `move_next`. From the null object it goes to the front of the list. -/
def moveNext : CursorMut τ → CursorMut τ
  | ⟨before, t :: after⟩ => ⟨before ++ [t], after⟩
  | ⟨before, []⟩ => ⟨[], before⟩

/-- `remove`: the task of the cursor, and the list without it. -/
def remove : CursorMut τ → Option (τ × List τ)
  | ⟨before, t :: after⟩ => some (t, before ++ after)
  | ⟨_, []⟩ => none

theorem moveNext_iterate {l : List τ} {n : Nat} (h : n ≤ l.length) :
    moveNext^[n] (frontMut l) = ⟨l.take n, l.drop n⟩ := by
  induction n with
  | zero => simp [frontMut]
  | succ n ih =>
    rw [Function.iterate_succ_apply', ih (Nat.le_of_succ_le h), List.drop_eq_getElem_cons h, moveNext,
      List.take_append_getElem h]

/-- To walk to a position and remove the task there is to remove the task by its position. -/
theorem remove_moveNext {l : List τ} {n : Nat} (h : n ≤ l.length) :
    (moveNext^[n] (frontMut l)).remove = l[n]?.map fun t => (t, l.eraseIdx n) := by
  rw [moveNext_iterate h]
  rcases Nat.lt_or_eq_of_le h with hlt | heq
  · rw [List.drop_eq_getElem_cons hlt, remove, List.getElem?_eq_getElem hlt, Option.map_some,
      List.eraseIdx_eq_take_drop_succ]
  · simp [heq, remove]

end CursorMut

-- ---------------------------------------------------------------------------
-- Removal by priority
-- ---------------------------------------------------------------------------

namespace LinkedList

/-- The loop of `pop_highest_priority` over the tasks from the cursor on. -/
def scan (priority : τ → TaskPriority) : List τ → Nat → Nat → TaskPriority → Nat
  | [], _, maxPos, _ => maxPos
  | task :: after, curPos, maxPos, maxPrio =>
    let curPrio := priority task
    if curPrio < maxPrio then scan priority after (curPos + 1) curPos curPrio
    else scan priority after (curPos + 1) maxPos maxPrio

/-- `pop_highest_priority`: the task, and the list without it. -/
def popHighestPriority (priority : τ → TaskPriority) (l : List τ) : Option (τ × List τ) :=
  match l with
  | [] => none
  | task :: after =>
    let maxPos := scan priority after 1 0 (priority task)
    (CursorMut.moveNext^[maxPos] (.frontMut l)).remove

variable (priority : τ → TaskPriority)

theorem scan_eq (l : List τ) (curPos maxPos : Nat) (maxPrio : TaskPriority) :
    scan priority l curPos maxPos maxPrio =
      scanHighest (fun t => (priority t).effectivePriority) l curPos maxPos maxPrio.effectivePriority := by
  induction l generalizing curPos maxPos maxPrio with
  | nil => rfl
  | cons t ts ih =>
    simp only [scan, scanHighest, TaskPriority.lt_iff, ih]

/-- The cursors do what the operation on lists does that the other models are built on. -/
theorem popHighestPriority_eq (l : List τ) :
    popHighestPriority priority l = Task.popHighestPriority (fun t => (priority t).effectivePriority) l := by
  cases l with
  | nil => rfl
  | cons t ts =>
    simp only [popHighestPriority, Task.popHighestPriority, scan_eq]
    -- The scan stops at a position of the list.
    obtain ⟨w, hw, -, -⟩ := scanHighest_spec (fun t => (priority t).effectivePriority)
      (show t :: ts = [t] ++ ts from rfl) (show (t :: ts)[0]? = some t from rfl) (by simp)
      (fun i hi => absurd hi (Nat.not_lt_zero i))
    exact CursorMut.remove_moveNext (Nat.le_of_lt (List.getElem?_eq_some_iff.mp hw).1)

theorem popHighestPriority_cases (l : List τ) :
    (l = [] ∧ popHighestPriority priority l = none) ∨
      ∃ t rest, popHighestPriority priority l = some (t, rest) ∧
        FirstMin (fun u => (priority u).effectivePriority) l t rest := by
  rw [popHighestPriority_eq]
  by_cases hl : l = []
  · subst hl
    exact Or.inl ⟨rfl, rfl⟩
  · exact Or.inr (popHighestPriority_firstMin _ hl)

end LinkedList

-- ---------------------------------------------------------------------------
-- First in, first out
-- ---------------------------------------------------------------------------

/-- The operations on a list that is used as a priority queue, with the priorities that the tasks
have when one is taken out. -/
inductive QueueOp (τ : Type) where
  | pushBack (task : τ)
  | popHighestPriority (priority : τ → TaskPriority)

/-- A list, and the tasks that have been taken out of it. -/
structure Queue (τ : Type) where
  list : List τ
  popped : List τ

namespace Queue

def step (q : Queue τ) : QueueOp τ → Queue τ
  | .pushBack task => { q with list := q.list ++ [task] }
  | .popHighestPriority priority =>
    match LinkedList.popHighestPriority priority q.list with
    | none => q
    | some (task, rest) => ⟨rest, q.popped ++ [task]⟩

def run (ops : List (QueueOp τ)) (l : List τ) : Queue τ := ops.foldl step ⟨l, []⟩

/-- The tasks that the operations push. -/
def pushed (ops : List (QueueOp τ)) : List τ :=
  ops.filterMap fun op =>
    match op with
    | .pushBack task => some task
    | .popHighestPriority _ => none

/-- The tasks of a class have the same effective priority whenever one is taken out. -/
def Equal (p : τ → Bool) : QueueOp τ → Prop
  | .pushBack _ => True
  | .popHighestPriority priority => ∀ t u, p t = true → p u = true →
      (priority t).effectivePriority = (priority u).effectivePriority

theorem step_filter {p : τ → Bool} {op : QueueOp τ} (h : Equal p op) (q : Queue τ) :
    (q.step op).popped.filter p ++ (q.step op).list.filter p =
      q.popped.filter p ++ (q.list.filter p ++ (pushed [op]).filter p) := by
  cases op with
  | pushBack task => simp [step, pushed]
  | popHighestPriority priority =>
    have hpushed : pushed [QueueOp.popHighestPriority priority] = [] := rfl
    rw [hpushed, List.filter_nil, List.append_nil, step]
    rcases LinkedList.popHighestPriority_cases priority q.list with ⟨-, hnone⟩ | ⟨t, rest, hpop, hfirst⟩
    · rw [hnone]
    · rw [hpop, hfirst.filter h]
      by_cases ht : p t = true <;> simp [ht]

/-- The tasks of such a class leave the list in the order in which they have come. -/
theorem foldl_filter {p : τ → Bool} {ops : List (QueueOp τ)} (h : ∀ op ∈ ops, Equal p op) (q : Queue τ) :
    (ops.foldl step q).popped.filter p ++ (ops.foldl step q).list.filter p =
      q.popped.filter p ++ (q.list.filter p ++ (pushed ops).filter p) := by
  induction ops generalizing q with
  | nil => simp [pushed]
  | cons op ops ih =>
    obtain ⟨hop, hops⟩ := List.forall_mem_cons.mp h
    have hpushed : pushed (op :: ops) = pushed [op] ++ pushed ops := by
      rw [pushed, ← List.singleton_append, List.filterMap_append]
      rfl
    rw [List.foldl_cons, ih hops, ← List.append_assoc, step_filter hop, hpushed, List.filter_append]
    simp only [List.append_assoc]

/-- `pop_highest_priority` takes nothing out of the empty list only. From another list it takes the
first of the tasks with the smallest effective priority and keeps the others in their order.
Tasks of equal priority are first in, first out, whatever else happens with the list. -/
theorem popHighestPriority_stable (l : List τ) :
    (∀ priority : τ → TaskPriority, LinkedList.popHighestPriority priority l = none ↔ l = []) ∧
    (∀ (priority : τ → TaskPriority) t rest, LinkedList.popHighestPriority priority l = some (t, rest) →
      ∃ pre post, l = pre ++ t :: post ∧ rest = pre ++ post ∧
        (∀ u ∈ pre, (priority t).effectivePriority < (priority u).effectivePriority) ∧
        ∀ u ∈ post, (priority t).effectivePriority ≤ (priority u).effectivePriority) ∧
    ∀ (p : τ → Bool) (ops : List (QueueOp τ)), (∀ op ∈ ops, Equal p op) →
      (run ops l).popped.filter p ++ (run ops l).list.filter p = l.filter p ++ (pushed ops).filter p := by
  refine ⟨fun priority => ?_, fun priority t rest hpop => ?_, fun p ops hops => ?_⟩
  · rcases LinkedList.popHighestPriority_cases priority l with ⟨hl, hnone⟩ | ⟨t, rest, hpop, hfirst⟩
    · exact ⟨fun _ => hl, fun _ => hnone⟩
    · have hne : l ≠ [] := by
        rintro rfl
        exact absurd hfirst.perm.length_eq (by simp)
      simp [hpop, hne]
  · rcases LinkedList.popHighestPriority_cases priority l with ⟨-, hnone⟩ | ⟨t', rest', hpop', hfirst⟩
    · rw [hnone] at hpop
      cases hpop
    · obtain ⟨rfl, rfl⟩ := Prod.mk.inj (Option.some.inj (hpop'.symm.trans hpop))
      exact hfirst
  · exact foldl_filter hops ⟨l, []⟩

/-- The tasks after the first one have the same effective priority, which `1` has inherited. -/
def tie : Fin 4 → TaskPriority
  | 0 => .intrinsic 3
  | 1 => .inherited 1 5
  | _ => .intrinsic 1

example : LinkedList.popHighestPriority tie [0, 1, 2, 3] = some (1, [0, 2, 3]) := by decide

theorem popHighestPriority_stable_tie :
    (run [.pushBack 3, .popHighestPriority tie, .popHighestPriority tie] [0, 1, 2]).popped.filter (· ≠ 0) ++
      (run [.pushBack 3, .popHighestPriority tie, .popHighestPriority tie] [0, 1, 2]).list.filter (· ≠ 0) =
        [1, 2, 3] :=
  (popHighestPriority_stable [0, 1, 2]).2.2 (· ≠ 0)
    [.pushBack 3, .popHighestPriority tie, .popHighestPriority tie]
    (List.forall_mem_cons.mpr ⟨trivial, List.forall_mem_cons.mpr ⟨by unfold Equal; decide,
      List.forall_mem_singleton.mpr (by unfold Equal; decide)⟩⟩)

end Queue

end Hopter.Task
