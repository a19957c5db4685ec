-- SUMMARY: The contexts of a single CPU: tasks, one of which is current, and nested handlers.
import Mathlib.Algebra.Order.BigOperators.Group.Finset
import Mathlib.Algebra.Order.BigOperators.Group.List
import Mathlib.Algebra.Ring.Nat
import Mathlib.Data.Fintype.BigOperators
import Mathlib.Tactic.Common

/-!
# Nested contexts

A single CPU runs one context at a time: the innermost handler that is active, or the
current task. What the contexts hold between them, such as references that a counter
counts, is a sum over all of them.
-/

/-- Tasks and handlers, each with a local state `κ`. The innermost handler is the first. -/
structure Nest (τ κ : Type) where
  task : τ → κ
  current : τ
  handlers : List κ

namespace Nest

variable {τ κ : Type}

/-- The context that runs. -/
def top (n : Nest τ κ) : κ := n.handlers.headD (n.task n.current)

/-- A handler starts. -/
def push (n : Nest τ κ) (c : κ) : Nest τ κ := { n with handlers := c :: n.handlers }

/-- The innermost handler returns. -/
def pop (n : Nest τ κ) : Nest τ κ := { n with handlers := n.handlers.tail }

/-- Another task runs. -/
def switch (n : Nest τ κ) (t : τ) : Nest τ κ := { n with current := t }

/-- A context of the CPU. -/
def Has (n : Nest τ κ) (c : κ) : Prop := (∃ t, n.task t = c) ∨ c ∈ n.handlers

variable {n : Nest τ κ} {c d : κ} {f : κ → Nat}

theorem has_top (n : Nest τ κ) : n.Has n.top := by
  unfold top
  cases h : n.handlers with
  | nil => exact Or.inl ⟨n.current, rfl⟩
  | cons c rest => exact Or.inr (by simp [h])

theorem has_push : (n.push c).Has d ↔ d = c ∨ n.Has d := by
  simp only [Has, push, List.mem_cons]
  exact or_left_comm

theorem has_of_handlers {rest : List κ} (h : n.handlers = c :: rest) : n.Has d ↔ d = c ∨ n.pop.Has d := by
  simp only [Has, pop, h, List.mem_cons, List.tail_cons]
  exact or_left_comm

section Tasks

variable [DecidableEq τ]

/-- The context that runs changes. -/
def setTop (n : Nest τ κ) (c : κ) : Nest τ κ :=
  match n.handlers with
  | [] => { n with task := Function.update n.task n.current c }
  | _ :: rest => { n with handlers := c :: rest }

theorem setTop_task (h : n.handlers = []) : n.setTop c = { n with task := Function.update n.task n.current c } := by
  simp [setTop, h]

theorem setTop_handler {rest : List κ} (h : n.handlers = d :: rest) :
    n.setTop c = { n with handlers := c :: rest } := by
  simp [setTop, h]

@[simp] theorem setTop_current : (n.setTop c).current = n.current := by
  unfold setTop
  split <;> rfl

@[simp] theorem setTop_handlers_eq_nil : (n.setTop c).handlers = [] ↔ n.handlers = [] := by
  unfold setTop
  split <;> simp_all

@[simp] theorem top_setTop : (n.setTop c).top = c := by
  unfold setTop
  split <;> simp_all [top]

theorem setTop_setTop : (n.setTop c).setTop d = n.setTop d := by
  cases h : n.handlers <;> simp [setTop, h]

theorem has_setTop : (n.setTop c).Has c := by
  unfold setTop
  split
  · exact Or.inl ⟨n.current, by simp⟩
  · exact Or.inr (by simp)

/-- The other contexts stay when one is replaced. -/
theorem Has.of_setTop (h : (n.setTop c).Has d) : d = c ∨ n.Has d := by
  unfold setTop at h
  split at h
  · rcases h with ⟨t, rfl⟩ | h
    · by_cases ht : t = n.current
      · exact Or.inl (by simp [ht])
      · exact Or.inr (Or.inl ⟨t, by simp [Function.update_of_ne ht]⟩)
    · exact Or.inr (Or.inr h)
  · rename_i c' rest hcons
    rcases h with ⟨t, rfl⟩ | h
    · exact Or.inr (Or.inl ⟨t, rfl⟩)
    · rcases List.mem_cons.mp h with rfl | h
      · exact Or.inl rfl
      · exact Or.inr (Or.inr (by simp [hcons, h]))

/-- The contexts that do not run stay. -/
theorem Has.setTop (h : n.Has d) : d = n.top ∨ (n.setTop c).Has d := by
  unfold Nest.setTop top
  rcases h with ⟨t, rfl⟩ | h
  · cases hcons : n.handlers with
    | nil =>
      by_cases ht : t = n.current
      · exact Or.inl (by simp [ht])
      · exact Or.inr (Or.inl ⟨t, by simp [Function.update_of_ne ht]⟩)
    | cons c' rest => exact Or.inr (Or.inl ⟨t, rfl⟩)
  · cases hcons : n.handlers with
    | nil => simp [hcons] at h
    | cons c' rest =>
      rw [hcons] at h
      rcases List.mem_cons.mp h with rfl | h
      · exact Or.inl rfl
      · exact Or.inr (Or.inr (List.mem_cons_of_mem _ h))

end Tasks

-- ---------------------------------------------------------------------------
-- Sums over the contexts
-- ---------------------------------------------------------------------------

variable [Fintype τ]

/-- What all contexts have together. -/
def total (n : Nest τ κ) (f : κ → Nat) : Nat := ∑ t, f (n.task t) + (n.handlers.map f).sum

theorem le_total (h : n.Has c) : f c ≤ n.total f := by
  unfold total
  rcases h with ⟨t, rfl⟩ | h
  · have := Finset.single_le_sum (f := fun t => f (n.task t)) (fun _ _ => Nat.zero_le _) (Finset.mem_univ t)
    omega
  · have := List.single_le_sum (fun x _ => Nat.zero_le x) _ (List.mem_map_of_mem (f := f) h)
    omega

theorem total_le {g : κ → Nat} (h : ∀ c, f c ≤ g c) : n.total f ≤ n.total g :=
  Nat.add_le_add (Finset.sum_le_sum fun _ _ => h _) (List.sum_le_sum fun _ _ => h _)

theorem exists_of_total_pos (h : 0 < n.total f) : ∃ c, n.Has c ∧ 0 < f c := by
  by_contra hnone
  push Not at hnone
  have htasks : ∑ t, f (n.task t) = 0 :=
    Finset.sum_eq_zero fun t _ => Nat.le_zero.mp (hnone _ (Or.inl ⟨t, rfl⟩))
  have hhandlers : (n.handlers.map f).sum = 0 := by
    rw [List.sum_eq_zero_iff]
    intro x hx
    obtain ⟨c, hc, rfl⟩ := List.mem_map.mp hx
    exact Nat.le_zero.mp (hnone c (Or.inr hc))
  simp [total, htasks, hhandlers] at h

/-- A task and a handler are different contexts. -/
theorem add_le_total_of_mem {t : τ} (h : c ∈ n.handlers) : f (n.task t) + f c ≤ n.total f := by
  have htask := Finset.single_le_sum (f := fun t => f (n.task t)) (fun _ _ => Nat.zero_le _) (Finset.mem_univ t)
  have hhandler := List.single_le_sum (fun x _ => Nat.zero_le x) _ (List.mem_map_of_mem (f := f) h)
  unfold total
  omega

/-- A handler and one that it has preempted are different contexts. -/
theorem add_le_total_of_cons {rest : List κ} (h : n.handlers = c :: rest) (hd : d ∈ rest) :
    f c + f d ≤ n.total f := by
  have hrest := List.single_le_sum (fun x _ => Nat.zero_le x) _ (List.mem_map_of_mem (f := f) hd)
  unfold total
  rw [h, List.map_cons, List.sum_cons]
  omega

@[simp] theorem total_push : (n.push c).total f = n.total f + f c := by
  simp only [total, push, List.map_cons, List.sum_cons]
  omega

theorem total_pop {rest : List κ} (h : n.handlers = c :: rest) : n.pop.total f + f c = n.total f := by
  simp only [total, pop, h, List.tail_cons, List.map_cons, List.sum_cons]
  omega

@[simp] theorem total_switch {t : τ} : (n.switch t).total f = n.total f := rfl

theorem total_setTop [DecidableEq τ] : (n.setTop c).total f + f n.top = n.total f + f c := by
  unfold total setTop top
  cases h : n.handlers with
  | nil =>
    have hsum : ∀ g : τ → Nat, ∑ t, g t = g n.current + ∑ t ∈ Finset.univ.erase n.current, g t :=
      fun g => (Finset.add_sum_erase _ g (Finset.mem_univ _)).symm
    have hrest : ∑ t ∈ Finset.univ.erase n.current, f (Function.update n.task n.current c t) =
        ∑ t ∈ Finset.univ.erase n.current, f (n.task t) :=
      Finset.sum_congr rfl fun t ht => by rw [Function.update_of_ne (Finset.ne_of_mem_erase ht)]
    rw [hsum, hsum fun t => f (n.task t), hrest]
    simp
    omega
  | cons d rest =>
    simp
    omega

end Nest
