-- SUMMARY: The first minimum of a list, taken out with the rest of the list in order.
import Mathlib.Data.List.Perm.Basic
import Mathlib.Order.Defs.LinearOrder
import Mathlib.Order.Lattice
import Mathlib.Tactic.Common

/-!
# First minimum

An element of a list whose key is the smallest, and the first one of those, together with the
other elements in their order. Among the elements of a class with equal keys it is always the
first one that is taken (`FirstMin.filter`), and so repeated extraction serves such a class in
order of arrival.
-/

variable {α β : Type} [LinearOrder β] {f : α → β} {l rest : List α} {x : α}

/-- `x` is the first element of `l` with the smallest key, and `rest` is `l` without it. -/
def FirstMin (f : α → β) (l : List α) (x : α) (rest : List α) : Prop :=
  ∃ pre post, l = pre ++ x :: post ∧ rest = pre ++ post ∧ (∀ y ∈ pre, f x < f y) ∧ ∀ y ∈ post, f x ≤ f y

namespace FirstMin

/-- An element at a position, with a larger key at every position before it and no smaller one
after it. -/
theorem of_getElem? {n : Nat} (hx : l[n]? = some x) (hbefore : ∀ i < n, ∀ y, l[i]? = some y → f x < f y)
    (hle : ∀ y ∈ l, f x ≤ f y) : FirstMin f l x (l.eraseIdx n) := by
  obtain ⟨hn, rfl⟩ := List.getElem?_eq_some_iff.mp hx
  refine ⟨l.take n, l.drop (n + 1), ?_, List.eraseIdx_eq_take_drop_succ l n, fun y hy => ?_, fun y hy => ?_⟩
  · rw [List.getElem_cons_drop, List.take_append_drop]
  · obtain ⟨i, hi, rfl⟩ := List.mem_take_iff_getElem.mp hy
    exact hbefore i (by omega) _ (List.getElem?_eq_getElem _)
  · exact hle y (List.mem_of_mem_drop hy)

theorem perm (h : FirstMin f l x rest) : l.Perm (x :: rest) := by
  obtain ⟨pre, post, rfl, rfl, -, -⟩ := h
  exact List.perm_middle

theorem le (h : FirstMin f l x rest) : ∀ y ∈ l, f x ≤ f y := by
  obtain ⟨pre, post, rfl, -, hpre, hpost⟩ := h
  intro y hy
  rcases List.mem_append.mp hy with hy | hy
  · exact le_of_lt (hpre y hy)
  · rcases List.mem_cons.mp hy with rfl | hy
    · exact le_refl _
    · exact hpost y hy

/-- Of the elements of a class with equal keys the first one is taken. -/
theorem filter {p : α → Bool} (h : FirstMin f l x rest) (hp : ∀ y z, p y = true → p z = true → f y = f z) :
    l.filter p = if p x then x :: rest.filter p else rest.filter p := by
  obtain ⟨pre, post, rfl, rfl, hpre, -⟩ := h
  split
  · rename_i hx
    have hnone : pre.filter p = [] := by
      rw [List.filter_eq_nil_iff]
      intro y hy hpy
      exact absurd (hp x y hx hpy) (ne_of_lt (hpre y hy))
    simp [hnone, hx]
  · rename_i hx
    simp [hx]

end FirstMin
