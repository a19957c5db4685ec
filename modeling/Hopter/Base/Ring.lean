-- SUMMARY: Families of circular doubly linked lists over arbitrary nodes: unlinking, linking after a head, and framing.
import Mathlib.Data.List.Chain
import Mathlib.Logic.Function.Basic
import Mathlib.Tactic.Common

/-!
# Circular doubly linked lists

A link structure gives every node a `next` and a `prev` node. A *ring* with head
`s` and members `l` goes from `s` through the members in order and back to `s`,
and the `prev` links go the same way back. The head is a node like the members,
so that linking and unlinking need no special case for an empty ring.

Several rings live in one link structure. `Rings` says that a family of rings
uses pairwise different nodes; its two operations are `Rings.unlink` and
`Rings.linkAfter_head`. A ring only depends on the links of its own nodes
(`Rings.congr`), which is how a write outside the rings is framed.
-/

/-- The links of a set of nodes. -/
structure Links (α : Type) where
  next : α → α
  prev : α → α

namespace Links

variable {α ι : Type}

/-- `b` follows `a`, seen from both sides. -/
def Adj (k : Links α) (a b : α) : Prop := k.next a = b ∧ k.prev b = a

/-- The ring with head `s` and members `l`. -/
def Ring (k : Links α) (s : α) (l : List α) : Prop := (s :: (l ++ [s])).IsChain k.Adj

/-- The two structures have the same links at every node of `nodes`. -/
def AgreeOn (k k' : Links α) (nodes : List α) : Prop :=
  ∀ a ∈ nodes, k'.next a = k.next a ∧ k'.prev a = k.prev a

section
variable [DecidableEq α]

def setNext (k : Links α) (a b : α) : Links α := { k with next := Function.update k.next a b }

def setPrev (k : Links α) (a b : α) : Links α := { k with prev := Function.update k.prev a b }

/-- Take a node out of its ring by joining its two neighbours. -/
def unlink (k : Links α) (x : α) : Links α :=
  (k.setNext (k.prev x) (k.next x)).setPrev (k.next x) (k.prev x)

/-- Put the node `x` right after `p`. -/
def linkAfter (k : Links α) (p x : α) : Links α :=
  (((k.setNext p x).setPrev (k.next p) x).setNext x (k.next p)).setPrev x p

end

/-! ## One ring -/

theorem Ring.congr {k k' : Links α} {s : α} {l : List α} (h : k.Ring s l)
    (hk : k.AgreeOn k' (s :: l)) : k'.Ring s l := by
  refine List.IsChain.imp_of_mem_imp (fun a b ha hb hab => ?_) h
  have ha' : a ∈ s :: l := by simp at ha ⊢; tauto
  have hb' : b ∈ s :: l := by simp at hb ⊢; tauto
  exact ⟨(hk a ha').1.trans hab.1, (hk b hb').2.trans hab.2⟩

/-- A member has a node before it and a node after it. -/
private theorem Ring.split {s x : α} {u v : List α} :
    ∃ p n u' v', s :: u = u' ++ [p] ∧ v ++ [s] = n :: v' ∧
      s :: (u ++ x :: v ++ [s]) = u' ++ p :: x :: n :: v' ∧
      s :: (u ++ v ++ [s]) = u' ++ p :: n :: v' := by
  obtain ⟨u', p, hu⟩ : ∃ u' p, s :: u = u' ++ [p] :=
    ⟨(s :: u).dropLast, (s :: u).getLast (by simp), (List.dropLast_append_getLast _).symm⟩
  obtain ⟨n, v', hv⟩ : ∃ n v', v ++ [s] = n :: v' := by
    cases v with
    | nil => exact ⟨s, [], rfl⟩
    | cons n v => exact ⟨n, v ++ [s], rfl⟩
  refine ⟨p, n, u', v', hu, hv, ?_, ?_⟩
  · calc s :: (u ++ x :: v ++ [s]) = (s :: u) ++ x :: (v ++ [s]) := by simp
      _ = u' ++ p :: x :: n :: v' := by rw [hu, hv]; simp
  · calc s :: (u ++ v ++ [s]) = (s :: u) ++ (v ++ [s]) := by simp
      _ = u' ++ p :: n :: v' := by rw [hu, hv]; simp

/-- The neighbours of a member are nodes of the same ring. -/
theorem Ring.neighbours_mem {k : Links α} {s x : α} {l : List α} (h : k.Ring s l) (hx : x ∈ l) :
    k.prev x ∈ s :: l ∧ k.next x ∈ s :: l := by
  obtain ⟨u, v, rfl⟩ := List.append_of_mem hx
  obtain ⟨p, n, u', v', hu, hv, hsplit, -⟩ := Ring.split (s := s) (x := x) (u := u) (v := v)
  rw [Ring, hsplit, List.isChain_append_cons_cons, List.isChain_cons_cons] at h
  have hp : p ∈ s :: u := by rw [hu]; simp
  have hn : n ∈ v ++ [s] := by rw [hv]; simp
  rw [h.2.1.2, h.2.2.1.1]
  simp only [List.mem_cons, List.mem_append, List.not_mem_nil, or_false] at hp hn ⊢
  tauto

/-- The node after the head is a node of the ring. -/
theorem Ring.next_head_mem {k : Links α} {s : α} {l : List α} (h : k.Ring s l) :
    k.next s ∈ s :: l := by
  cases l with
  | nil =>
    have hs : k.next s = s := (List.isChain_cons_cons.mp h).1.1
    simp [hs]
  | cons x l =>
    have hx : k.next s = x := (List.isChain_cons_cons.mp h).1.1
    simp [hx]

section
variable [DecidableEq α]

/-- Unlinking `x` keeps every pair of neighbours that does not involve `x`. -/
private theorem Adj.unlink {k : Links α} {x a b p n : α} (hab : k.Adj a b)
    (hpx : k.Adj p x) (hxn : k.Adj x n) (ha : a ≠ x) (hb : b ≠ x) : (k.unlink x).Adj a b := by
  have hap : a ≠ p := fun heq => hb (by rw [← hab.1, heq, hpx.1])
  have hbn : b ≠ n := fun heq => ha (by rw [← hab.2, heq, hxn.2])
  rw [← hpx.2] at hap
  rw [← hxn.1] at hbn
  simpa [Links.unlink, setNext, setPrev, Links.Adj, hap, hbn] using hab

theorem Ring.unlink {k : Links α} {s x : α} {u v : List α} (h : k.Ring s (u ++ x :: v))
    (hnd : (s :: (u ++ x :: v)).Nodup) : (k.unlink x).Ring s (u ++ v) := by
  obtain ⟨p, n, u', v', hu, hv, hsplit, hgoal⟩ := Ring.split (s := s) (x := x) (u := u) (v := v)
  rw [Ring, hsplit, List.isChain_append_cons_cons, List.isChain_cons_cons] at h
  obtain ⟨hfront, hpx, hxn, hback⟩ := h
  have hxfront : x ∉ u' ++ [p] := by rw [← hu]; simp at hnd ⊢; grind
  have hxback : x ∉ n :: v' := by rw [← hv]; simp at hnd ⊢; grind
  rw [Ring, hgoal, List.isChain_append_cons_cons]
  refine ⟨?_, ?_, ?_⟩
  · exact hfront.imp_of_mem_imp fun a b ha hb hab =>
      hab.unlink hpx hxn (by grind) (by grind)
  · simp [Links.Adj, Links.unlink, setNext, setPrev, hpx.2, hxn.1]
  · exact hback.imp_of_mem_imp fun a b ha hb hab =>
      hab.unlink hpx hxn (by grind) (by grind)

theorem Ring.linkAfter_head {k : Links α} {s x : α} {l : List α} (h : k.Ring s l)
    (hnd : (s :: l).Nodup) (hx : x ∉ s :: l) : (k.linkAfter s x).Ring s (x :: l) := by
  obtain ⟨n, l', hn⟩ : ∃ n l', l ++ [s] = n :: l' := by
    cases l with
    | nil => exact ⟨s, [], rfl⟩
    | cons n l => exact ⟨n, l ++ [s], rfl⟩
  have hnx : ∀ a ∈ n :: l', a ≠ x := by
    intro a ha heq
    rw [← hn] at ha
    subst heq
    simp at ha hx
    grind
  rw [Ring, hn, List.isChain_cons_cons] at h
  obtain ⟨hsn, hrest⟩ := h
  have hsx : s ≠ x := fun heq => hx (by simp [heq])
  rw [Ring, List.cons_append, hn, List.isChain_cons_cons, List.isChain_cons_cons]
  refine ⟨?_, ?_, ?_⟩
  · simp [Links.Adj, linkAfter, setNext, setPrev, hsx]
  · simp [Links.Adj, linkAfter, setNext, setPrev, hsn.1, hnx n (by simp)]
  · -- A later pair starts after the head and ends after the old first node.
    have hnl : n ∉ l' := by
      have hnd' : (l ++ [s]).Nodup := by
        simp only [List.nodup_cons, List.nodup_append] at hnd ⊢
        grind
      rw [hn] at hnd'
      exact (List.nodup_cons.mp hnd').1
    refine hrest.imp_of_mem_tail_imp fun a b ha hb hab => ?_
    have hbn : b ≠ n := fun heq => hnl (heq ▸ hb)
    have has : a ≠ s := fun heq => hbn (by rw [← hab.1, heq, hsn.1])
    have hax : a ≠ x := hnx a ha
    have hbx : b ≠ x := hnx b (List.mem_cons_of_mem _ hb)
    simpa [Links.Adj, linkAfter, setNext, setPrev, hsn.1, has, hax, hbn, hbx] using hab

end

/-! ## Families of rings -/

/-- A family of rings with heads `s` and members `l`, no node of which occurs twice. -/
structure Rings (k : Links α) (s : ι → α) (l : ι → List α) : Prop where
  ring : ∀ i, k.Ring (s i) (l i)
  nodup : ∀ i, (s i :: l i).Nodup
  disjoint : ∀ {i j}, i ≠ j → List.Disjoint (s i :: l i) (s j :: l j)

namespace Rings

variable {k k' : Links α} {s : ι → α} {l : ι → List α}

theorem congr (h : k.Rings s l) (hk : ∀ i, k.AgreeOn k' (s i :: l i)) : k'.Rings s l :=
  ⟨fun i => (h.ring i).congr (hk i), h.nodup, h.disjoint⟩

variable [DecidableEq α] [DecidableEq ι]

/-- Unlinking a member of one ring leaves the other rings alone. -/
theorem unlink {i : ι} {x : α} {u v : List α} (h : k.Rings s l) (hi : l i = u ++ x :: v) :
    (k.unlink x).Rings s (Function.update l i (u ++ v)) := by
  have hx : x ∈ l i := by rw [hi]; simp
  obtain ⟨hprev, hnext⟩ := (h.ring i).neighbours_mem hx
  have hsub : ∀ j a, a ∈ s j :: Function.update l i (u ++ v) j → a ∈ s j :: l j := by
    intro j a ha
    by_cases hj : j = i
    · subst hj
      simp only [Function.update_self, List.mem_cons, List.mem_append, hi] at ha ⊢
      tauto
    · rwa [Function.update_of_ne hj] at ha
  refine ⟨fun j => ?_, fun j => ?_, fun {j j'} hne a ha ha' => ?_⟩
  · by_cases hj : j = i
    · subst hj
      rw [Function.update_self]
      have hring := h.ring j
      have hnd := h.nodup j
      rw [hi] at hring hnd
      exact hring.unlink hnd
    · rw [Function.update_of_ne hj]
      refine (h.ring j).congr fun a ha => ?_
      have hap : a ≠ k.prev x := fun heq => h.disjoint hj ha (heq ▸ hprev)
      have han : a ≠ k.next x := fun heq => h.disjoint hj ha (heq ▸ hnext)
      simp [Links.unlink, setNext, setPrev, hap, han]
  · by_cases hj : j = i
    · subst hj
      have hnd := h.nodup j
      rw [hi] at hnd
      rw [Function.update_self]
      simp at hnd ⊢
      grind
    · rw [Function.update_of_ne hj]
      exact h.nodup j
  · exact h.disjoint hne (hsub j a ha) (hsub j' a ha')

/-- A fresh node goes to the front of one ring. -/
theorem linkAfter_head (h : k.Rings s l) (i : ι) {x : α} (hx : ∀ j, x ∉ s j :: l j) :
    (k.linkAfter (s i) x).Rings s (Function.update l i (x :: l i)) := by
  have hmem : ∀ j a, a ∈ s j :: Function.update l i (x :: l i) j →
      a ∈ s j :: l j ∨ (a = x ∧ j = i) := by
    intro j a ha
    by_cases hj : j = i
    · subst hj
      simp only [Function.update_self, List.mem_cons] at ha ⊢
      tauto
    · rw [Function.update_of_ne hj] at ha
      exact Or.inl ha
  refine ⟨fun j => ?_, fun j => ?_, fun {j j'} hne a ha ha' => ?_⟩
  · by_cases hj : j = i
    · subst hj
      rw [Function.update_self]
      exact (h.ring j).linkAfter_head (h.nodup j) (hx j)
    · rw [Function.update_of_ne hj]
      refine (h.ring j).congr fun a ha => ?_
      have hax : a ≠ x := fun heq => hx j (heq ▸ ha)
      have has : a ≠ s i := fun heq => h.disjoint hj ha (by simp [heq])
      have han : a ≠ k.next (s i) := fun heq => h.disjoint hj ha (heq ▸ (h.ring i).next_head_mem)
      simp [linkAfter, setNext, setPrev, hax, has, han]
  · by_cases hj : j = i
    · subst hj
      rw [Function.update_self]
      have hnd := h.nodup j
      have hxj := hx j
      simp at hnd hxj ⊢
      grind
    · rw [Function.update_of_ne hj]
      exact h.nodup j
  · rcases hmem j a ha with hold | ⟨rfl, rfl⟩
    · rcases hmem j' a ha' with hold' | ⟨rfl, rfl⟩
      · exact h.disjoint hne hold hold'
      · exact hx j hold
    · rcases hmem j' a ha' with hold' | ⟨-, rfl⟩
      · exact hx j' hold'
      · exact hne rfl

end Rings

end Links
