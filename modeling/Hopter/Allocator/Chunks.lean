-- SUMMARY: The chunk sequence that the headers of the heap describe: chunks at addresses, segments, the guard, and framing.
import Hopter.Allocator.Heap
import Mathlib.Data.List.Basic

/-!
# Chunk sequences

The abstract view of the heap memory is a list of chunks, laid out one after the
other. `ChunkAt` says what a chunk looks like in memory, `Seg` what a run of
neighbouring chunks looks like, and `Tail` what a run that ends at the guard
header looks like. A run knows the flag that its first header must record for the
chunk on its left.

An allocated chunk carries its payload bytes. Its owner may change them, the heap
may not: that the heap operations keep the payloads in the abstract view is what
makes the payloads safe.
-/

namespace Hopter.Allocator

open Word

/-- A chunk of the heap: a multiple of 8 bytes, at least 16. Its payload is `none`
while the chunk is free. -/
structure Chunk where
  size : Nat
  payload : Option (Nat → UInt8)
  le_size : 16 ≤ size
  aligned : size % 8 = 0

namespace Chunk

def allocated (c : Chunk) : Bool := c.payload.isSome

theorem size_mod_four (c : Chunk) : c.size % 4 = 0 := by
  have := c.aligned
  omega

theorem allocated_eq_false {c : Chunk} : c.allocated = false ↔ c.payload = none := by
  simp [allocated]

/-- The bytes of the chunk that are in use. -/
def used (c : Chunk) : Nat := if c.allocated then c.size else 0

theorem used_of_free {c : Chunk} (h : c.payload = none) : c.used = 0 := by
  simp [used, allocated_eq_false.mpr h]

/-- What the header of the chunk records. -/
def shape (c : Chunk) : Nat × Bool := (c.size, c.allocated)

theorem used_of_allocated {c : Chunk} (h : c.allocated = true) : c.used = c.size := if_pos h

end Chunk

/-- The chunk `c` is at address `a`, and its header records `left` for the chunk
on its left. -/
structure ChunkAt (m : Mem) (a : Nat) (left : Bool) (c : Chunk) : Prop where
  header : m.load32 a = tagged c.size c.allocated left
  footer : c.payload = none → m.load32 (a + c.size - 4) = c.size
  bytes : ∀ f, c.payload = some f → ∀ i, 4 + i < c.size → m (a + 4 + i) = f i

/-- The number of bytes of a run of chunks. -/
def extent : List Chunk → Nat
  | [] => 0
  | c :: cs => c.size + extent cs

/-- The bytes of a run of chunks that are in use. -/
def used (cs : List Chunk) : Nat := (cs.map Chunk.used).sum

/-- The flag that the header behind a run records, when `left` is the flag of the
first header of the run. -/
def endFlag (left : Bool) : List Chunk → Bool
  | [] => left
  | c :: cs => endFlag c.allocated cs

/-- The chunks of a run with their addresses. -/
def placed (a : Nat) : List Chunk → List (Nat × Chunk)
  | [] => []
  | c :: cs => (a, c) :: placed (a + c.size) cs

/-- The run of chunks `cs` is at address `a`. -/
def Seg (m : Mem) : Nat → Bool → List Chunk → Prop
  | _, _, [] => True
  | a, left, c :: cs => ChunkAt m a left c ∧ Seg m (a + c.size) c.allocated cs

/-- The run of chunks `cs` is at address `a`, and the guard header is behind it. -/
def Tail (m : Mem) (a : Nat) (left : Bool) (cs : List Chunk) : Prop :=
  Seg m a left cs ∧ m.load32 (a + extent cs) = tagged 0 true (endFlag left cs)

-- ---------------------------------------------------------------------------
-- Runs of chunks
-- ---------------------------------------------------------------------------

variable {a x : Nat} {left : Bool} {c : Chunk} {xs ys cs : List Chunk}

@[simp] theorem extent_append : extent (xs ++ ys) = extent xs + extent ys := by
  induction xs with
  | nil => simp [extent]
  | cons c xs ih => simp only [List.cons_append, extent, ih]; omega

@[simp] theorem used_append : used (xs ++ ys) = used xs + used ys := by simp [used]

@[simp] theorem used_cons : used (c :: cs) = c.used + used cs := by simp [used]

@[simp] theorem used_nil : used [] = 0 := rfl

theorem used_eq_zero (h : ∀ c ∈ cs, c.payload = none) : used cs = 0 := by
  induction cs with
  | nil => rfl
  | cons c cs ih =>
    rw [used_cons, Chunk.used_of_free (h c (by simp)), ih fun d hd => h d (by simp [hd])]

@[simp] theorem endFlag_append : endFlag left (xs ++ ys) = endFlag (endFlag left xs) ys := by
  induction xs generalizing left with
  | nil => rfl
  | cons c xs ih => simp only [List.cons_append, endFlag, ih]

theorem extent_mod_eight (cs : List Chunk) : extent cs % 8 = 0 := by
  induction cs with
  | nil => rfl
  | cons c cs ih =>
    have := c.aligned
    simp only [extent]
    omega

theorem length_le_extent (cs : List Chunk) : 16 * cs.length ≤ extent cs := by
  induction cs with
  | nil => rfl
  | cons c cs ih =>
    have := c.le_size
    simp only [List.length_cons, extent]
    omega

theorem placed_append : placed a (xs ++ ys) = placed a xs ++ placed (a + extent xs) ys := by
  induction xs generalizing a with
  | nil => simp [placed, extent]
  | cons c xs ih => simp [placed, extent, ih, Nat.add_assoc]

@[simp] theorem length_placed : (placed a cs).length = cs.length := by
  induction cs generalizing a with
  | nil => rfl
  | cons c cs ih => simp [placed, ih]

/-- A placed chunk splits the run into what is before it and what is behind it. -/
theorem mem_placed : (x, c) ∈ placed a cs ↔
    ∃ pre post, cs = pre ++ c :: post ∧ x = a + extent pre := by
  induction cs generalizing a with
  | nil => simp [placed]
  | cons d cs ih =>
    simp only [placed, List.mem_cons, Prod.mk.injEq, ih]
    constructor
    · rintro (⟨rfl, rfl⟩ | ⟨pre, post, rfl, rfl⟩)
      · exact ⟨[], cs, rfl, by simp [extent]⟩
      · exact ⟨d :: pre, post, rfl, by simp [extent, Nat.add_assoc]⟩
    · rintro ⟨pre, post, hcs, rfl⟩
      cases pre with
      | nil =>
        simp only [List.nil_append, List.cons.injEq] at hcs
        exact Or.inl ⟨by simp [extent], hcs.1.symm⟩
      | cons e pre =>
        simp only [List.cons_append, List.cons.injEq] at hcs
        obtain ⟨rfl, rfl⟩ := hcs
        exact Or.inr ⟨pre, post, rfl, by simp [extent, Nat.add_assoc]⟩

/-- A placed chunk lies inside its run. -/
theorem placed_bounds (h : (x, c) ∈ placed a cs) : a ≤ x ∧ x + c.size ≤ a + extent cs := by
  obtain ⟨pre, post, rfl, rfl⟩ := mem_placed.mp h
  simp only [extent_append, extent]
  omega

theorem placed_mod_eight (h : (x, c) ∈ placed a cs) : x % 8 = a % 8 := by
  obtain ⟨pre, post, rfl, rfl⟩ := mem_placed.mp h
  have := extent_mod_eight pre
  omega

/-- Two placed chunks are the same chunk, or one ends before the other starts. -/
theorem placed_disjoint {y : Nat} {d : Chunk} (hx : (x, c) ∈ placed a cs)
    (hy : (y, d) ∈ placed a cs) : x = y ∧ c = d ∨ x + c.size ≤ y ∨ y + d.size ≤ x := by
  induction cs generalizing a with
  | nil => simp [placed] at hx
  | cons e cs ih =>
    simp only [placed, List.mem_cons, Prod.mk.injEq] at hx hy
    rcases hx with ⟨rfl, rfl⟩ | hx <;> rcases hy with ⟨rfl, rfl⟩ | hy
    · exact Or.inl ⟨rfl, rfl⟩
    · exact Or.inr (Or.inl (placed_bounds hy).1)
    · exact Or.inr (Or.inr (placed_bounds hx).1)
    · exact ih hx hy

theorem placed_unique {d : Chunk} (hx : (x, c) ∈ placed a cs) (hy : (x, d) ∈ placed a cs) :
    c = d := by
  have hc := c.le_size
  have hd := d.le_size
  rcases placed_disjoint hx hy with h | h | h
  · exact h.2
  · omega
  · omega

variable {m m' : Mem}

theorem seg_append : Seg m a left (xs ++ ys) ↔
    Seg m a left xs ∧ Seg m (a + extent xs) (endFlag left xs) ys := by
  induction xs generalizing a left with
  | nil => simp [Seg, extent, endFlag]
  | cons c xs ih => simp [Seg, extent, endFlag, ih, Nat.add_assoc, and_assoc]

theorem tail_append : Tail m a left (xs ++ ys) ↔
    Seg m a left xs ∧ Tail m (a + extent xs) (endFlag left xs) ys := by
  simp only [Tail, seg_append, extent_append, endFlag_append, Nat.add_assoc, and_assoc]

theorem tail_cons : Tail m a left (c :: cs) ↔
    ChunkAt m a left c ∧ Tail m (a + c.size) c.allocated cs := by
  simp only [Tail, Seg, extent, endFlag, Nat.add_assoc, and_assoc]

theorem tail_nil : Tail m a left [] ↔ m.load32 a = tagged 0 true left := by
  simp [Tail, Seg, extent, endFlag]

-- ---------------------------------------------------------------------------
-- Framing
-- ---------------------------------------------------------------------------

theorem ChunkAt.congr (h : ChunkAt m a left c) (hm : m.AgreeOn m' a (a + c.size)) :
    ChunkAt m' a left c := by
  have hsize := c.le_size
  refine ⟨?_, fun hfree => ?_, fun f hf i hi => ?_⟩
  · rw [Mem.load32_congr (hm.mono le_rfl (by omega)), h.header]
  · rw [Mem.load32_congr (hm.mono (by omega) (by omega)), h.footer hfree]
  · rw [hm (a + 4 + i) (by omega) (by omega), h.bytes f hf i hi]

/-- A run only depends on the memory that it covers. -/
theorem Seg.congr (h : Seg m a left cs) (hm : m.AgreeOn m' a (a + extent cs)) :
    Seg m' a left cs := by
  induction cs generalizing a left with
  | nil => trivial
  | cons c cs ih =>
    simp only [extent] at hm
    exact ⟨h.1.congr (hm.mono le_rfl (by omega)), ih h.2 (hm.mono (by omega) (by omega))⟩

theorem Tail.congr (h : Tail m a left cs) (hm : m.AgreeOn m' a (a + extent cs + 4)) :
    Tail m' a left cs := by
  refine ⟨h.1.congr (hm.mono le_rfl (by omega)), ?_⟩
  rw [Mem.load32_congr (hm.mono (by omega) le_rfl), h.2]

/-- The first header of a run that ends at the guard, and what happens when only
its flag for the left neighbour changes. -/
theorem Tail.first_header (h : Tail m a left cs) (hbound : a + extent cs < 2 ^ 32) :
    ∃ size self, m.load32 a = tagged size self left ∧ size % 4 = 0 ∧ size < 2 ^ 32 ∧
      (self = false → ∃ c, (a, c) ∈ placed a cs ∧ c.payload = none ∧ c.size = size) ∧
      (self = true → ∀ c, (a, c) ∈ placed a cs → c.payload ≠ none) ∧
      ∀ left', Tail (m.store32 a (tagged size self left')) a left' cs := by
  cases cs with
  | nil =>
    refine ⟨0, true, tail_nil.mp h, rfl, by decide, by simp, by simp [placed], fun left' => ?_⟩
    exact tail_nil.mpr (Mem.load32_store32_same (tagged_lt rfl (by decide)))
  | cons c cs =>
    obtain ⟨hc, hrest⟩ := tail_cons.mp h
    have h4 := c.size_mod_four
    have hsize := c.le_size
    simp only [extent] at hbound
    have hlt : c.size < 2 ^ 32 := by omega
    refine ⟨c.size, c.allocated, hc.header, h4, hlt, fun hself => ?_, fun hself d hd => ?_,
      fun left' => ?_⟩
    · exact ⟨c, by simp [placed], Chunk.allocated_eq_false.mp hself, rfl⟩
    · have hdc : c = d := placed_unique (by simp [placed]) hd
      subst hdc
      intro hnone
      rw [Chunk.allocated_eq_false.mpr hnone] at hself
      exact absurd hself (by decide)
    · refine tail_cons.mpr ⟨⟨?_, fun hfree => ?_, fun f hf i hi => ?_⟩, ?_⟩
      · exact Mem.load32_store32_same (tagged_lt h4 hlt)
      · rw [Mem.load32_store32_disjoint (by omega), hc.footer hfree]
      · rw [Mem.store32_of_ge (by omega), hc.bytes f hf i hi]
      · exact hrest.congr (Mem.agreeOn_store32 (by omega))

/-- The addresses of the link fields of the nodes. -/
def linkFields (nodes : List Nat) (y : Nat) : Prop := ∃ n ∈ nodes, n + 4 ≤ y ∧ y < n + 8

/-- A node of the free lists, as seen from a run of chunks: it is outside the run,
or it is the header of a free chunk of the run. -/
def IsNode (a : Nat) (cs : List Chunk) (n : Nat) : Prop :=
  n + 8 ≤ a ∨ a + extent cs ≤ n ∨ ∃ c, (n, c) ∈ placed a cs ∧ c.payload = none

/-- Writing link fields changes no chunk of a run. -/
theorem Seg.congr_links {nodes : List Nat} (h : Seg m a left cs)
    (hm : ∀ y, ¬ linkFields nodes y → m' y = m y) (hnodes : ∀ n ∈ nodes, IsNode a cs n) :
    Seg m' a left cs := by
  induction cs generalizing a left with
  | nil => trivial
  | cons c cs ih =>
    have hsize := c.le_size
    -- Seen from the first chunk, a node is before it, the chunk itself while free, or behind it.
    have hcase : ∀ n ∈ nodes, n + 8 ≤ a ∨ (n = a ∧ c.payload = none) ∨ a + c.size ≤ n := by
      intro n hn
      rcases hnodes n hn with hlt | hge | ⟨d, hd, hfree⟩
      · exact Or.inl hlt
      · simp only [extent] at hge
        exact Or.inr (Or.inr (by omega))
      · simp only [placed, List.mem_cons, Prod.mk.injEq] at hd
        rcases hd with ⟨rfl, rfl⟩ | hd
        · exact Or.inr (Or.inl ⟨rfl, hfree⟩)
        · exact Or.inr (Or.inr (placed_bounds hd).1)
    have hkeep : ∀ y, a ≤ y → y < a + c.size → (c.payload = none → y < a + 4 ∨ a + 8 ≤ y) →
        m' y = m y := by
      intro y hy hy' hfree
      apply hm
      rintro ⟨n, hn, hn1, hn2⟩
      rcases hcase n hn with h | ⟨rfl, hnone⟩ | h
      · omega
      · have := hfree hnone; omega
      · omega
    refine ⟨⟨?_, fun hfree => ?_, fun f hf i hi => ?_⟩, ih h.2 fun n hn => ?_⟩
    · rw [Mem.load32_congr fun y hy hy' => hkeep y hy (by omega) fun _ => by omega, h.1.header]
    · rw [Mem.load32_congr fun y hy hy' => hkeep y (by omega) (by omega) fun _ => by omega,
        h.1.footer hfree]
    · rw [hkeep (a + 4 + i) (by omega) (by omega) (fun hnone => by simp [hnone] at hf),
        h.1.bytes f hf i hi]
    · rcases hnodes n hn with hlt | hge | ⟨d, hd, hfree⟩
      · exact Or.inl (by omega)
      · simp only [extent] at hge
        exact Or.inr (Or.inl (by omega))
      · simp only [placed, List.mem_cons, Prod.mk.injEq] at hd
        rcases hd with ⟨rfl, rfl⟩ | hd
        · exact Or.inl (by omega)
        · exact Or.inr (Or.inr ⟨d, hd, hfree⟩)

theorem Tail.congr_links {nodes : List Nat} (h : Tail m a left cs)
    (hm : ∀ y, ¬ linkFields nodes y → m' y = m y)
    (hnodes : ∀ n ∈ nodes, n + 8 ≤ a ∨ a + extent cs ≤ n ∨
      ∃ c, (n, c) ∈ placed a cs ∧ c.payload = none) :
    Tail m' a left cs := by
  refine ⟨h.1.congr_links hm hnodes, ?_⟩
  rw [Mem.load32_congr fun y hy hy' => hm y ?_, h.2]
  rintro ⟨n, hn, hn1, hn2⟩
  rcases hnodes n hn with hlt | hge | ⟨d, hd, -⟩
  · omega
  · omega
  · have := placed_bounds hd
    have := d.le_size
    omega

end Hopter.Allocator
