-- SUMMARY: `mcu_heap_init` establishes the heap invariant: one free chunk, in the list of its size.
import Hopter.Allocator.Invariant

/-!
# Initialising the heap

`mcu_heap_init` empties the six lists and makes the memory between the static
variables and the end of the RAM one free chunk, with a guard header behind it.
-/

namespace Hopter.Allocator

open Word

variable {P : Platform} {m : Mem} {start : Nat}

-- ---------------------------------------------------------------------------
-- The empty lists
-- ---------------------------------------------------------------------------

/-- The sentinel links to itself in both directions. -/
def EmptyList (P : Platform) (m : Mem) (i : Fin 6) : Prop :=
  (links P m).next (sentinelHdr P i) = sentinelHdr P i ∧
    (links P m).prev (sentinelHdr P i) = sentinelHdr P i

/-- Emptying a list leaves the other lists alone. -/
theorem EmptyList.store (hnode : ∀ i : Fin 6, Node P (sentinelHdr P i)) (i j : Fin 6)
    (h : j ≠ i → EmptyList P m j) :
    EmptyList P ((m.store16 (hdrToNextField (sentinelHdr P i)) (ptrToLink P (sentinelHdr P i))).store16
      (hdrToPrevField (sentinelHdr P i)) (ptrToLink P (sentinelHdr P i))) j := by
  have hsame := ((links_store_next (m := m) (hnode i) (hnode i)).setPrev
    (sentinelHdr P i) (sentinelHdr P i)).trans (links_store_prev (hnode i) (hnode i))
  obtain ⟨hnext, hprev⟩ := hsame (sentinelHdr P j) (hnode j)
  rw [EmptyList, hnext, hprev]
  by_cases hj : j = i
  · subst hj
    simp [Links.setNext, Links.setPrev]
  · have hne : sentinelHdr P j ≠ sentinelHdr P i := by
      have : j.val ≠ i.val := fun heq => hj (Fin.ext heq)
      simp only [sentinelHdr]
      omega
    have hold := h hj
    rw [EmptyList] at hold
    simpa [Links.setNext, Links.setPrev, hne] using hold

theorem initSentinels_empty (hnode : ∀ i : Fin 6, Node P (sentinelHdr P i)) (idxs : List (Fin 6))
    (j : Fin 6) (h : j ∉ idxs → EmptyList P m j) :
    EmptyList P (initSentinels P m (idxs.map Fin.val)) j := by
  induction idxs generalizing m with
  | nil => exact h (by simp)
  | cons i idxs ih =>
    refine ih fun hj => EmptyList.store hnode i j fun hji => h ?_
    simp [hji, hj]

theorem Platform.Valid.sentinel_node (hv : P.Valid start) (hend : start ≤ P.ramEnd) (i : Fin 6) :
    Node P (sentinelHdr P i) := by
  have := hv.offset_aligned
  have := hv.sentinels_aligned
  have := hv.offset_le
  have := hv.sentinels_le
  have := hv.ramEnd_le
  have := hv.ramEnd_lt
  have := i.isLt
  refine ⟨hv.offset_aligned, ?_, ?_, ?_, ?_⟩ <;> simp only [sentinelHdr] <;> omega

/-- After the initialisation of the sentinels, all lists are empty. -/
theorem lists_initSentinels (hv : P.Valid start) (hend : start ≤ P.ramEnd) :
    Lists P (initSentinels P m [0, 1, 2, 3, 4, 5]) (fun _ => []) fun _ _ => False := by
  have hnode := hv.sentinel_node hend
  have hidx : ∀ j : Fin 6, j ∈ ([0, 1, 2, 3, 4, 5] : List (Fin 6)) := by decide
  have hall : ∀ j, EmptyList P (initSentinels P m [0, 1, 2, 3, 4, 5]) j := fun j =>
    initSentinels_empty hnode [0, 1, 2, 3, 4, 5] j fun hj => absurd (hidx j) hj
  refine
    { rings := ⟨fun i => ?_, by simp, fun {i j} hne a ha ha' => ?_⟩
      members := by simp
      sentinel := hnode
      node := False.elim
      outside := False.elim
      unique := False.elim }
  · exact List.isChain_cons_cons.mpr ⟨⟨(hall i).1, (hall i).2⟩, List.isChain_singleton _⟩
  · have hi : a = sentinelHdr P i := by simpa using ha
    have hj : a = sentinelHdr P j := by simpa using ha'
    have : i.val ≠ j.val := fun heq => hne (Fin.ext heq)
    simp only [sentinelHdr] at hi hj
    omega

-- ---------------------------------------------------------------------------
-- The first chunk
-- ---------------------------------------------------------------------------

theorem adjustDataEnd_spec {dataEnd : Nat} (h : adjustDataEnd dataEnd = some start) :
    start % 8 = 4 ∧ dataEnd ≤ start := by
  by_cases hlt : 2 ^ 32 ≤ dataEnd + 3
  · rw [adjustDataEnd, if_pos hlt] at h
    exact absurd h (by simp)
  have hmask : (dataEnd + 3) &&& 0xFFFFFFFC = 2 ^ 2 * ((dataEnd + 3) / 2 ^ 2) :=
    and_clearLow 2 rfl (by omega) (by decide)
  simp only [adjustDataEnd, if_neg hlt, hmask] at h
  by_cases hmod : 2 ^ 2 * ((dataEnd + 3) / 2 ^ 2) % 8 = 0
  · rw [if_pos hmod] at h
    split at h
    · exact absurd h (by simp)
    · obtain rfl := Option.some.inj h
      omega
  · rw [if_neg hmod] at h
    obtain rfl := Option.some.inj h
    omega

/-- The guard that `mcu_heap_init` puts at the end of the heap. -/
theorem guard_eq (m : Mem) (a : Nat) :
    setLeftFree (setSelfAllocated (setHdrChunkSize (clearHdr m a) a 0) a) a =
      m.store32 a (tagged 0 true false) := by
  have h₁ : HeaderAt (m.store32 a (tagged 0 false false)) a 0 false false :=
    HeaderAt.store rfl (by decide)
  have h₂ : HeaderAt (m.store32 a (tagged 0 true false)) a 0 true false :=
    HeaderAt.store rfl (by decide)
  have hclear : setHdrChunkSize (clearHdr m a) a 0 = m.store32 a (tagged 0 false false) :=
    (h₁.setHdrChunkSize_eq rfl (by decide)).trans Mem.store32_store32_same
  rw [hclear, h₁.setSelfAllocated_eq, Mem.store32_store32_same, h₂.setLeftFree_eq,
    Mem.store32_store32_same]

-- ---------------------------------------------------------------------------
-- The fresh heap
-- ---------------------------------------------------------------------------

/-- The memory before the first chunk is linked: the chunk is free, and the header behind it is
the guard. -/
def freshMem (P : Platform) (m : Mem) (start size : Nat) : Mem :=
  (((initSentinels P m [0, 1, 2, 3, 4, 5]).store32 (start + size - 4) size).store32 start
    (tagged size false true)).store32 (start + size) (tagged 0 true false)

/-- The heap with one free chunk. -/
def freshHeap (P : Platform) (m : Mem) (start size : Nat) : Heap where
  mem := linkChunk P (freshMem P m start size) (sentinelHdr P (chunkSizeToListIndex size)) start
  heapStart := start
  cached := 0
  highWaterMark := 0
  highWaterMarkJustUpdated := false
  curAllocSize := 0
  maxAllocSize := 0

/-- The members of the lists of a fresh heap. -/
def freshLists (start size : Nat) : Fin 6 → List Nat :=
  Function.update (fun _ => []) (listIndex size) [start]

/-- `mcu_heap_init` accepts a heap of at least 12 bytes. The guard takes four of them. -/
theorem mcuHeapInit_eq {dataEnd size : Nat} (hadj : adjustDataEnd dataEnd = some start)
    (hend : start + size + 4 = P.ramEnd) (hlt : P.ramEnd < 2 ^ 32) (h4 : size % 4 = 0)
    (hge : 8 ≤ size) : mcuHeapInit P m dataEnd = some (freshHeap P m start size) := by
  have hinit : wsub (P.ramEnd - start) guardSize = size := by
    rw [guardSize, wsub_eq (by omega) (by omega)]
    omega
  have h1 : ¬ P.ramEnd < start := by omega
  have h2 : ¬ P.ramEnd - start < freeChunkMinSize := by simp only [freeChunkMinSize]; omega
  have hh₁ : HeaderAt (((initSentinels P m [0, 1, 2, 3, 4, 5]).store32 (start + size - 4)
      size).store32 start (tagged size false false)) start size false false :=
    HeaderAt.store (by omega) (by omega)
  have hh₂ : HeaderAt (((initSentinels P m [0, 1, 2, 3, 4, 5]).store32 (start + size - 4)
      size).store32 start (tagged size false true)) start size false true :=
    HeaderAt.store (by omega) (by omega)
  simp only [mcuHeapInit, hadj, if_neg h1, if_neg h2, hinit, guard_eq]
  rw [setFreeChunkHdrFtr_eq _ _ _ (by omega) (by omega) (by omega), hh₁.setLeftAllocated_eq,
    Mem.store32_store32_same, hh₂.hdrToRightHdr_eq (by omega)]
  rfl

/-- Which heaps `mcu_heap_init` accepts. -/
theorem adjustDataEnd_of_mcuHeapInit {dataEnd : Nat} {h : Heap}
    (hinit : mcuHeapInit P m dataEnd = some h) :
    adjustDataEnd dataEnd = some h.heapStart ∧ h.heapStart + 12 ≤ P.ramEnd := by
  simp only [mcuHeapInit] at hinit
  split at hinit
  · cases hinit
  · rename_i start hadj
    split at hinit
    · cases hinit
    · split at hinit
      · cases hinit
      · rename_i hlt hroom
        obtain rfl := Option.some.inj hinit
        simp only [freeChunkMinSize] at hroom
        exact ⟨hadj, by simp only; omega⟩

/-- Every heap that `mcu_heap_init` accepts is a fresh heap. -/
theorem freshHeap_of_mcuHeapInit {dataEnd : Nat} {h : Heap} (hv : P.Valid dataEnd)
    (hinit : mcuHeapInit P m dataEnd = some h) :
    ∃ start size, adjustDataEnd dataEnd = some start ∧ h = freshHeap P m start size ∧
      P.Valid start ∧ start % 8 = 4 ∧ start + size + 4 = P.ramEnd ∧ 8 ≤ size ∧ size % 8 = 0 := by
  obtain ⟨hadj, hroom⟩ := adjustDataEnd_of_mcuHeapInit hinit
  obtain ⟨hmod, hle⟩ := adjustDataEnd_spec hadj
  have hend := hv.ramEnd_aligned
  obtain ⟨size, hsize⟩ : ∃ size, h.heapStart + size + 4 = P.ramEnd :=
    ⟨P.ramEnd - h.heapStart - 4, by omega⟩
  have heq := mcuHeapInit_eq (m := m) hadj hsize hv.ramEnd_lt (by omega) (by omega)
  exact ⟨h.heapStart, size, hadj, Option.some.inj (hinit.symm.trans heq),
    { hv with sentinels_le := le_trans hv.sentinels_le hle }, hmod, hsize, by omega, by omega⟩

section Fresh

variable {size : Nat}

theorem lists_freshMem (hv : P.Valid start) (hend : start + size + 4 = P.ramEnd) (hge : 8 ≤ size) :
    Lists P (freshMem P m start size) (fun _ => []) fun _ _ => False := by
  refine (lists_initSentinels (m := m) hv (by omega)).congr fun n hn y hy hy' => ?_
  obtain ⟨i, rfl⟩ : ∃ i : Fin 6, n = sentinelHdr P i := by simpa [ListNode] using hn
  have := hv.sentinels_le
  have := i.isLt
  simp only [sentinelHdr] at hy hy'
  rw [freshMem, Mem.store32_of_lt (by omega), Mem.store32_of_lt (by omega),
    Mem.store32_of_lt (by omega)]

/-- The lists of a fresh heap, and what linking the chunk leaves alone. -/
theorem lists_freshHeap (hv : P.Valid start) (hmod : start % 8 = 4)
    (hend : start + size + 4 = P.ramEnd) (hge : 8 ≤ size) :
    Lists P (freshHeap P m start size).mem (freshLists start size) (fun y t => y = start ∧ t = size) ∧
      ∀ y, start ≤ y → y < start + 4 ∨ start + 8 ≤ y →
        (freshHeap P m start size).mem y = freshMem P m start size y := by
  have hnode : Node P start := hv.node hmod le_rfl rfl (by omega)
  obtain ⟨hlists, nodes, hnodes, hm⟩ :=
    (lists_freshMem (m := m) hv hend hge).link hnode hv.sentinels_le (fun _ => id) size
  refine ⟨hlists.congr_free fun y t => by simp, fun y hy hout => hm y ?_⟩
  rintro ⟨n, hn, hn1, hn2⟩
  rcases hnodes n hn with rfl | ⟨i, rfl⟩ | ⟨t, ht⟩
  · omega
  · have := hv.sentinels_le
    have := i.isLt
    simp only [sentinelHdr] at hn2
    omega
  · exact ht

theorem header_freshHeap (hv : P.Valid start) (hmod : start % 8 = 4)
    (hend : start + size + 4 = P.ramEnd) (hge : 8 ≤ size) (h4 : size % 4 = 0) :
    HeaderAt (freshHeap P m start size).mem start size false true := by
  have hlt := hv.ramEnd_lt
  have hmem : HeaderAt (freshMem P m start size) start size false true :=
    (HeaderAt.store h4 (by omega)).congr (Mem.agreeOn_store32 (by omega))
  exact hmem.congr fun y hy hy' => (lists_freshHeap hv hmod hend hge).2 y hy (Or.inl hy')

/-- A fresh heap with at least 16 bytes for the chunk has the invariant. -/
theorem inv_freshHeap (hv : P.Valid start) (hmod : start % 8 = 4)
    (hend : start + size + 4 = P.ramEnd) (hge : 16 ≤ size) (h8 : size % 8 = 0) :
    Inv P (freshHeap P m start size) [Around.freeChunk size hge h8] (freshLists start size) := by
  have hlt := hv.ramEnd_lt
  have hhdr : HeaderAt (freshMem P m start size) start size false true :=
    (HeaderAt.store (by omega) (by omega)).congr (Mem.agreeOn_store32 (by omega))
  have hftr : (freshMem P m start size).load32 (start + size - 4) = size := by
    rw [freshMem, Mem.load32_store32_disjoint (by omega), Mem.load32_store32_disjoint (by omega)]
    exact Mem.load32_store32_same (by omega)
  have ha : Around P (freshMem P m start size) start [] size false [] fun _ => [] := by
    refine ⟨hv, hmod, hge, h8, by simp only [extent]; omega, rfl, trivial, ?_, ?_⟩
    · exact tail_nil.mpr (Mem.load32_store32_same (tagged_lt rfl (by decide)))
    · exact (lists_freshMem hv hend (by omega)).congr_free fun x t => by simp [freeIn, placed]
  obtain ⟨htail, hlists⟩ := ha.placeFree hhdr hftr
  refine ⟨hv, hmod, ?_, htail, List.isChain_singleton _, hlists, by simp [freshHeap]⟩
  simp only [extent, Around.freeChunk, freshHeap]
  omega

end Fresh

end Hopter.Allocator
