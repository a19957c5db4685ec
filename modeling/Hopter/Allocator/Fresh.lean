-- SUMMARY: The heap that `mcu_heap_init` leaves is well formed exactly when there is room for a chunk of 16 bytes.
import Hopter.Allocator.Client

/-!
# The fresh heap

`mcu_heap_init` checks that there is room for a free chunk of the minimal size, and then takes
four bytes of that room for the guard. When exactly the minimum is there, the only chunk has 8
bytes, and the links of the chunk are written over its footer.
-/

namespace Hopter.Allocator

open Word

/-- The heap is one free chunk, in the list of its size. -/
structure OneChunk (P : Platform) (h : Heap) : Prop where
  /-- The header and the links end before the footer. -/
  apart : h.heapStart + 8 ≤ hdrToFtr h.mem h.heapStart
  footer : h.mem.load32 (hdrToFtr h.mem h.heapStart) = getHdrChunkSize h.mem h.heapStart
  free : isThisFree h.mem h.heapStart = true
  leftAllocated : isLeftFree h.mem h.heapStart = false
  /-- The guard is in the last word of the RAM. -/
  right : hdrToRightHdr h.mem h.heapStart = P.ramEnd - 4
  guard : getHdrChunkSize h.mem (P.ramEnd - 4) = 0 ∧ isThisFree h.mem (P.ramEnd - 4) = false ∧
    isLeftFree h.mem (P.ramEnd - 4) = true
  lists : ∃ ls, WellFormed P h [h.heapStart] ls ∧
    ∀ i : Fin 6, ls i =
      if chunkSizeToListIndex (getHdrChunkSize h.mem h.heapStart) = i then [h.heapStart] else []

variable {P : Platform} {m : Mem} {start size : Nat}

theorem oneChunk_freshHeap (hv : P.Valid start) (hmod : start % 8 = 4)
    (hend : start + size + 4 = P.ramEnd) (hge : 16 ≤ size) (h8 : size % 8 = 0) :
    OneChunk P (freshHeap P m start size) := by
  have hlt := hv.ramEnd_lt
  have hinv := inv_freshHeap (m := m) hv hmod hend hge h8
  have hwf := hinv.wellFormed
  have hhdr := header_freshHeap (m := m) hv hmod hend (by omega) (by omega)
  simp only [placed, List.map_cons, List.map_nil] at hwf
  have hftr : hdrToFtr (freshHeap P m start size).mem start = start + size - 4 :=
    hhdr.hdrToFtr_eq (by omega) (by omega)
  have hright : hdrToRightHdr (freshHeap P m start size).mem start = P.ramEnd - 4 :=
    (hhdr.hdrToRightHdr_eq (by omega)).trans (by omega)
  have hstart : (freshHeap P m start size).heapStart = start := rfl
  rw [hstart] at hwf
  have hfree : isThisFree (freshHeap P m start size).mem start = true := hhdr.isThisFree_eq
  refine
    { apart := by rw [hstart, hftr]; omega
      footer := hwf.footer start (by simp) hfree
      free := hfree
      leftAllocated := hwf.firstFlag
      right := hright
      guard := ⟨hwf.guard.1, hwf.guard.2, ?_⟩
      lists := ⟨freshLists start size, hwf, fun i => ?_⟩ }
  · have hflags := (List.isChain_cons_cons.mp hwf.flags).1
    exact hflags.trans hfree
  · rw [hstart, hhdr.getHdrChunkSize_eq, freshLists]
    by_cases hi : listIndex size = i
    · subst hi
      simp [listIndex]
    · have hne : chunkSizeToListIndex size ≠ i := fun heq => hi (Fin.ext heq)
      rw [Function.update_of_ne (Ne.symm hi), if_neg hne]

/-- `mcu_heap_init` leaves one free chunk exactly when the heap is not as small as it accepts. -/
theorem mcuHeapInit_oneChunk {dataEnd : Nat} {h : Heap} (hv : P.Valid dataEnd)
    (hinit : mcuHeapInit P m dataEnd = some h) :
    OneChunk P h ↔ adjustDataEnd dataEnd ≠ some (P.ramEnd - 12) := by
  obtain ⟨start, size, hadj, rfl, hv', hmod, hend, hge, h8⟩ := freshHeap_of_mcuHeapInit hv hinit
  have hlt := hv'.ramEnd_lt
  rw [hadj]
  constructor
  · intro hone heq
    obtain rfl : start = P.ramEnd - 12 := Option.some.inj heq
    obtain rfl : size = 8 := by omega
    -- The footer of a chunk of 8 bytes is where its links are.
    have hftr := (header_freshHeap (m := m) hv' hmod hend (by omega) (by omega)).hdrToFtr_eq
      (by omega) (by omega)
    have hapart := hone.apart
    simp only [freshHeap] at hapart hftr
    omega
  · intro hne
    refine oneChunk_freshHeap hv' hmod hend ?_ h8
    by_contra hsmall
    exact hne (congrArg some (by omega))

theorem mcuHeapInit_oneChunk_smallBoard : ∃ h,
    mcuHeapInit smallBoard (fun _ => 0) 0x20000030 = some h ∧
      (OneChunk smallBoard h ↔ adjustDataEnd 0x20000030 ≠ some (smallBoard.ramEnd - 12)) := by
  have hinit := mcuHeapInit_eq (P := smallBoard) (m := fun _ => 0)
    (show adjustDataEnd 0x20000030 = some 0x20000034 by decide)
    (show 0x20000034 + 200 + 4 = smallBoard.ramEnd by decide) (by decide) (by decide) (by decide)
  exact ⟨_, hinit, mcuHeapInit_oneChunk smallBoard_valid hinit⟩

/-- The smallest heap that `mcu_heap_init` accepts has a chunk of 8 bytes. Its footer holds the
links of the chunk and not its size. -/
theorem smallest_heap_overlaps : ∃ h, mcuHeapInit smallBoard (fun _ => 0) 0x200000F4 = some h ∧
    getHdrChunkSize h.mem h.heapStart = 8 ∧ hdrToFtr h.mem h.heapStart = h.heapStart + 4 ∧
      h.mem.load32 (h.heapStart + 4) = 0 ∧ ¬ OneChunk smallBoard h := by
  have hv : smallBoard.Valid 0x200000F4 := by constructor <;> decide
  have hinit := mcuHeapInit_eq (P := smallBoard) (m := fun _ => 0)
    (show adjustDataEnd 0x200000F4 = some 0x200000F4 by decide)
    (show 0x200000F4 + 8 + 4 = smallBoard.ramEnd by decide) (by decide) (by decide) (by decide)
  have hhdr := header_freshHeap (m := fun _ => 0) hv (by decide)
    (show 0x200000F4 + 8 + 4 = smallBoard.ramEnd by decide) (by decide) (by decide)
  have hftr := hhdr.hdrToFtr_eq (by decide) (by decide)
  refine ⟨_, hinit, hhdr.getHdrChunkSize_eq, hftr, by decide +kernel, fun hone => ?_⟩
  have hapart := hone.apart
  simp only [freshHeap] at hapart hftr
  omega

-- ---------------------------------------------------------------------------
-- The smallest heap
-- ---------------------------------------------------------------------------

/-- The list of a chunk of 8 bytes is never searched. -/
theorem searched_freshLists (n : Nat) : (searched n).flatMap (freshLists start 8) = [] := by
  refine List.flatMap_eq_nil_iff.mpr fun i hi => ?_
  have hge : min (chunkSizeToListIndex n + 1) 5 ≤ i.val := by simpa [searched] using hi
  have hne : i ≠ listIndex 8 := by
    have h0 : listIndex 8 = 0 := by decide
    rintro rfl
    rw [h0] at hge
    simp only [Fin.val_zero] at hge
    omega
  exact Function.update_of_ne hne ..

/-- Nothing can be allocated on a heap with a chunk of 8 bytes. -/
theorem mcuMalloc_smallest (hv : P.Valid start) (hmod : start % 8 = 4)
    (hend : start + 8 + 4 = P.ramEnd) (n : Nat) :
    mcuMalloc P (freshHeap P m start 8) n = some (freshHeap P m start 8, 0) := by
  have hlists := (lists_freshHeap (m := m) hv hmod hend le_rfl).1
  have hlen : ∀ i, (freshLists start 8 i).length < searchFuel := by
    intro i
    rw [freshLists, Function.update_apply]
    split <;> simp [searchFuel]
  have hsearch : searchFirstFit P _ (roundRequest n) = _ := hlists.searchFirstFit_eq_find hlen
  rw [searched_freshLists] at hsearch
  by_cases h0 : n = 0
  · rw [mcuMalloc, if_pos h0]
  · have hcached : (freshHeap P m start 8).cached = 0 := rfl
    rw [mcuMalloc, if_neg h0, if_neg fun hhit => hhit.1 hcached]
    simp [hsearch]

end Hopter.Allocator
