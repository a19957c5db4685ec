-- SUMMARY: When `mcu_malloc` finds a chunk: exactly when one that fits is in its reach.
import Hopter.Allocator.Accounting

/-!
# Out of memory

`search_first_fit` starts behind the size class of the request, and `mcu_malloc` takes the cached
chunk only when it is not much larger than the request. So a chunk that is large enough can be out
of reach: a free chunk in the class of the request itself, or a large cached chunk.
-/

namespace Hopter.Allocator

open Word

/-- The chunk size for a request: header overhead, minimum, multiple of 8. -/
def requestSize (size : Nat) : Nat := (max (size + 4) 16 + 7) / 8 * 8

namespace Heap

/-- A free chunk or the cached chunk has at least `n` bytes. -/
def HasFit (P : Platform) (h : Heap) (n : Nat) : Prop :=
  ∃ a ∈ h.headers P, (isThisFree h.mem a = true ∨ a = h.cached) ∧ n ≤ getHdrChunkSize h.mem a

/-- The cached chunk fits with at most 512 bytes to spare, or a free chunk that fits is in one of
the lists that the search visits. -/
def InReach (P : Platform) (h : Heap) (n : Nat) : Prop :=
  (h.cached ≠ 0 ∧ n ≤ getHdrChunkSize h.mem h.cached ∧ getHdrChunkSize h.mem h.cached ≤ n + 512) ∨
    ∃ a ∈ h.headers P, isThisFree h.mem a = true ∧ n ≤ getHdrChunkSize h.mem a ∧
      min (chunkSizeToListIndex n + 1) 5 ≤ chunkSizeToListIndex (getHdrChunkSize h.mem a)

end Heap

variable {P : Platform} {m : Mem} {h : Heap} {n size start dataEnd : Nat} {cs : List Chunk}
  {ls : Fin 6 → List Nat} {s s₀ : Client}

theorem roundRequest_eq (hsize : size ≤ 2 ^ 31 - 1) : roundRequest size = requestSize size := by
  have h1 : wadd size hdrSize = size + 4 := wadd_eq (by simp only [hdrSize]; omega)
  have h2 : wadd (max (size + 4) 16) 7 = max (size + 4) 16 + 7 := wadd_eq (by omega)
  have h3 : (max (size + 4) 16 + 7) &&& 0xFFFFFFF8 = (max (size + 4) 16 + 7) / 8 * 8 := by
    rw [and_clearLow 3 (by decide) (by omega) (by decide), Nat.mul_comm]
    rfl
  simp only [roundRequest, requestSize, h1, h2, h3]

-- ---------------------------------------------------------------------------
-- The search
-- ---------------------------------------------------------------------------

/-- The search succeeds exactly when a list that it visits has a chunk that fits. -/
theorem Lists.searchFirstFit_ne_zero {free : Nat → Nat → Prop} (h : Lists P m ls free)
    (hlen : ∀ i, (ls i).length < searchFuel) : ∃ x, searchFirstFit P m n = some x ∧
      (x ≠ 0 ↔ ∃ y t, free y t ∧ n ≤ getHdrChunkSize m y ∧
        min (chunkSizeToListIndex n + 1) 5 ≤ chunkSizeToListIndex t) := by
  refine ⟨_, h.searchFirstFit_eq_find hlen, ?_⟩
  cases hfind : ((searched n).flatMap ls).find? fun x => decide (n ≤ getHdrChunkSize m x) with
  | none =>
    have hnone := List.find?_eq_none.mp hfind
    simp only [Option.getD_none, ne_eq, not_true_eq_false, false_iff, not_exists, not_and, not_le]
    intro y t hy hfit
    by_contra hidx
    refine hnone y (List.mem_flatMap.mpr ⟨listIndex t, ?_, (h.members _ _).mpr ⟨t, hy, rfl⟩⟩)
      (by simpa using hfit)
    simpa [searched, listIndex] using Nat.le_of_not_lt hidx
  | some x =>
    have hfit := List.find?_some hfind
    obtain ⟨i, hi, hx⟩ := List.mem_flatMap.mp (List.mem_of_find?_eq_some hfind)
    obtain ⟨t, ht, rfl⟩ := (h.members i x).mp hx
    have hne : x ≠ 0 := by
      have := h.outside ht
      omega
    simp only [Option.getD_some, ne_eq, hne, not_false_eq_true, true_iff]
    exact ⟨x, t, ht, by simpa using hfit, by simpa [searched, listIndex] using hi⟩

/-- What the lists hold, in the terms of the walk over the headers. -/
theorem Inv.exists_free_iff (hinv : Inv P h cs ls) {p : Nat → Nat → Prop} :
    (∃ y t, freeIn h.heapStart cs y t ∧ p y t) ↔
      ∃ a ∈ h.headers P, isThisFree h.mem a = true ∧ p a (getHdrChunkSize h.mem a) := by
  rw [hinv.headers_eq]
  constructor
  · rintro ⟨y, _, ⟨c, hc, hfree, rfl⟩, hp⟩
    obtain ⟨hthis, hsize⟩ := hinv.header_eq hc
    refine ⟨y, List.mem_map.mpr ⟨_, hc, rfl⟩, ?_, hsize ▸ hp⟩
    rw [hthis, Chunk.allocated_eq_false.mpr hfree]
    rfl
  · rintro ⟨a, ha, hthis, hp⟩
    obtain ⟨⟨y, c⟩, hc, rfl⟩ := List.mem_map.mp ha
    obtain ⟨hfree, hsize⟩ := hinv.header_eq hc
    refine ⟨y, c.size, ⟨c, hc, Chunk.allocated_eq_false.mp ?_, rfl⟩, hsize ▸ hp⟩
    simpa [hfree] using hthis

/-- `mcu_malloc` returns, and it returns null exactly when no chunk is in reach. -/
theorem Inv.mcuMalloc_ne_zero (hinv : Inv P h cs ls) (hpos : 0 < size) (hsize : size ≤ 2 ^ 31 - 1) :
    ∃ h' p, Allocator.mcuMalloc P h size = some (h', p) ∧ (p ≠ 0 ↔ h.InReach P (requestSize size)) := by
  have h0 : size ≠ 0 := by omega
  rw [← roundRequest_eq hsize]
  by_cases hhit : h.cached ≠ 0 ∧ roundRequest size ≤ getHdrChunkSize h.mem h.cached ∧
      getHdrChunkSize h.mem h.cached - roundRequest size ≤ 512
  · obtain ⟨c, hc, -⟩ := hinv.cached hhit.1
    have hb := hinv.partly.bounds hc
    have hpayload : hdrToPayload h.cached = h.cached + 4 := wadd_eq (by omega)
    refine ⟨{ h with cached := 0 }, h.cached + 4, ?_, ?_⟩
    · simp only [Allocator.mcuMalloc, if_neg h0, if_pos hhit, hpayload]
    · have hreach : h.InReach P (roundRequest size) := Or.inl ⟨hhit.1, hhit.2.1, by omega⟩
      simp [hreach]
  · obtain ⟨x, hx, hfound⟩ :=
      hinv.lists.searchFirstFit_ne_zero (n := roundRequest size) hinv.length_lt
    have hreach : h.InReach P (roundRequest size) ↔ x ≠ 0 := by
      rw [hfound, Heap.InReach,
        hinv.exists_free_iff (p := fun y t => roundRequest size ≤ getHdrChunkSize h.mem y ∧
          min (chunkSizeToListIndex (roundRequest size) + 1) 5 ≤ chunkSizeToListIndex t)]
      exact ⟨fun h => h.resolve_left fun hc => hhit ⟨hc.1, hc.2.1, by omega⟩, Or.inr⟩
    by_cases hx0 : x = 0
    · refine ⟨h, 0, ?_, by simp [hreach, hx0]⟩
      simp only [Allocator.mcuMalloc, if_neg h0, if_neg hhit, hx, if_pos hx0]
    · obtain ⟨y, hy, hyfound⟩ := hinv.lists.searchFirstFit_spec (n := roundRequest size)
        hinv.length_lt
      obtain rfl : x = y := Option.some.inj (hx.symm.trans hy)
      obtain ⟨-, t, c, hc, -⟩ := hyfound hx0
      have hb := hinv.partly.bounds hc
      have hpayload : hdrToPayload x = x + 4 := wadd_eq (by omega)
      have htake : (Allocator.takeChunk P h x (roundRequest size)).2 = x + 4 := hpayload
      refine ⟨(Allocator.takeChunk P h x (roundRequest size)).1, x + 4, ?_, by simp [hreach, hx0]⟩
      simp only [Allocator.mcuMalloc, if_neg h0, if_neg hhit, hx, if_neg hx0, ← htake]

/-- No chunk has the size that a request of two gigabytes needs. -/
theorem Inv.not_hasFit (hinv : Inv P h cs ls) (hn : 2 ^ 31 ≤ n) : ¬ h.HasFit P n := by
  rintro ⟨a, ha, -, hfit⟩
  rw [hinv.headers_eq] at ha
  obtain ⟨⟨y, c⟩, hc, rfl⟩ := List.mem_map.mp ha
  have hle : n ≤ c.size := (hinv.header_eq hc).2 ▸ hfit
  have := placed_bounds hc
  have := hinv.end_eq
  have := hinv.valid.ramEnd_le
  have := hinv.valid.offset_le
  have := hinv.valid.sentinels_le
  omega

theorem Inv.mcuMalloc_returns (hinv : Inv P h cs ls) (size : Nat) :
    ∃ h' p, Allocator.mcuMalloc P h size = some (h', p) := by
  obtain ⟨x, hx, -⟩ := hinv.lists.searchFirstFit_spec (n := roundRequest size) hinv.length_lt
  simp only [Allocator.mcuMalloc, hx]
  split
  · exact ⟨_, _, rfl⟩
  · split
    · exact ⟨_, _, rfl⟩
    · split
      · exact ⟨_, _, rfl⟩
      · exact ⟨_, _, rfl⟩

-- ---------------------------------------------------------------------------
-- Runs
-- ---------------------------------------------------------------------------

/-- A request gets a chunk when there is one, and null only when there is none. -/
structure MallocOk (P : Platform) (h : Heap) (size p : Nat) : Prop where
  found : h.HasFit P (requestSize size) → p ≠ 0
  null : p = 0 → ¬ h.HasFit P (requestSize size)

theorem mallocOk_iff {p : Nat} (hp : p ≠ 0 ↔ h.InReach P (requestSize size)) :
    MallocOk P h size p ↔ (h.HasFit P (requestSize size) → h.InReach P (requestSize size)) := by
  rw [← hp]
  exact ⟨MallocOk.found, fun hfound => ⟨hfound, fun h0 hfit => hfound hfit h0⟩⟩

theorem Inv.mallocOk_iff (hinv : Inv P h cs ls) (hpos : 0 < size) :
    ∃ h' p, Allocator.mcuMalloc P h size = some (h', p) ∧ (MallocOk P h size p ↔
      (h.HasFit P (requestSize size) → h.InReach P (requestSize size))) := by
  by_cases hsize : size ≤ 2 ^ 31 - 1
  · obtain ⟨h', p, heq, hp⟩ := hinv.mcuMalloc_ne_zero hpos hsize
    exact ⟨h', p, heq, Allocator.mallocOk_iff hp⟩
  · -- Such a request can be satisfied by no chunk, whatever the rounding makes of it.
    obtain ⟨h', p, heq⟩ := hinv.mcuMalloc_returns size
    have hno : ¬ h.HasFit P (requestSize size) :=
      hinv.not_hasFit (by simp only [requestSize]; omega)
    exact ⟨h', p, heq, fun _ hfit => absurd hfit hno,
      fun _ => ⟨fun hfit => absurd hfit hno, fun _ => hno⟩⟩

/-- In every state that a run reaches, a request gets a chunk if there is one exactly when a chunk
that fits is in reach, if there is one. -/
theorem Client.exec_mallocOk (hv : P.Valid dataEnd) (hinit : Client.init P m dataEnd = some s₀)
    {calls : List Call} (hok : Run.Allowed (Client.step P) Client.Legal s₀ calls) (hpos : 0 < size) :
    ∃ s h' p, Run.exec (Client.step P) s₀ calls = some s ∧ mcuMalloc P s.heap size = some (h', p) ∧
      (MallocOk P s.heap size p ↔
        (s.heap.HasFit P (requestSize size) → s.heap.InReach P (requestSize size))) := by
  obtain ⟨h, hh, rfl⟩ := Option.map_eq_some_iff.mp hinit
  obtain ⟨start, n, -, rfl, hv', hmod, hend, hge, h8⟩ := freshHeap_of_mcuHeapInit hv hh
  by_cases hsmall : n = 8
  · subst hsmall
    have htotal : ∀ {t : Client} {call : Call}, t = ⟨freshHeap P m start 8, []⟩ → t.Legal call →
        ∃ t', t.step P call = some t' ∧ t' = ⟨freshHeap P m start 8, []⟩ := by
      rintro _ call rfl hlegal
      exact ⟨_, step_smallest hv' hmod hend hlegal, rfl⟩
    obtain ⟨_, hrun, rfl⟩ := Run.exec_total _ htotal rfl hok
    obtain ⟨hheaders, -, hsize⟩ := headers_smallest (m := m) hv' hmod hend
    have hno : ¬ (freshHeap P m start 8).HasFit P (requestSize size) := by
      rintro ⟨a, ha, -, hfit⟩
      rw [hheaders, List.mem_singleton] at ha
      subst ha
      rw [hsize, requestSize] at hfit
      omega
    exact ⟨_, _, _, hrun, mcuMalloc_smallest hv' hmod hend size, fun _ hfit => absurd hfit hno,
      fun _ => ⟨fun hfit => absurd hfit hno, fun _ => hno⟩⟩
  · have hfresh : ∃ cs ls, Client.Inv P ⟨freshHeap P m start n, []⟩ cs ls :=
      ⟨_, _, inv_freshHeap hv' hmod hend (by omega) h8, by simp, by simp⟩
    obtain ⟨s, hrun, cs, ls, hinv⟩ := Run.exec_total _ Inv.step_total hfresh hok
    obtain ⟨h', p, heq, hiff⟩ := hinv.heap.mallocOk_iff hpos
    exact ⟨s, h', p, hrun, heq, hiff⟩

theorem Client.exec_mallocOk_smallBoard :
    ∃ s₀ s h' p, Client.init smallBoard (fun _ => 0) 0x20000030 = some s₀ ∧
      Run.exec (Client.step smallBoard) s₀ [.malloc 40] = some s ∧
      mcuMalloc smallBoard s.heap 8 = some (h', p) ∧ (MallocOk smallBoard s.heap 8 p ↔
        (s.heap.HasFit smallBoard (requestSize 8) → s.heap.InReach smallBoard (requestSize 8))) := by
  have hinit := mcuHeapInit_eq (P := smallBoard) (m := fun _ => 0)
    (show adjustDataEnd 0x20000030 = some 0x20000034 by decide)
    (show 0x20000034 + 200 + 4 = smallBoard.ramEnd by decide) (by decide) (by decide) (by decide)
  have hok : Run.Allowed (Client.step smallBoard) Client.Legal
      ⟨freshHeap smallBoard (fun _ => 0) 0x20000034 200, []⟩ [.malloc 40] :=
    ⟨by simp [Client.Legal], fun _ _ => trivial⟩
  have hstart : Client.init smallBoard (fun _ => 0) 0x20000030 = some ⟨_, []⟩ :=
    Option.map_eq_some_iff.mpr ⟨_, hinit, rfl⟩
  obtain ⟨s, h', p, hrun, heq, hiff⟩ := Client.exec_mallocOk smallBoard_valid hstart hok
    (show 0 < 8 by decide)
  exact ⟨_, s, h', p, hstart, hrun, heq, hiff⟩

/-- The fresh heap of the small board is a free chunk of 200 bytes, and a request of 124 bytes
gets null. -/
theorem mcuMalloc_misses_fit :
    ∃ h h', mcuHeapInit smallBoard (fun _ => 0) 0x20000030 = some h ∧
      getHdrChunkSize h.mem h.heapStart = 200 ∧ requestSize 124 = 128 ∧
      mcuMalloc smallBoard h 124 = some (h', 0) ∧ ¬ MallocOk smallBoard h 124 0 := by
  have hend : 0x20000034 + 200 + 4 = smallBoard.ramEnd := by decide
  have hv : smallBoard.Valid 0x20000034 := by constructor <;> decide
  have hinit := mcuHeapInit_eq (P := smallBoard) (m := fun _ => 0)
    (show adjustDataEnd 0x20000030 = some 0x20000034 by decide) hend (by decide) (by decide) (by decide)
  have hinv := inv_freshHeap (m := fun _ => 0) hv (by decide) hend (by decide) (by decide)
  have hhdr := header_freshHeap (m := fun _ => 0) hv (by decide) hend (by decide) (by decide)
  have hheaders : (freshHeap smallBoard (fun _ => 0) 0x20000034 200).headers smallBoard =
      [0x20000034] := hinv.headers_eq
  have hfit : (freshHeap smallBoard (fun _ => 0) 0x20000034 200).HasFit smallBoard
      (requestSize 124) := by
    refine ⟨0x20000034, by simp [hheaders], Or.inl hhdr.isThisFree_eq, ?_⟩
    rw [hhdr.getHdrChunkSize_eq]
    decide
  obtain ⟨h', p, heq, hp⟩ := hinv.mcuMalloc_ne_zero (show 0 < 124 by decide) (by decide)
  have hreach : ¬ (freshHeap smallBoard (fun _ => 0) 0x20000034 200).InReach smallBoard
      (requestSize 124) := by
    rintro (⟨h0, -⟩ | ⟨a, ha, -, -, hidx⟩)
    · exact h0 rfl
    · rw [hheaders, List.mem_singleton] at ha
      subst ha
      rw [hhdr.getHdrChunkSize_eq] at hidx
      revert hidx
      decide
  obtain rfl : p = 0 := by
    by_contra hne
    exact hreach (hp.mp hne)
  exact ⟨_, h', hinit, hhdr.getHdrChunkSize_eq, by decide, heq, fun hok => hok.found hfit rfl⟩

end Hopter.Allocator
