-- SUMMARY: The books of the heap: allocated size, its maximum and the high water mark, in every run.
import Hopter.Allocator.Fresh

/-!
# Accounting

`CUR_ALLOC_SIZE` is charged when a chunk is taken out of the free lists, and credited when the
chunk leaves the cache of `mcu_free`. In between, the chunk is marked allocated. The sizes below
are those that a walk over the chunk headers finds.
-/

namespace Hopter.Allocator

open Word

/-- The headers that the walk from `a` visits before the guard. -/
def walkHeaders (P : Platform) (m : Mem) : Nat → Nat → List Nat
  | 0, _ => []
  | fuel + 1, a =>
    if a = P.ramEnd - 4 then [] else a :: walkHeaders P m fuel (hdrToRightHdr m a)

namespace Heap

/-- The chunk headers in the order of their addresses. -/
def headers (P : Platform) (h : Heap) : List Nat :=
  walkHeaders P h.mem (P.ramEnd - h.heapStart) h.heapStart

def usedHeaders (P : Platform) (h : Heap) : List Nat :=
  (h.headers P).filter fun a => !isThisFree h.mem a

def freeHeaders (P : Platform) (h : Heap) : List Nat := (h.headers P).filter (isThisFree h.mem)

/-- The total size of the chunks that are marked allocated. -/
def usedSize (P : Platform) (h : Heap) : Nat := ((h.usedHeaders P).map (getHdrChunkSize h.mem)).sum

def freeSize (P : Platform) (h : Heap) : Nat := ((h.freeHeaders P).map (getHdrChunkSize h.mem)).sum

/-- The largest end address of a chunk that is marked allocated. -/
def usedEnd (P : Platform) (h : Heap) : Nat :=
  Run.peak (fun a => a + getHdrChunkSize h.mem a) (h.usedHeaders P)

end Heap

variable {P : Platform} {m : Mem} {h : Heap} {a start size dataEnd : Nat} {left : Bool}
  {cs cs' : List Chunk} {ls : Fin 6 → List Nat} {s s₀ : Client}

-- ---------------------------------------------------------------------------
-- The walk
-- ---------------------------------------------------------------------------

theorem Tail.walkHeaders_eq {fuel : Nat} (h : Tail m a left cs) (hlt : a + extent cs < 2 ^ 32)
    (hend : a + extent cs = P.ramEnd - 4) (hfuel : cs.length < fuel) :
    walkHeaders P m fuel a = (placed a cs).map Prod.fst := by
  induction cs generalizing a left fuel with
  | nil =>
    obtain ⟨fuel, rfl⟩ : ∃ n, fuel = n + 1 := ⟨fuel - 1, by simp at hfuel; omega⟩
    simp only [extent, Nat.add_zero] at hend
    simp [walkHeaders, placed, hend]
  | cons c cs ih =>
    obtain ⟨fuel, rfl⟩ : ∃ n, fuel = n + 1 := ⟨fuel - 1, by simp at hfuel; omega⟩
    obtain ⟨hc, hrest⟩ := tail_cons.mp h
    have hsize := c.le_size
    simp only [extent] at hlt hend
    have hne : a ≠ P.ramEnd - 4 := by omega
    rw [walkHeaders, if_neg hne, (hc.headerAt (by omega)).hdrToRightHdr_eq (by omega)]
    simp only [placed, List.map_cons]
    rw [ih hrest (by omega) (by omega) (Nat.lt_of_succ_lt_succ hfuel)]

/-- The walk visits the chunks. -/
theorem Inv.headers_eq (hinv : Inv P h cs ls) :
    h.headers P = (placed h.heapStart cs).map Prod.fst := by
  have hend := hinv.end_eq
  have hlt := hinv.valid.ramEnd_lt
  have hlen := length_le_extent cs
  exact hinv.tail.walkHeaders_eq (by omega) (by omega) (by omega)

/-- What the headers say about the chunks. -/
theorem Inv.header_eq (hinv : Inv P h cs ls) {p : Nat × Chunk} (hp : p ∈ placed h.heapStart cs) :
    isThisFree h.mem p.1 = !p.2.allocated ∧ getHdrChunkSize h.mem p.1 = p.2.size := by
  have hend := hinv.end_eq
  have hlt := hinv.valid.ramEnd_lt
  obtain ⟨flag, -, hhdr⟩ := placed_header hinv.tail (by omega) (x := p.1) (c := p.2) hp
  exact ⟨hhdr.isThisFree_eq, hhdr.getHdrChunkSize_eq⟩

/-- The allocated chunks of a run with their addresses. -/
def placedUsed (a : Nat) (cs : List Chunk) : List (Nat × Chunk) :=
  (placed a cs).filter fun p => p.2.allocated

theorem mem_placedUsed {x : Nat} {c : Chunk} :
    (x, c) ∈ placedUsed a cs ↔ (x, c) ∈ placed a cs ∧ c.allocated = true := by
  simp [placedUsed]

theorem Inv.usedHeaders_eq (hinv : Inv P h cs ls) :
    h.usedHeaders P = (placedUsed h.heapStart cs).map Prod.fst := by
  rw [Heap.usedHeaders, hinv.headers_eq, List.filter_map, placedUsed]
  refine congrArg _ (List.filter_congr fun p hp => ?_)
  simp [(hinv.header_eq hp).1]

theorem sum_placedUsed (a : Nat) (cs : List Chunk) :
    ((placedUsed a cs).map fun p => p.2.size).sum = used cs := by
  induction cs generalizing a with
  | nil => rfl
  | cons c cs ih =>
    have hrest := ih (a + c.size)
    simp only [placedUsed] at hrest ⊢
    cases hc : c.allocated <;> simp [placed, hc, Chunk.used, hrest]

theorem sum_placed_free (a : Nat) (cs : List Chunk) :
    (((placed a cs).filter fun p => !p.2.allocated).map fun p => p.2.size).sum + used cs =
      extent cs := by
  induction cs generalizing a with
  | nil => rfl
  | cons c cs ih =>
    have hrest := ih (a + c.size)
    cases hc : c.allocated <;> simp [placed, hc, Chunk.used, extent] <;> omega

/-- The sizes that the walk finds are those of the chunks. -/
theorem Inv.usedSize_eq (hinv : Inv P h cs ls) : h.usedSize P = used cs := by
  rw [Heap.usedSize, hinv.usedHeaders_eq, List.map_map, ← sum_placedUsed h.heapStart]
  refine congrArg _ (List.map_congr_left fun p hp => ?_)
  exact (hinv.header_eq (List.mem_filter.mp hp).1).2

theorem Inv.freeSize_eq (hinv : Inv P h cs ls) : h.freeSize P + used cs = extent cs := by
  rw [← sum_placed_free h.heapStart, Heap.freeSize, Heap.freeHeaders, hinv.headers_eq,
    List.filter_map, List.map_map]
  refine congrArg (fun l : List Nat => l.sum + used cs) ?_
  have hfilter : (placed h.heapStart cs).filter (isThisFree h.mem ∘ Prod.fst) =
      (placed h.heapStart cs).filter fun p => !p.2.allocated :=
    List.filter_congr fun p hp => (hinv.header_eq hp).1
  rw [hfilter]
  exact List.map_congr_left fun p hp => (hinv.header_eq (List.mem_filter.mp hp).1).2

theorem Inv.used_le (hinv : Inv P h cs ls) : used cs ≤ extent cs := by
  have := hinv.freeSize_eq
  omega

theorem Inv.usedEnd_le_iff (hinv : Inv P h cs ls) {n : Nat} : h.usedEnd P ≤ n ↔
    ∀ x c, (x, c) ∈ placed h.heapStart cs → c.allocated = true → x + c.size ≤ n := by
  rw [Heap.usedEnd, Run.peak_le_iff, hinv.usedHeaders_eq]
  constructor
  · intro hle x c hx hc
    have := hle x (List.mem_map.mpr ⟨(x, c), mem_placedUsed.mpr ⟨hx, hc⟩, rfl⟩)
    rwa [(hinv.header_eq hx).2] at this
  · intro hle y hy
    obtain ⟨⟨x, c⟩, hp, rfl⟩ := List.mem_map.mp hy
    obtain ⟨hx, hc⟩ := mem_placedUsed.mp hp
    rw [(hinv.header_eq hx).2]
    exact hle x c hx hc

-- ---------------------------------------------------------------------------
-- The books
-- ---------------------------------------------------------------------------

theorem used_of_shape (h : cs'.map Chunk.shape = cs.map Chunk.shape) : used cs' = used cs := by
  have hshape : ∀ ds : List Chunk,
      used ds = ((ds.map Chunk.shape).map fun p => if p.2 then p.1 else 0).sum := by
    intro ds
    rw [used, List.map_map]
    rfl
  rw [hshape, h, ← hshape]

theorem mem_placed_of_shape (h : cs'.map Chunk.shape = cs.map Chunk.shape) {x : Nat} {c : Chunk}
    (hx : (x, c) ∈ placed a cs') : ∃ d, (x, d) ∈ placed a cs ∧ d.shape = c.shape := by
  induction cs' generalizing a cs with
  | nil => simp [placed] at hx
  | cons e cs' ih =>
    cases cs with
    | nil => simp at h
    | cons d cs =>
      simp only [List.map_cons, List.cons.injEq] at h
      have hsize : e.size = d.size := congrArg Prod.fst h.1
      simp only [placed, List.mem_cons, Prod.mk.injEq] at hx
      rcases hx with ⟨rfl, rfl⟩ | hx
      · exact ⟨d, by simp [placed], h.1.symm⟩
      · obtain ⟨d', hd', hshape⟩ := ih h.2 hx
        exact ⟨d', by simp [placed, ← hsize, hd'], hshape⟩

/-- The counters agree with the chunks. -/
structure Client.Booked (P : Platform) (s : Client) (cs : List Chunk) (ls : Fin 6 → List Nat) :
    Prop where
  inv : s.Inv P cs ls
  cur : s.heap.curAllocSize = used cs
  le_max : s.heap.curAllocSize ≤ s.heap.maxAllocSize
  le_mark : s.heap.usedEnd P ≤ s.heap.highWaterMark

/-- What one call does to the two counters that only grow. -/
structure Client.Raised (P : Platform) (s s' : Client) : Prop where
  start_eq : s'.heap.heapStart = s.heap.heapStart
  max_eq : s'.heap.maxAllocSize = max s.heap.maxAllocSize s'.heap.curAllocSize
  mark_eq : s'.heap.highWaterMark = max s.heap.highWaterMark (s'.heap.usedEnd P)

/-- Handing out a chunk of the lists charges its size. -/
theorem Client.Booked.taken {live : List (Nat × Nat)} {x : Nat} {c : Chunk} (hb : s.Booked P cs ls)
    (ht : Taken P s.heap cs cs' x size c)
    {ls' : Fin 6 → List Nat} (hinv : Client.Inv P ⟨(takeChunk P s.heap x size).1, live⟩ cs' ls') :
    Client.Booked P ⟨(takeChunk P s.heap x size).1, live⟩ cs' ls' ∧
      Client.Raised P s ⟨(takeChunk P s.heap x size).1, live⟩ := by
  have hend := hinv.heap.end_eq
  have hlt := hinv.heap.valid.ramEnd_lt
  have hle := hinv.heap.used_le
  have hused := ht.used
  have hcur : (takeChunk P s.heap x size).1.curAllocSize = used cs' := by
    rw [ht.curAllocSize, hb.cur, wadd_eq (by omega), hused]
  have hmax : (takeChunk P s.heap x size).1.maxAllocSize =
      max s.heap.maxAllocSize (takeChunk P s.heap x size).1.curAllocSize := by
    rw [max_def]
    rfl
  have hupper : (takeChunk P s.heap x size).1.usedEnd P ≤
      max s.heap.highWaterMark (x + c.size) := by
    refine hinv.heap.usedEnd_le_iff.mpr fun y d hy hd => ?_
    rcases ht.old y d hy hd with heq | hold
    · obtain ⟨rfl, rfl⟩ := Prod.mk.inj heq
      exact le_max_right _ _
    · exact le_trans (hb.inv.heap.usedEnd_le_iff.mp hb.le_mark y d hold hd) (le_max_left _ _)
  have hlower : x + c.size ≤ (takeChunk P s.heap x size).1.usedEnd P :=
    hinv.heap.usedEnd_le_iff.mp le_rfl x c ht.chunk ht.allocated
  have hmark := ht.highWaterMark
  refine ⟨⟨hinv, hcur, ?_, ?_⟩, rfl, hmax, ?_⟩
  · exact hmax ▸ le_max_right _ _
  · exact hmark ▸ hupper
  · rw [hmark]
    exact le_antisymm (max_le (le_max_left _ _) (le_trans hlower (le_max_right _ _)))
      (max_le (le_max_left _ _) hupper)

theorem Client.Booked.malloc (hb : s.Booked P cs ls) (hsize : size ≤ 2 ^ 31 - 1) :
    ∃ s' cs' ls', s.step P (.malloc size) = some s' ∧ s'.Booked P cs' ls' ∧ Raised P s s' := by
  obtain ⟨h', p, cs', ls', hstep, hinv', hout⟩ := hb.inv.malloc_outcome hsize
  refine ⟨_, cs', ls', hstep, ?_⟩
  cases hout with
  | null => exact ⟨⟨hinv', hb.cur, hb.le_max, hb.le_mark⟩, rfl,
      (max_eq_left hb.le_max).symm, (max_eq_left hb.le_mark).symm⟩
  | hit c hne hc hca hfit =>
    exact ⟨⟨hinv', hb.cur, hb.le_max, hb.le_mark⟩, rfl,
      (max_eq_left hb.le_max).symm, (max_eq_left hb.le_mark).symm⟩
  | taken x c _ hne hfit ht => exact hb.taken ht hinv'

/-- The chunk that leaves the cache is credited. -/
theorem Client.Booked.free (hb : s.Booked P cs ls) {ptr : Nat} (hptr : ptr ∈ s.live.map Prod.fst) :
    ∃ s' cs' ls', s.step P (.free ptr) = some s' ∧ s'.Booked P cs' ls' ∧ Raised P s s' := by
  obtain ⟨cs', ls', hinv', hfreed⟩ := hb.inv.free_outcome hptr
  have hused := hfreed.used
  have hle := hb.inv.heap.used_le
  have hend := hb.inv.heap.end_eq
  have hlt := hb.inv.heap.valid.ramEnd_lt
  have hcur := hb.cur
  have hcur' : (mcuFree P s.heap ptr).curAllocSize = used cs' := by
    rw [mcuFree_eq, ← hused] at *
    by_cases h0 : s.heap.cached = 0
    · simp only [Heap.cachedSize, if_pos h0] at *
      omega
    · simp only [Heap.cachedSize, if_neg h0] at *
      rw [wsub_eq (by omega) (by omega)]
      omega
  have hmax : (mcuFree P s.heap ptr).curAllocSize ≤ s.heap.maxAllocSize := by
    have := hb.le_max
    omega
  have hmark : (mcuFree P s.heap ptr).usedEnd P ≤ s.heap.highWaterMark := by
    refine hinv'.heap.usedEnd_le_iff.mpr fun y d hy hd => ?_
    simp only [mcuFree_heapStart] at hy
    exact hb.inv.heap.usedEnd_le_iff.mp hb.le_mark y d (hfreed.old y d hy hd) hd
  refine ⟨_, cs', ls', rfl, ⟨hinv', hcur', ?_, ?_⟩, mcuFree_heapStart .., ?_, ?_⟩
  · exact (mcuFree_maxAllocSize ..).symm ▸ hmax
  · exact (mcuFree_highWaterMark ..).symm ▸ hmark
  · exact (mcuFree_maxAllocSize ..).trans (max_eq_left hmax).symm
  · exact (mcuFree_highWaterMark ..).trans (max_eq_left hmark).symm

theorem Client.Booked.write (hb : s.Booked P cs ls) {ptr n i : Nat} {b : UInt8}
    (hptr : (ptr, n) ∈ s.live) (hi : i < n) :
    ∃ s' cs' ls', s.step P (.write ptr i b) = some s' ∧ s'.Booked P cs' ls' ∧ Raised P s s' := by
  obtain ⟨cs', hinv', hshape⟩ := hb.inv.write_shape (b := b) hptr hi
  have hmark : Heap.usedEnd P { s.heap with mem := s.heap.mem.storeByte (ptr + i) b } ≤
      s.heap.highWaterMark := by
    refine hinv'.heap.usedEnd_le_iff.mpr fun y d hy hd => ?_
    obtain ⟨e, he, heq⟩ := mem_placed_of_shape hshape hy
    obtain ⟨hsize, hea⟩ := Prod.mk.inj heq
    rw [← hsize]
    exact hb.inv.heap.usedEnd_le_iff.mp hb.le_mark y e he (hea.trans hd)
  exact ⟨_, cs', ls, rfl, ⟨hinv', hb.cur.trans (used_of_shape hshape).symm, hb.le_max, hmark⟩,
    rfl, (max_eq_left hb.le_max).symm, (max_eq_left hmark).symm⟩

/-- Every legal call keeps the books. -/
theorem Client.Booked.step_total {call : Call} (hb : ∃ cs ls, s.Booked P cs ls)
    (hlegal : s.Legal call) :
    ∃ s', s.step P call = some s' ∧ (∃ cs ls, s'.Booked P cs ls) ∧ Raised P s s' := by
  obtain ⟨cs, ls, hb⟩ := hb
  cases call with
  | malloc size =>
    obtain ⟨s', cs', ls', hstep, hb', hr⟩ := hb.malloc hlegal
    exact ⟨s', hstep, ⟨cs', ls', hb'⟩, hr⟩
  | free ptr =>
    obtain ⟨s', cs', ls', hstep, hb', hr⟩ := hb.free hlegal
    exact ⟨s', hstep, ⟨cs', ls', hb'⟩, hr⟩
  | write ptr i b =>
    obtain ⟨n, hptr, hi⟩ := hlegal
    obtain ⟨s', cs', ls', hstep, hb', hr⟩ := hb.write (b := b) hptr hi
    exact ⟨s', hstep, ⟨cs', ls', hb'⟩, hr⟩

-- ---------------------------------------------------------------------------
-- Runs
-- ---------------------------------------------------------------------------

/-- The books of a heap that started as `s₀` and has visited the given states. -/
structure Client.Accounted (P : Platform) (s₀ : Client) (visited : List Client) (s : Client) :
    Prop where
  cur : s.heap.curAllocSize = s.heap.usedSize P
  /-- No byte is lost or counted twice. -/
  conserved : s.heap.curAllocSize + s.heap.freeSize P = getHdrChunkSize s₀.heap.mem s₀.heap.heapStart
  /-- What `mcu_free` subtracts has been added. -/
  noUnderflow : s.heap.cachedSize ≤ s.heap.curAllocSize
  max : s.heap.maxAllocSize = Run.peak (fun t => t.heap.curAllocSize) visited
  mark : s.heap.highWaterMark = Run.peak (fun t => t.heap.usedEnd P) visited

theorem Client.Booked.cachedSize_le (hb : s.Booked P cs ls) : s.heap.cachedSize ≤ s.heap.curAllocSize := by
  rw [hb.cur]
  by_cases h0 : s.heap.cached = 0
  · simp [Heap.cachedSize, h0]
  · obtain ⟨c, hc, hca⟩ := hb.inv.heap.cached h0
    rw [Heap.cachedSize, if_neg h0, hb.inv.heap.partly.getHdrChunkSize_eq hc]
    obtain ⟨pre, post, rfl, -⟩ := mem_placed.mp hc
    simp only [used_append, used_cons, Chunk.used_of_allocated hca]
    omega

/-- A run that keeps the books. -/
theorem Client.exec_accounted_of (Books : Client → Prop) {calls : List Call}
    (hbooks : ∀ s, Books s → s.heap.curAllocSize = s.heap.usedSize P ∧
      s.heap.curAllocSize + s.heap.freeSize P = getHdrChunkSize s₀.heap.mem s₀.heap.heapStart ∧
      s.heap.cachedSize ≤ s.heap.curAllocSize ∧ s.heap.curAllocSize ≤ s.heap.maxAllocSize ∧
      s.heap.usedEnd P ≤ s.heap.highWaterMark)
    (hstep : ∀ {s call}, Books s → s.Legal call →
      ∃ s', s.step P call = some s' ∧ Books s' ∧ Raised P s s')
    (hs : Books s₀) (hmax : s₀.heap.maxAllocSize = 0) (hmark : s₀.heap.highWaterMark = 0)
    (hok : Run.Allowed (Client.step P) Client.Legal s₀ calls) :
    ∃ s, Run.exec (Client.step P) s₀ calls = some s ∧
      s₀.Accounted P (Run.states (Client.step P) s₀ calls) s := by
  have htotal : ∀ {s call}, Books s → s.Legal call → ∃ s', s.step P call = some s' ∧ Books s' := by
    intro s call hb hlegal
    obtain ⟨s', heq, hb', -⟩ := hstep hb hlegal
    exact ⟨s', heq, hb'⟩
  obtain ⟨s, hrun, hb⟩ := Run.exec_total Books htotal hs hok
  obtain ⟨hcur, hconserved, hcached, -, -⟩ := hbooks s hb
  have hmax' := Run.exec_peak Books (f := fun t => t.heap.curAllocSize)
    (g := fun t => t.heap.maxAllocSize) (fun t ht => (hbooks t ht).2.2.2.1)
    (fun ht hlegal => (hstep ht hlegal).imp fun _ h => ⟨h.1, h.2.1, h.2.2.max_eq⟩) hs hok hrun
  have hmark' := Run.exec_peak Books (f := fun t => t.heap.usedEnd P)
    (g := fun t => t.heap.highWaterMark) (fun t ht => (hbooks t ht).2.2.2.2)
    (fun ht hlegal => (hstep ht hlegal).imp fun _ h => ⟨h.1, h.2.1, h.2.2.mark_eq⟩) hs hok hrun
  simp only [hmax, Nat.zero_max] at hmax'
  simp only [hmark, Nat.zero_max] at hmark'
  exact ⟨s, hrun, hcur, hconserved, hcached, hmax', hmark'⟩

/-- The books of a heap with room for chunks. -/
theorem Client.Booked.books (hb : s.Booked P cs ls) :
    s.heap.curAllocSize = s.heap.usedSize P ∧
      s.heap.curAllocSize + s.heap.freeSize P = P.ramEnd - s.heap.heapStart - 4 ∧
      s.heap.cachedSize ≤ s.heap.curAllocSize ∧ s.heap.curAllocSize ≤ s.heap.maxAllocSize ∧
      s.heap.usedEnd P ≤ s.heap.highWaterMark := by
  have hfree := hb.inv.heap.freeSize_eq
  have hend := hb.inv.heap.end_eq
  have hcur := hb.cur
  exact ⟨hcur.trans hb.inv.heap.usedSize_eq.symm, by omega, hb.cachedSize_le, hb.le_max, hb.le_mark⟩

theorem Client.booked_freshHeap (hv : P.Valid start) (hmod : start % 8 = 4)
    (hend : start + size + 4 = P.ramEnd) (hge : 16 ≤ size) (h8 : size % 8 = 0) :
    Client.Booked P ⟨freshHeap P m start size, []⟩ [Around.freeChunk size hge h8]
      (freshLists start size) := by
  have hinv := inv_freshHeap (m := m) hv hmod hend hge h8
  refine ⟨⟨hinv, by simp, by simp⟩, rfl, le_rfl, hinv.usedEnd_le_iff.mpr fun x c hx hc => ?_⟩
  simp only [placed, List.mem_singleton, Prod.mk.injEq] at hx
  obtain ⟨-, rfl⟩ := hx
  exact absurd hc (by simp [Chunk.allocated, Around.freeChunk])

/-- On the smallest heap every legal call leaves the heap as it is. -/
theorem Client.step_smallest (hv : P.Valid start) (hmod : start % 8 = 4)
    (hend : start + 8 + 4 = P.ramEnd) {call : Call}
    (hlegal : Client.Legal ⟨freshHeap P m start 8, []⟩ call) :
    Client.step P ⟨freshHeap P m start 8, []⟩ call = some ⟨freshHeap P m start 8, []⟩ := by
  cases call with
  | malloc size => simp [Client.step, mcuMalloc_smallest hv hmod hend]
  | free ptr => simp [Client.Legal] at hlegal
  | write ptr i b => simp [Client.Legal] at hlegal

/-- The walk over the smallest heap finds one free chunk of 8 bytes. -/
theorem headers_smallest (hv : P.Valid start) (hmod : start % 8 = 4)
    (hend : start + 8 + 4 = P.ramEnd) :
    (freshHeap P m start 8).headers P = [start] ∧
      isThisFree (freshHeap P m start 8).mem start = true ∧
        getHdrChunkSize (freshHeap P m start 8).mem start = 8 := by
  have hlt := hv.ramEnd_lt
  have hhdr := header_freshHeap (m := m) hv hmod hend le_rfl (by decide)
  refine ⟨?_, hhdr.isThisFree_eq, hhdr.getHdrChunkSize_eq⟩
  have hfuel : P.ramEnd - (freshHeap P m start 8).heapStart = 10 + 2 := by
    have hstart : (freshHeap P m start 8).heapStart = start := rfl
    omega
  have hfirst : start ≠ P.ramEnd - 4 := by omega
  have hlast : start + 8 = P.ramEnd - 4 := by omega
  rw [Heap.headers, hfuel]
  change walkHeaders P (freshHeap P m start 8).mem (10 + 2) start = [start]
  rw [walkHeaders, if_neg hfirst, hhdr.hdrToRightHdr_eq (by omega), walkHeaders, if_pos hlast]

/-- In every run, the counters of the heap are what the chunk headers of the states that it has
visited say. -/
theorem Client.exec_accounted (hv : P.Valid dataEnd) (hinit : Client.init P m dataEnd = some s₀)
    {calls : List Call} (hok : Run.Allowed (Client.step P) Client.Legal s₀ calls) :
    ∃ s, Run.exec (Client.step P) s₀ calls = some s ∧
      s₀.Accounted P (Run.states (Client.step P) s₀ calls) s := by
  obtain ⟨h, hh, rfl⟩ := Option.map_eq_some_iff.mp hinit
  obtain ⟨start, size, -, rfl, hv', hmod, hend, hge, h8⟩ := freshHeap_of_mcuHeapInit hv hh
  have hlt := hv'.ramEnd_lt
  have hsize := (header_freshHeap (m := m) hv' hmod hend hge (by omega)).getHdrChunkSize_eq
  by_cases hsmall : size = 8
  · subst hsmall
    obtain ⟨hheaders, hfree, h8⟩ := headers_smallest (m := m) hv' hmod hend
    refine exec_accounted_of (fun s => s = ⟨freshHeap P m start 8, []⟩) ?_ ?_ rfl rfl rfl hok
    · rintro _ rfl
      have hused : (freshHeap P m start 8).usedHeaders P = [] := by
        simp [Heap.usedHeaders, hheaders, hfree]
      have hfrees : (freshHeap P m start 8).freeHeaders P = [start] := by
        simp [Heap.freeHeaders, hheaders, hfree]
      refine ⟨?_, ?_, le_rfl, le_rfl, ?_⟩
      · simp only [Heap.usedSize, hused, List.map_nil, List.sum_nil]
        rfl
      · simp only [Heap.freeSize, hfrees, List.map_cons, List.map_nil, List.sum_cons, List.sum_nil]
        exact Nat.zero_add _
      · simp [Heap.usedEnd, hused]
    · rintro _ call rfl hlegal
      refine ⟨_, step_smallest hv' hmod hend hlegal, rfl, rfl, rfl, ?_⟩
      simp [Heap.usedEnd, Heap.usedHeaders, hheaders, hfree]
  · have hbook := booked_freshHeap (m := m) hv' hmod hend (by omega) h8
    refine exec_accounted_of
      (fun s => (∃ cs ls, s.Booked P cs ls) ∧ s.heap.heapStart = start) ?_ ?_ ⟨⟨_, _, hbook⟩, rfl⟩ rfl
      rfl hok
    · rintro s ⟨⟨cs, ls, hb⟩, hstart⟩
      have hbooks := hb.books
      rw [hstart] at hbooks
      have hroom : P.ramEnd - start - 4 = size := by omega
      rwa [hroom, ← hsize] at hbooks
    · rintro s call ⟨hb, hstart⟩ hlegal
      obtain ⟨s', heq, hb', hr⟩ := Booked.step_total hb hlegal
      exact ⟨s', heq, ⟨hb', hr.start_eq.trans hstart⟩, hr⟩

theorem Client.exec_accounted_smallBoard :
    ∃ s₀ s, Client.init smallBoard (fun _ => 0) 0x20000030 = some s₀ ∧
      Run.exec (Client.step smallBoard) s₀ mergingCalls = some s ∧ s.live = [(0x20000038, 30)] ∧
      s₀.Accounted smallBoard (Run.states (Client.step smallBoard) s₀ mergingCalls) s := by
  have hinit := mcuHeapInit_eq (P := smallBoard) (m := fun _ => 0)
    (show adjustDataEnd 0x20000030 = some 0x20000034 by decide)
    (show 0x20000034 + 200 + 4 = smallBoard.ramEnd by decide) (by decide) (by decide) (by decide)
  have hstart : Client.init smallBoard (fun _ => 0) 0x20000030 = some ⟨_, []⟩ :=
    Option.map_eq_some_iff.mpr ⟨_, hinit, rfl⟩
  obtain ⟨hok, hlive⟩ := mergingCalls_allowed hstart
  obtain ⟨s, hrun, hs⟩ := Client.exec_accounted smallBoard_valid hstart hok
  rw [hrun] at hlive
  exact ⟨_, s, hstart, hrun, Option.some.inj hlive, hs⟩

end Hopter.Allocator
