-- SUMMARY: Runs of allocator calls: the heap stays well formed, and live payloads are aligned, disjoint and untouched.
import Hopter.Base.Run
import Hopter.Allocator.Init
import Hopter.Allocator.Malloc

/-!
# Clients of the heap

A client calls `mcu_malloc` and `mcu_free` and writes to the payloads that it
holds. It frees only pointers that it got and has not freed since. The invariant
of a run adds to the heap invariant who owns which allocated chunk: a live pointer
owns a chunk that holds its request, and nobody owns the cached chunk.
-/

namespace Hopter.Allocator

open Word

/-- The heap and the live pointers, each with the size that was requested for it. -/
structure Client where
  heap : Heap
  live : List (Nat × Nat)

inductive Call where
  | malloc (size : Nat)
  | free (ptr : Nat)
  /-- The owner of a payload writes its byte `i`. -/
  | write (ptr i : Nat) (b : UInt8)

/-- The calls that the interface allows: `Layout` bounds the size of a request, and
only live pointers are freed and written through. -/
def Client.Legal (s : Client) : Call → Prop
  | .malloc size => size ≤ 2 ^ 31 - 1
  | .free ptr => ptr ∈ s.live.map Prod.fst
  | .write ptr i _ => ∃ n, (ptr, n) ∈ s.live ∧ i < n

instance (s : Client) : (call : Call) → Decidable (s.Legal call)
  | .malloc size => inferInstanceAs (Decidable (size ≤ _))
  | .free ptr => inferInstanceAs (Decidable (ptr ∈ _))
  | .write ptr i _ => decidable_of_iff (∃ a ∈ s.live, a.1 = ptr ∧ i < a.2)
      ⟨fun ⟨a, ha, hptr, hlt⟩ => ⟨a.2, hptr ▸ ha, hlt⟩, fun ⟨n, hn, hlt⟩ => ⟨(ptr, n), hn, rfl, hlt⟩⟩

/-- One call. A null pointer is not live. -/
def Client.step (P : Platform) (s : Client) : Call → Option Client
  | .malloc size => (mcuMalloc P s.heap size).map fun (h, p) =>
    ⟨h, if p = 0 then s.live else (p, size) :: s.live⟩
  | .free ptr => some ⟨mcuFree P s.heap ptr, s.live.filter fun a => a.1 ≠ ptr⟩
  | .write ptr i b => some ⟨{ s.heap with mem := s.heap.mem.storeByte (ptr + i) b }, s.live⟩

/-- The heap right after `mcu_heap_init`. -/
def Client.init (P : Platform) (m : Mem) (dataEnd : Nat) : Option Client :=
  (mcuHeapInit P m dataEnd).map fun h => ⟨h, []⟩

-- ---------------------------------------------------------------------------
-- The invariant of a run
-- ---------------------------------------------------------------------------

/-- The live pointer `p` owns an allocated chunk that holds `n` bytes. -/
def Owns (h : Heap) (cs : List Chunk) (p n : Nat) : Prop :=
  ∃ hdr c, p = hdr + 4 ∧ (hdr, c) ∈ placed h.heapStart cs ∧ c.allocated = true ∧
    n + 4 ≤ c.size ∧ hdr ≠ h.cached

structure Client.Inv (P : Platform) (s : Client) (cs : List Chunk) (ls : Fin 6 → List Nat) :
    Prop where
  heap : Allocator.Inv P s.heap cs ls
  owned : ∀ a ∈ s.live, Owns s.heap cs a.1 a.2
  distinct : (s.live.map Prod.fst).Nodup

variable {P : Platform} {s s' : Client} {cs : List Chunk} {ls : Fin 6 → List Nat}

theorem Owns.payloadToHdr_eq {p n : Nat} (hinv : Allocator.Inv P s.heap cs ls)
    (h : Owns s.heap cs p n) : ∃ c, (payloadToHdr p, c) ∈ placed s.heap.heapStart cs ∧
      c.allocated = true ∧ n + 4 ≤ c.size ∧ payloadToHdr p ≠ s.heap.cached ∧
      p = payloadToHdr p + 4 := by
  obtain ⟨hdr, c, rfl, hc, ha, hn, hne⟩ := h
  have hb := hinv.partly.bounds hc
  have heq : payloadToHdr (hdr + 4) = hdr := by
    rw [payloadToHdr, wsub_eq (by omega) (by omega)]
    omega
  rw [heq]
  exact ⟨c, hc, ha, hn, hne, rfl⟩

/-- `mcu_malloc` in a run. The new pointer is not live before. -/
theorem Client.Inv.malloc_outcome (hinv : s.Inv P cs ls) {size : Nat} (hsize : size ≤ 2 ^ 31 - 1) :
    ∃ h' p cs' ls', s.step P (.malloc size) =
        some ⟨h', if p = 0 then s.live else (p, size) :: s.live⟩ ∧
      Client.Inv P ⟨h', if p = 0 then s.live else (p, size) :: s.live⟩ cs' ls' ∧
      Malloced P s.heap cs size h' p cs' := by
  obtain ⟨h', p, cs', ls', heq, hinv', hout⟩ := hinv.heap.mcuMalloc_outcome hsize
  obtain ⟨hstart, hcached, hkeep, hp⟩ := hout.spec hinv.heap
  have hold : ∀ a ∈ s.live, Owns h' cs' a.1 a.2 := by
    intro a ha
    obtain ⟨hdr, c, hpe, hc, hca, hn, hne⟩ := hinv.owned a ha
    refine ⟨hdr, c, hpe, hstart ▸ hkeep _ c hc hca, hca, hn, ?_⟩
    rcases hcached with h0 | h0
    · have := (hinv.heap.partly.bounds hc).1
      have := hinv.heap.valid.sentinels_le
      omega
    · rwa [h0]
  refine ⟨h', p, cs', ls', by simp [step, heq], ?_, hout⟩
  rcases hp with rfl | ⟨hdr, rfl, ⟨c, hc, hca, hn⟩, hfresh, hnc⟩
  · exact ⟨hinv', by simpa using hold, by simpa using hinv.distinct⟩
  · refine ⟨hinv', ?_, ?_⟩
    · simp only [Nat.add_eq_zero_iff, OfNat.ofNat_ne_zero, and_false, if_false, List.mem_cons,
        forall_eq_or_imp]
      exact ⟨⟨hdr, c, rfl, hstart ▸ hc, hca, hn, hnc⟩, hold⟩
    · simp only [Nat.add_eq_zero_iff, OfNat.ofNat_ne_zero, and_false, if_false, List.map_cons,
        List.nodup_cons]
      refine ⟨fun hmem => ?_, hinv.distinct⟩
      obtain ⟨a, ha, hpe⟩ := List.mem_map.mp hmem
      obtain ⟨hdr', c', hpe', hc', hca', -, hne⟩ := hinv.owned a ha
      obtain rfl : hdr' = hdr := by omega
      exact hne (hfresh c' hc' hca')

theorem Client.Inv.malloc (hinv : s.Inv P cs ls) {size : Nat} (hsize : size ≤ 2 ^ 31 - 1) :
    ∃ s' cs' ls', s.step P (.malloc size) = some s' ∧ s'.Inv P cs' ls' ∧
      s'.heap.heapStart = s.heap.heapStart ∧
      ∀ y d, (y, d) ∈ placed s.heap.heapStart cs → d.allocated = true →
        (y, d) ∈ placed s.heap.heapStart cs' := by
  obtain ⟨h', p, cs', ls', hstep, hinv', hout⟩ := hinv.malloc_outcome hsize
  obtain ⟨hstart, -, hkeep, -⟩ := hout.spec hinv.heap
  exact ⟨_, cs', ls', hstep, hinv', hstart, hkeep⟩

/-- `mcu_free` of a live pointer in a run. -/
theorem Client.Inv.free_outcome (hinv : s.Inv P cs ls) {ptr : Nat}
    (hptr : ptr ∈ s.live.map Prod.fst) :
    ∃ cs' ls', Client.Inv P ⟨mcuFree P s.heap ptr, s.live.filter fun a => a.1 ≠ ptr⟩ cs' ls' ∧
      Freed s.heap cs cs' := by
  obtain ⟨a, ha, rfl⟩ := List.mem_map.mp hptr
  obtain ⟨c, hc, hca, -, hne, hpe⟩ := (hinv.owned a ha).payloadToHdr_eq hinv.heap
  obtain ⟨cs', ls', hinv', hfreed⟩ := hinv.heap.mcuFree hc hca hne
  refine ⟨cs', ls', ⟨hinv', ?_, ?_⟩, hfreed⟩
  · intro b hb
    simp only [List.mem_filter, decide_eq_true_eq] at hb
    obtain ⟨hdr, d, hpe', hd, hda, hn, hne'⟩ := hinv.owned b hb.1
    refine ⟨hdr, d, hpe', ?_, hda, hn, fun heq => hb.2 ?_⟩
    · rw [mcuFree_heapStart]
      exact hfreed.kept hdr d hd hda hne'
    have : hdr = payloadToHdr a.1 := heq.trans (mcuFree_cached ..)
    omega
  · exact hinv.distinct.sublist (List.filter_sublist.map Prod.fst)

theorem Client.Inv.free (hinv : s.Inv P cs ls) {ptr : Nat} (hptr : ptr ∈ s.live.map Prod.fst) :
    ∃ s' cs' ls', s.step P (.free ptr) = some s' ∧ s'.Inv P cs' ls' ∧
      s'.heap.heapStart = s.heap.heapStart ∧
      ∀ y d, (y, d) ∈ placed s.heap.heapStart cs → d.allocated = true → y ≠ s.heap.cached →
        (y, d) ∈ placed s.heap.heapStart cs' := by
  obtain ⟨cs', ls', hinv', hfreed⟩ := hinv.free_outcome hptr
  exact ⟨_, cs', ls', rfl, hinv', mcuFree_heapStart .., hfreed.kept⟩

/-- A write to the payload of an allocated chunk changes only that payload. -/
theorem Tail.overwrite {m m' : Mem} {start x p n : Nat} {left : Bool} {c : Chunk}
    {pre post : List Chunk} (h : Tail m start left (pre ++ c :: post))
    (hc : c.allocated = true) (hx : x = start + extent pre) (hp : p = x + 4) (hn : n + 4 ≤ c.size)
    (hout : ∀ y, y < p ∨ p + n ≤ y → m' y = m y) :
    ∃ c' : Chunk, c'.size = c.size ∧ c'.allocated = true ∧
      Tail m' start left (pre ++ c' :: post) := by
  subst hx hp
  obtain ⟨hpre, htail⟩ := tail_append.mp h
  obtain ⟨hchunk, hpost⟩ := tail_cons.mp htail
  refine ⟨⟨c.size, some fun j => m' (start + extent pre + 4 + j), c.le_size, c.aligned⟩, rfl, rfl,
    tail_append.mpr ⟨?_, tail_cons.mpr ⟨⟨?_, by simp, ?_⟩, ?_⟩⟩⟩
  · exact hpre.congr fun y _ hy => hout y (by omega)
  · rw [Mem.load32_congr fun y _ hy => hout y (by omega), hchunk.header, hc]
    rfl
  · rintro f hf j -
    obtain rfl := Option.some.inj hf
    rfl
  · rw [hc] at hpost
    exact hpost.congr fun y hy _ => hout y (by omega)

/-- The owner of a payload can write anything to it. The headers stay. -/
theorem Client.Inv.overwrite_shape (hinv : s.Inv P cs ls) {a : Nat × Nat} {m' : Mem}
    (ha : a ∈ s.live) (hout : ∀ y, y < a.1 ∨ a.1 + a.2 ≤ y → m' y = s.heap.mem y) :
    ∃ cs', Client.Inv P { s with heap := { s.heap with mem := m' } } cs' ls ∧
      cs'.map Chunk.shape = cs.map Chunk.shape := by
  obtain ⟨hdr, c, hpe, hc, hca, hn, -⟩ := hinv.owned a ha
  obtain ⟨pre, post, rfl, hx⟩ := mem_placed.mp hc
  obtain ⟨c', hsize, hca', htail⟩ := hinv.heap.tail.overwrite hca hx hpe hn hout
  -- Chunks other than the written one are untouched, and the written one has the same size.
  have hkeep : ∀ y d, (y, d) ∈ placed s.heap.heapStart (pre ++ c :: post) → d.allocated = true →
      ∃ d', (y, d') ∈ placed s.heap.heapStart (pre ++ c' :: post) ∧ d'.allocated = true ∧
        d'.size = d.size := by
    intro y d hd hda
    simp only [placed_append, placed, List.mem_append, List.mem_cons, Prod.mk.injEq, hsize] at hd ⊢
    rcases hd with hd | ⟨rfl, rfl⟩ | hd
    · exact ⟨d, Or.inl hd, hda, rfl⟩
    · exact ⟨c', Or.inr (Or.inl ⟨rfl, rfl⟩), hca', hsize⟩
    · exact ⟨d, Or.inr (Or.inr hd), hda, rfl⟩
  have hnone : c.payload ≠ none := fun h => by simp [Chunk.allocated, h] at hca
  have hnone' : c'.payload ≠ none := fun h => by simp [Chunk.allocated, h] at hca'
  have hfree : ∀ y t, freeIn s.heap.heapStart (pre ++ c' :: post) y t ↔
      freeIn s.heap.heapStart (pre ++ c :: post) y t := by
    intro y t
    simp [freeIn_append, freeIn_cons, hnone, hnone', hsize]
  refine ⟨pre ++ c' :: post, ⟨⟨hinv.heap.valid, hinv.heap.start_mod, ?_, htail, ?_, ?_,
    ?_⟩, ?_, hinv.distinct⟩, by simp [Chunk.shape, hsize, hca, hca']⟩
  · have hend := hinv.heap.end_eq
    simp only [extent_append, extent, hsize] at hend ⊢
    omega
  · have hsep := hinv.heap.separated
    rw [Separated, List.isChain_append] at hsep ⊢
    refine ⟨hsep.1, List.isChain_cons.mpr ⟨fun _ _ => Or.inl hca', ?_⟩, fun _ _ d hd => ?_⟩
    · exact (List.isChain_cons.mp hsep.2.1).2
    · obtain rfl : c' = d := by simpa using hd
      exact Or.inr hca'
  · refine (hinv.heap.lists.congr fun y hy z hz hz' => hout z ?_).congr_free hfree
    have hb := placed_bounds hc
    rcases hy with ⟨j, rfl⟩ | ⟨t, d, hd, hdfree, -⟩
    · have := hinv.heap.valid.sentinels_le
      have := j.isLt
      simp only [sentinelHdr] at hz hz'
      omega
    · have := d.le_size
      rcases placed_disjoint hc hd with ⟨-, rfl⟩ | h | h
      · exact absurd hdfree hnone
      · omega
      · omega
  · intro h0
    obtain ⟨d, hd, hda⟩ := hinv.heap.cached h0
    obtain ⟨d', hd', hda', -⟩ := hkeep _ d hd hda
    exact ⟨d', hd', hda'⟩
  · intro a ha
    obtain ⟨hdr', d, hpe', hd, hda, hn', hne⟩ := hinv.owned a ha
    obtain ⟨d', hd', hda', hdsize⟩ := hkeep _ d hd hda
    exact ⟨hdr', d', hpe', hd', hda', by omega, hne⟩

theorem Client.Inv.overwrite (hinv : s.Inv P cs ls) {a : Nat × Nat} {m' : Mem} (ha : a ∈ s.live)
    (hout : ∀ y, y < a.1 ∨ a.1 + a.2 ≤ y → m' y = s.heap.mem y) :
    ∃ cs', Client.Inv P { s with heap := { s.heap with mem := m' } } cs' ls := by
  obtain ⟨cs', hinv', -⟩ := hinv.overwrite_shape ha hout
  exact ⟨cs', hinv'⟩

theorem Client.Inv.write_shape (hinv : s.Inv P cs ls) {ptr n i : Nat} {b : UInt8}
    (hptr : (ptr, n) ∈ s.live) (hi : i < n) :
    ∃ cs', Client.Inv P { s with heap := { s.heap with mem := s.heap.mem.storeByte (ptr + i) b } }
      cs' ls ∧ cs'.map Chunk.shape = cs.map Chunk.shape := by
  refine hinv.overwrite_shape hptr fun y hy => ?_
  have : y ≠ ptr + i := by omega
  simp [Mem.storeByte, this]

theorem Client.Inv.write (hinv : s.Inv P cs ls) {ptr n i : Nat} {b : UInt8}
    (hptr : (ptr, n) ∈ s.live) (hi : i < n) :
    ∃ s' cs' ls', s.step P (.write ptr i b) = some s' ∧ s'.Inv P cs' ls' := by
  obtain ⟨cs', hinv', -⟩ := hinv.write_shape (b := b) hptr hi
  exact ⟨_, cs', ls, rfl, hinv'⟩

/-- Every legal call returns and keeps the invariant. -/
theorem Client.Inv.step_total {call : Call} (hinv : ∃ cs ls, s.Inv P cs ls)
    (hlegal : s.Legal call) :
    ∃ s', s.step P call = some s' ∧ ∃ cs ls, s'.Inv P cs ls := by
  obtain ⟨cs, ls, hinv⟩ := hinv
  cases call with
  | malloc size =>
    obtain ⟨s', cs', ls', heq, hinv', -⟩ := hinv.malloc hlegal
    exact ⟨s', heq, cs', ls', hinv'⟩
  | free ptr =>
    obtain ⟨s', cs', ls', heq, hinv', -⟩ := hinv.free hlegal
    exact ⟨s', heq, cs', ls', hinv'⟩
  | write ptr i b =>
    obtain ⟨n, hptr, hi⟩ := hlegal
    obtain ⟨s', cs', ls', heq, hinv'⟩ := hinv.write hptr hi
    exact ⟨s', heq, cs', ls', hinv'⟩

-- ---------------------------------------------------------------------------
-- The representation invariant, in the terms of the source
-- ---------------------------------------------------------------------------

/-- The heap is well formed. The chunk headers are `hdrs` in the order of their
addresses, and the free lists have the members `ls`. -/
structure WellFormed (P : Platform) (h : Heap) (hdrs : List Nat) (ls : Fin 6 → List Nat) :
    Prop where
  /-- Walking by header sizes visits the headers and ends at the guard. -/
  first : (hdrs ++ [P.ramEnd - 4]).head? = some h.heapStart
  walk : (hdrs ++ [P.ramEnd - 4]).IsChain fun a b => hdrToRightHdr h.mem a = b
  size : ∀ a ∈ hdrs, getHdrChunkSize h.mem a % 8 = 0 ∧ 16 ≤ getHdrChunkSize h.mem a
  guard : getHdrChunkSize h.mem (P.ramEnd - 4) = 0 ∧ isThisFree h.mem (P.ramEnd - 4) = false
  /-- Every header records the state of the chunk on its left. -/
  flags : (hdrs ++ [P.ramEnd - 4]).IsChain fun a b => isLeftFree h.mem b = isThisFree h.mem a
  firstFlag : isLeftFree h.mem h.heapStart = false
  separated : hdrs.IsChain fun a b => ¬ (isThisFree h.mem a = true ∧ isThisFree h.mem b = true)
  footer : ∀ a ∈ hdrs, isThisFree h.mem a = true →
    h.mem.load32 (hdrToFtr h.mem a) = getHdrChunkSize h.mem a
  /-- The lists are rings without repetitions, and their members are the free chunks. -/
  rings : (links P h.mem).Rings (fun i : Fin 6 => sentinelHdr P i) ls
  members : ∀ (i : Fin 6) x, x ∈ ls i ↔ x ∈ hdrs ∧ isThisFree h.mem x = true ∧
    chunkSizeToListIndex (getHdrChunkSize h.mem x) = i
  cached : h.cached ≠ 0 → h.cached ∈ hdrs ∧ isThisFree h.mem h.cached = false ∧
    ∀ i, h.cached ∉ ls i

theorem placed_header {m : Mem} {a x : Nat} {left : Bool} {c : Chunk} (h : Tail m a left cs)
    (hbound : a + extent cs < 2 ^ 32) (hx : (x, c) ∈ placed a cs) :
    ∃ flag, ChunkAt m x flag c ∧ HeaderAt m x c.size c.allocated flag := by
  obtain ⟨pre, post, rfl, rfl⟩ := mem_placed.mp hx
  have hc := (tail_cons.mp (tail_append.mp h).2).1
  have hb := placed_bounds hx
  exact ⟨_, hc, hc.headerAt (by omega)⟩

/-- The walk over a run that ends at the guard, with the flags that it sees. -/
theorem Tail.walk {m : Mem} {a : Nat} {left : Bool} (h : Tail m a left cs)
    (hbound : a + extent cs < 2 ^ 32) :
    ((placed a cs).map Prod.fst ++ [a + extent cs]).head? = some a ∧ isLeftFree m a = !left ∧
      ((placed a cs).map Prod.fst ++ [a + extent cs]).IsChain fun x y =>
        hdrToRightHdr m x = y ∧ isLeftFree m y = isThisFree m x := by
  induction cs generalizing a left with
  | nil =>
    have hguard : HeaderAt m a 0 true left := ⟨tail_nil.mp h, rfl, by decide⟩
    exact ⟨by simp [placed, extent], hguard.isLeftFree_eq, by simp [placed]⟩
  | cons c cs ih =>
    obtain ⟨hc, hrest⟩ := tail_cons.mp h
    simp only [extent] at hbound
    have hhdr := hc.headerAt (by omega)
    obtain ⟨hhead, hflag, hchain⟩ := ih hrest (by omega)
    have haddr : a + c.size + extent cs = a + extent (c :: cs) := by simp [extent, Nat.add_assoc]
    rw [haddr] at hhead hchain
    refine ⟨by simp [placed], hhdr.isLeftFree_eq, ?_⟩
    simp only [placed, List.map_cons, List.cons_append]
    refine List.isChain_cons.mpr ⟨fun y hy => ?_, hchain⟩
    obtain rfl : a + c.size = y := by simpa [hhead] using hy
    exact ⟨hhdr.hdrToRightHdr_eq (by omega), by rw [hflag, hhdr.isThisFree_eq]⟩

theorem map_snd_placed (a : Nat) (cs : List Chunk) : (placed a cs).map Prod.snd = cs := by
  induction cs generalizing a with
  | nil => rfl
  | cons c cs ih => simp [placed, ih]

theorem Inv.wellFormed {h : Heap} (hinv : Inv P h cs ls) :
    WellFormed P h ((placed h.heapStart cs).map Prod.fst) ls := by
  have hend : P.ramEnd - 4 = h.heapStart + extent cs := by have := hinv.end_eq; omega
  have hlt : h.heapStart + extent cs < 2 ^ 32 := by
    have := hinv.end_eq
    have := hinv.valid.ramEnd_lt
    omega
  obtain ⟨hfirst, hleft, hchain⟩ := hinv.tail.walk hlt
  have hheader := fun x c => placed_header (x := x) (c := c) hinv.tail hlt
  have hguard : HeaderAt h.mem (h.heapStart + extent cs) 0 true (endFlag true cs) :=
    ⟨hinv.tail.2, rfl, by decide⟩
  rw [← hend] at hfirst hchain hguard
  have hmem : ∀ x, x ∈ (placed h.heapStart cs).map Prod.fst ↔
      ∃ c, (x, c) ∈ placed h.heapStart cs := by simp
  -- A header is free exactly when its chunk is.
  have hfree : ∀ x c, (x, c) ∈ placed h.heapStart cs →
      (isThisFree h.mem x = true ↔ c.payload = none) := by
    intro x c hx
    obtain ⟨flag, -, hhdr⟩ := hheader x c hx
    rw [hhdr.isThisFree_eq, ← Chunk.allocated_eq_false]
    simp
  refine
    { first := hfirst
      walk := hchain.imp fun _ _ hab => hab.1
      size := fun x hx => ?_
      guard := ⟨hguard.getHdrChunkSize_eq, hguard.isThisFree_eq⟩
      flags := hchain.imp fun _ _ hab => hab.2
      firstFlag := hleft
      separated := ?_
      footer := fun x hx hthis => ?_
      rings := hinv.lists.rings
      members := fun i x => ?_
      cached := fun h0 => ?_ }
  · obtain ⟨c, hc⟩ := (hmem x).mp hx
    obtain ⟨flag, -, hhdr⟩ := hheader x c hc
    rw [hhdr.getHdrChunkSize_eq]
    exact ⟨c.aligned, c.le_size⟩
  · have hsep := hinv.separated
    rw [← map_snd_placed h.heapStart cs, Separated, List.isChain_map] at hsep
    rw [List.isChain_map]
    refine hsep.imp_of_mem_imp fun p q hp hq hpq => ?_
    rw [hfree p.1 p.2 hp, hfree q.1 q.2 hq, ← Chunk.allocated_eq_false, ← Chunk.allocated_eq_false]
    rintro ⟨hp', hq'⟩
    simp [hp', hq'] at hpq
  · obtain ⟨c, hc⟩ := (hmem x).mp hx
    obtain ⟨flag, hchunk, hhdr⟩ := hheader x c hc
    have hb := placed_bounds hc
    have := c.le_size
    rw [hhdr.hdrToFtr_eq (by omega) (by omega), hhdr.getHdrChunkSize_eq]
    exact hchunk.footer ((hfree x c hc).mp hthis)
  · rw [hinv.lists.members i x, hmem]
    constructor
    · rintro ⟨t, ⟨c, hc, hnone, rfl⟩, hi⟩
      obtain ⟨flag, -, hhdr⟩ := hheader x c hc
      refine ⟨⟨c, hc⟩, (hfree x c hc).mpr hnone, ?_⟩
      rw [hhdr.getHdrChunkSize_eq, ← hi]
      rfl
    · rintro ⟨⟨c, hc⟩, hthis, hi⟩
      obtain ⟨flag, -, hhdr⟩ := hheader x c hc
      rw [hhdr.getHdrChunkSize_eq] at hi
      exact ⟨c.size, ⟨c, hc, (hfree x c hc).mp hthis, rfl⟩, Fin.ext hi⟩
  · obtain ⟨c, hc, hca⟩ := hinv.cached h0
    obtain ⟨flag, -, hhdr⟩ := hheader _ c hc
    refine ⟨(hmem _).mpr ⟨c, hc⟩, by rw [hhdr.isThisFree_eq, hca]; rfl, fun i hi => ?_⟩
    obtain ⟨t, ⟨d, hd, hnone, -⟩, -⟩ := (hinv.lists.members i _).mp hi
    rw [placed_unique hc hd, Chunk.allocated_eq_false.mpr hnone] at hca
    exact absurd hca (by decide)

-- ---------------------------------------------------------------------------
-- What a client can rely on
-- ---------------------------------------------------------------------------

/-- The payloads of two allocations do not overlap. -/
def Apart (a b : Nat × Nat) : Prop := a.1 + a.2 ≤ b.1 ∨ b.1 + b.2 ≤ a.1

/-- An allocation is 8-byte aligned and inside the heap, below the guard. -/
def Fits (P : Platform) (h : Heap) (a : Nat × Nat) : Prop :=
  a.1 % 8 = 0 ∧ h.heapStart ≤ a.1 ∧ a.1 + a.2 ≤ P.ramEnd - 4

/-- The guarantees for the clients of the heap. -/
structure Client.Safe (P : Platform) (s : Client) : Prop where
  fits : ∀ a ∈ s.live, Fits P s.heap a
  apart : s.live.Pairwise Apart
  /-- The next pointer that is returned. -/
  returned : ∀ size h' p, size ≤ 2 ^ 31 - 1 → mcuMalloc P s.heap size = some (h', p) → p ≠ 0 →
    Fits P s.heap (p, size) ∧ ∀ a ∈ s.live, Apart (p, size) a
  /-- The next call to the heap changes no byte of a payload that stays live. -/
  frame : ∀ call s', s.Legal call → (∀ ptr i b, call ≠ .write ptr i b) →
    s.step P call = some s' → ∀ a ∈ s.live, call ≠ .free a.1 → ∀ i < a.2,
      s'.heap.mem (a.1 + i) = s.heap.mem (a.1 + i)

theorem Client.Inv.fits (hinv : s.Inv P cs ls) : ∀ a ∈ s.live, Fits P s.heap a := by
  intro a ha
  obtain ⟨hdr, c, hpe, hc, -, hn, -⟩ := hinv.owned a ha
  have hb := placed_bounds hc
  have hmod := placed_mod_eight hc
  have hstart := hinv.heap.start_mod
  have hend := hinv.heap.end_eq
  refine ⟨?_, ?_, ?_⟩ <;> omega

/-- Two live allocations at different addresses do not overlap. -/
theorem Client.Inv.apart_of_ne (hinv : s.Inv P cs ls) {a b : Nat × Nat} (ha : a ∈ s.live)
    (hb : b ∈ s.live) (hne : a.1 ≠ b.1) : Apart a b := by
  obtain ⟨hdr, c, hpe, hc, -, hn, -⟩ := hinv.owned a ha
  obtain ⟨hdr', c', hpe', hc', -, hn', -⟩ := hinv.owned b hb
  simp only [Apart]
  rcases placed_disjoint hc hc' with ⟨rfl, -⟩ | h | h
  · exact absurd (hpe.trans hpe'.symm) hne
  · left; omega
  · right; omega

theorem Client.Inv.apart (hinv : s.Inv P cs ls) : s.live.Pairwise Apart :=
  (List.pairwise_map.mp hinv.distinct).imp_of_mem fun ha hb hne => hinv.apart_of_ne ha hb hne

/-- A chunk that two views of the heap share has the same payload bytes in both. -/
theorem ChunkAt.bytes_eq {m m' : Mem} {x i : Nat} {left left' : Bool} {c : Chunk}
    (h : ChunkAt m x left c) (h' : ChunkAt m' x left' c) (hc : c.allocated = true)
    (hi : 4 + i < c.size) : m' (x + 4 + i) = m (x + 4 + i) := by
  obtain ⟨f, hf⟩ := Option.isSome_iff_exists.mp hc
  rw [h.bytes f hf i hi, h'.bytes f hf i hi]

theorem Client.Inv.bytes_eq {cs' : List Chunk} {ls' : Fin 6 → List Nat} {hdr i : Nat} {c : Chunk}
    (hinv : s.Inv P cs ls) (hinv' : s'.Inv P cs' ls') (hc : (hdr, c) ∈ placed s.heap.heapStart cs)
    (hc' : (hdr, c) ∈ placed s'.heap.heapStart cs') (ha : c.allocated = true)
    (hi : 4 + i < c.size) : s'.heap.mem (hdr + 4 + i) = s.heap.mem (hdr + 4 + i) := by
  have hlt := hinv.heap.end_eq
  have hlt' := hinv'.heap.end_eq
  have hend := hinv.heap.valid.ramEnd_lt
  obtain ⟨_, h, -⟩ := placed_header hinv.heap.tail (by omega) hc
  obtain ⟨_, h', -⟩ := placed_header hinv'.heap.tail (by omega) hc'
  exact h.bytes_eq h' ha hi

theorem Client.Inv.safe (hinv : s.Inv P cs ls) : s.Safe P := by
  refine ⟨hinv.fits, hinv.apart, fun size h' p hsize heq hp => ?_,
    fun call s' hlegal hcall heq a ha hfree i hi => ?_⟩
  · obtain ⟨s', cs', ls', hstep, hinv', hstart, -⟩ := hinv.malloc hsize
    have hs' : s' = ⟨h', (p, size) :: s.live⟩ := by
      simpa [step, heq, hp] using hstep.symm
    subst hs'
    have hfits := hinv'.fits (p, size) (by simp)
    simp only [Fits] at hfits hstart
    rw [hstart] at hfits
    exact ⟨hfits, (List.pairwise_cons.mp hinv'.apart).1⟩
  · obtain ⟨hdr, c, hpe, hc, hca, hn, hne⟩ := hinv.owned a ha
    rw [hpe]
    cases call with
    | malloc size =>
      obtain ⟨t, cs', ls', hstep, hinv', hstart, hkeep⟩ := hinv.malloc hlegal
      obtain rfl := Option.some.inj (hstep.symm.trans heq)
      exact hinv.bytes_eq hinv' hc (hstart ▸ hkeep hdr c hc hca) hca (by omega)
    | free ptr =>
      obtain ⟨t, cs', ls', hstep, hinv', hstart, hkeep⟩ := hinv.free hlegal
      obtain rfl := Option.some.inj (hstep.symm.trans heq)
      exact hinv.bytes_eq hinv' hc (hstart ▸ hkeep hdr c hc hca hne) hca (by omega)
    | write ptr j b => exact absurd rfl (hcall ptr j b)

/-- What a kernel component that calls `mcu_malloc` can rely on. -/
theorem Client.Inv.mcuMalloc_spec (hinv : s.Inv P cs ls) {size p : Nat} {h' : Heap}
    (hsize : size ≤ 2 ^ 31 - 1) (heq : mcuMalloc P s.heap size = some (h', p)) (hp : p ≠ 0) :
    (∃ cs' ls', Client.Inv P ⟨h', (p, size) :: s.live⟩ cs' ls') ∧
      ∀ a ∈ s.live, ∀ i < a.2, h'.mem (a.1 + i) = s.heap.mem (a.1 + i) := by
  have hcall : s.step P (.malloc size) = some ⟨h', (p, size) :: s.live⟩ := by
    simp [step, heq, hp]
  obtain ⟨s', cs', ls', hstep, hinv', -⟩ := hinv.malloc hsize
  obtain rfl := Option.some.inj (hcall.symm.trans hstep)
  exact ⟨⟨cs', ls', hinv'⟩,
    fun a ha => hinv.safe.frame (.malloc size) _ hsize (by simp) hcall a ha (by simp)⟩

/-- What a kernel component that calls `mcu_free` can rely on. -/
theorem Client.Inv.mcuFree_spec (hinv : s.Inv P cs ls) {ptr : Nat}
    (hptr : ptr ∈ s.live.map Prod.fst) :
    (∃ cs' ls', Client.Inv P ⟨mcuFree P s.heap ptr, s.live.filter fun a => a.1 ≠ ptr⟩ cs' ls') ∧
      ∀ a ∈ s.live, a.1 ≠ ptr → ∀ i < a.2,
        (mcuFree P s.heap ptr).mem (a.1 + i) = s.heap.mem (a.1 + i) := by
  obtain ⟨s', cs', ls', hstep, hinv', -⟩ := hinv.free hptr
  obtain rfl := Option.some.inj hstep
  exact ⟨⟨cs', ls', hinv'⟩, fun a ha hne => hinv.safe.frame (.free ptr) _ hptr (by simp) rfl a ha
    fun heq => hne (by simpa using heq.symm)⟩

-- ---------------------------------------------------------------------------
-- Runs
-- ---------------------------------------------------------------------------

section Runs

variable {m : Mem} {dataEnd start : Nat}

/-- Every legal run of heap calls after `mcu_heap_init` ends, and keeps the invariant. -/
theorem Client.exec_inv (hv : P.Valid dataEnd) (hadj : adjustDataEnd dataEnd = some start)
    (hroom : start + 24 ≤ P.ramEnd) :
    ∃ s₀, Client.init P m dataEnd = some s₀ ∧
      ∀ calls, Run.Allowed (Client.step P) Client.Legal s₀ calls →
        ∃ s, Run.exec (Client.step P) s₀ calls = some s ∧ ∃ cs ls, s.Inv P cs ls := by
  obtain ⟨hmod, hle⟩ := adjustDataEnd_spec hadj
  have hend := hv.ramEnd_aligned
  obtain ⟨size, hsize⟩ : ∃ size, start + size + 4 = P.ramEnd := ⟨P.ramEnd - start - 4, by omega⟩
  have heq := mcuHeapInit_eq (m := m) hadj hsize hv.ramEnd_lt (by omega) (by omega)
  have hinv := inv_freshHeap (m := m) { hv with sentinels_le := le_trans hv.sentinels_le hle } hmod
    hsize (by omega) (by omega)
  refine ⟨⟨freshHeap P m start size, []⟩, by simp [Client.init, heq], fun calls hok => ?_⟩
  exact Run.exec_total (fun s => ∃ cs ls, s.Inv P cs ls) Client.Inv.step_total
    ⟨_, _, ⟨hinv, by simp, by simp⟩⟩ hok

/-- In every state that a legal run of heap calls reaches, the heap is well formed. -/
theorem Client.exec_wellFormed (hv : P.Valid dataEnd) (hadj : adjustDataEnd dataEnd = some start)
    (hroom : start + 24 ≤ P.ramEnd) :
    ∃ s₀, Client.init P m dataEnd = some s₀ ∧
      ∀ calls, Run.Allowed (Client.step P) Client.Legal s₀ calls →
        ∃ s, Run.exec (Client.step P) s₀ calls = some s ∧
          ∃ hdrs ls, WellFormed P s.heap hdrs ls := by
  obtain ⟨s₀, heq, hruns⟩ := Client.exec_inv (m := m) hv hadj hroom
  refine ⟨s₀, heq, fun calls hok => ?_⟩
  obtain ⟨s, hrun, cs, ls, hinv⟩ := hruns calls hok
  exact ⟨s, hrun, _, ls, hinv.heap.wellFormed⟩

/-- A small board for the tests: 256 bytes of RAM, the sentinels at their start. -/
def smallBoard : Platform := ⟨0x20000000, 0x20000000, 0x20000100⟩

theorem smallBoard_valid : smallBoard.Valid 0x20000030 := by
  constructor <;> decide

/-- The first three chunks that are freed merge, and the last request splits what they form. The
fourth one is cached. -/
def mergingCalls : List Call :=
  [.malloc 40, .malloc 8, .malloc 24, .malloc 16, .free 0x20000038, .free 0x20000068, .free 0x20000078,
    .free 0x20000098, .malloc 30]

theorem mergingCalls_allowed {s₀ : Client} (h : Client.init smallBoard (fun _ => 0) 0x20000030 = some s₀) :
    Run.Allowed (Client.step smallBoard) Client.Legal s₀ mergingCalls ∧
      (Run.exec (Client.step smallBoard) s₀ mergingCalls).map Client.live = some [(0x20000038, 30)] := by
  have hrun : (Client.init smallBoard (fun _ => 0) 0x20000030).map (fun s =>
      (decide (Run.Allowed (Client.step smallBoard) Client.Legal s mergingCalls),
        (Run.exec (Client.step smallBoard) s mergingCalls).map Client.live)) =
      some (true, some [(0x20000038, 30)]) := by decide +kernel
  simpa only [h, Option.map_some, Option.some.injEq, Prod.mk.injEq, decide_eq_true_eq] using hrun

theorem Client.exec_wellFormed_smallBoard :
    ∃ s₀ s, Client.init smallBoard (fun _ => 0) 0x20000030 = some s₀ ∧
      Run.exec (Client.step smallBoard) s₀ mergingCalls = some s ∧ s.live = [(0x20000038, 30)] ∧
      ∃ hdrs ls, WellFormed smallBoard s.heap hdrs ls := by
  obtain ⟨s₀, heq, hruns⟩ := Client.exec_wellFormed (m := fun _ => 0) smallBoard_valid
    (show adjustDataEnd 0x20000030 = some 0x20000034 by decide) (by decide)
  obtain ⟨hok, hlive⟩ := mergingCalls_allowed heq
  obtain ⟨s, hrun, hwf⟩ := hruns mergingCalls hok
  rw [hrun] at hlive
  exact ⟨s₀, s, heq, hrun, Option.some.inj hlive, hwf⟩

/-- In every state that a legal run reaches, the live payloads are aligned, inside the
heap and disjoint, and the next call changes none of them. -/
theorem Client.exec_safe (hv : P.Valid dataEnd) (hadj : adjustDataEnd dataEnd = some start)
    (hroom : start + 24 ≤ P.ramEnd) :
    ∃ s₀, Client.init P m dataEnd = some s₀ ∧
      ∀ calls, Run.Allowed (Client.step P) Client.Legal s₀ calls →
        ∃ s, Run.exec (Client.step P) s₀ calls = some s ∧ s.Safe P := by
  obtain ⟨s₀, heq, hruns⟩ := Client.exec_inv (m := m) hv hadj hroom
  refine ⟨s₀, heq, fun calls hok => ?_⟩
  obtain ⟨s, hrun, cs, ls, hinv⟩ := hruns calls hok
  exact ⟨s, hrun, hinv.safe⟩

theorem Client.exec_safe_smallBoard :
    ∃ s₀ s, Client.init smallBoard (fun _ => 0) 0x20000030 = some s₀ ∧
      Run.exec (Client.step smallBoard) s₀ mergingCalls = some s ∧ s.live = [(0x20000038, 30)] ∧
      s.Safe smallBoard := by
  obtain ⟨s₀, heq, hruns⟩ := Client.exec_safe (m := fun _ => 0) smallBoard_valid
    (show adjustDataEnd 0x20000030 = some 0x20000034 by decide) (by decide)
  obtain ⟨hok, hlive⟩ := mergingCalls_allowed heq
  obtain ⟨s, hrun, hsafe⟩ := hruns mergingCalls hok
  rw [hrun] at hlive
  exact ⟨s₀, s, heq, hrun, Option.some.inj hlive, hsafe⟩

end Runs

end Hopter.Allocator
