-- SUMMARY: The heap invariant, and that `mcu_heap_init` establishes it and `mcu_free` keeps it.
import Hopter.Allocator.FreeLists

/-!
# The heap invariant

`Inv` ties the heap state to a list of chunks and to the members of the six free
lists. Every operation takes chunks out of the lists, rewrites the headers of one
region, and puts at most one chunk back. The lemmas below follow that shape: a
region of the heap is described by the chunks before it (`pre`) and behind it
(`post`), and the lists only hold the free chunks of these two.
-/

namespace Hopter.Allocator

open Word

-- ---------------------------------------------------------------------------
-- Header words
-- ---------------------------------------------------------------------------

/-- The header at `a` records this size and these flags. -/
structure HeaderAt (m : Mem) (a size : Nat) (used left : Bool) : Prop where
  word : m.load32 a = tagged size used left
  aligned : size % 4 = 0
  lt : size < 2 ^ 32

namespace HeaderAt

variable {m m' : Mem} {a size : Nat} {used left : Bool}

theorem store (h4 : size % 4 = 0) (hs : size < 2 ^ 32) :
    HeaderAt (m.store32 a (tagged size used left)) a size used left :=
  ⟨Mem.load32_store32_same (tagged_lt h4 hs), h4, hs⟩

theorem congr (h : HeaderAt m a size used left) (hm : m.AgreeOn m' a (a + 4)) :
    HeaderAt m' a size used left :=
  ⟨(Mem.load32_congr hm).trans h.word, h.aligned, h.lt⟩

theorem getHdrChunkSize_eq (h : HeaderAt m a size used left) : getHdrChunkSize m a = size := by
  rw [getHdrChunkSize, h.word, tagged_and_sizeMask h.aligned h.lt]

theorem isThisFree_eq (h : HeaderAt m a size used left) : isThisFree m a = !used := by
  rw [isThisFree, h.word, tagged_and_two h.aligned]
  cases used <;> rfl

theorem isLeftFree_eq (h : HeaderAt m a size used left) : isLeftFree m a = !left := by
  rw [isLeftFree, h.word, tagged_and_one h.aligned]
  cases left <;> rfl

theorem hdrToRightHdr_eq (h : HeaderAt m a size used left) (hlt : a + size < 2 ^ 32) :
    hdrToRightHdr m a = a + size := by
  rw [hdrToRightHdr, h.getHdrChunkSize_eq, wadd_eq hlt]

theorem hdrToFtr_eq (h : HeaderAt m a size used left) (hlt : a + size < 2 ^ 32)
    (hge : 4 ≤ size) : hdrToFtr m a = a + size - 4 := by
  rw [hdrToFtr, h.getHdrChunkSize_eq, wadd_eq hlt, wsub_eq (by omega) hlt]

theorem setHdrChunkSize_eq (h : HeaderAt m a size used left) {t : Nat} (h4 : t % 4 = 0)
    (ht : t < 2 ^ 32) : setHdrChunkSize m a t = m.store32 a (tagged t used left) := by
  have hmask : t &&& 0xFFFFFFFC = t := by
    have hflags := @tagged_and_sizeMask t false false h4 ht
    simpa [tagged] using hflags
  rw [setHdrChunkSize, h.word, tagged_and_three h.aligned, hmask, or_tagged_zero h4]

theorem setThisFree_eq (h : HeaderAt m a size used left) :
    setThisFree m a = m.store32 a (tagged size false left) := by
  rw [setThisFree, h.word, tagged_and_not_two h.aligned h.lt]

theorem setSelfAllocated_eq (h : HeaderAt m a size used left) :
    setSelfAllocated m a = m.store32 a (tagged size true left) := by
  rw [setSelfAllocated, h.word, tagged_or_two h.aligned]

theorem setLeftAllocated_eq (h : HeaderAt m a size used left) :
    setLeftAllocated m a = m.store32 a (tagged size used true) := by
  rw [setLeftAllocated, h.word, tagged_or_one h.aligned]

theorem setLeftFree_eq (h : HeaderAt m a size used left) :
    setLeftFree m a = m.store32 a (tagged size used false) := by
  rw [setLeftFree, h.word, tagged_and_not_one h.aligned h.lt]

end HeaderAt

theorem ChunkAt.headerAt {m : Mem} {a : Nat} {left : Bool} {c : Chunk} (h : ChunkAt m a left c)
    (hlt : c.size < 2 ^ 32) : HeaderAt m a c.size c.allocated left :=
  ⟨h.header, c.size_mod_four, hlt⟩

/-- `set_free_chunk_hdr_ftr` writes a header without flags and a footer. -/
theorem setFreeChunkHdrFtr_eq (m : Mem) (a size : Nat) (h4 : size % 4 = 0) (hge : 8 ≤ size)
    (hlt : a + size < 2 ^ 32) : setFreeChunkHdrFtr m a size =
      (m.store32 (a + size - 4) size).store32 a (tagged size false false) := by
  have hclear : HeaderAt (m.store32 a (tagged 0 false false)) a 0 false false :=
    HeaderAt.store rfl (by decide)
  have hset : setHdrChunkSize (clearHdr m a) a size = m.store32 a (tagged size false false) := by
    exact (hclear.setHdrChunkSize_eq h4 (by omega)).trans Mem.store32_store32_same
  have hhdr : HeaderAt (m.store32 a (tagged size false false)) a size false false :=
    HeaderAt.store h4 (by omega)
  have hftr : HeaderAt ((m.store32 a (tagged size false false)).store32 (a + size - 4) size)
      a size false false := hhdr.congr (Mem.agreeOn_store32 (by omega))
  simp only [setFreeChunkHdrFtr, hset, setFtrChunkSize, hhdr.hdrToFtr_eq hlt (by omega)]
  rw [hftr.setThisFree_eq, Mem.store32_comm (by omega), Mem.store32_store32_same,
    Mem.store32_comm (by omega)]

-- ---------------------------------------------------------------------------
-- The invariant
-- ---------------------------------------------------------------------------

/-- The free chunks of a run of chunks. -/
def freeIn (a : Nat) (cs : List Chunk) (x size : Nat) : Prop :=
  ∃ c, (x, c) ∈ placed a cs ∧ c.payload = none ∧ c.size = size

/-- No two neighbouring chunks are free. -/
def Separated (cs : List Chunk) : Prop := cs.IsChain fun c d => c.allocated ∨ d.allocated

/-- The heap invariant. The chunks of the heap are `cs`, and the free lists have
the members `ls`. -/
structure Inv (P : Platform) (h : Heap) (cs : List Chunk) (ls : Fin 6 → List Nat) : Prop where
  valid : P.Valid h.heapStart
  start_mod : h.heapStart % 8 = 4
  end_eq : h.heapStart + extent cs + 4 = P.ramEnd
  tail : Tail h.mem h.heapStart true cs
  separated : Separated cs
  lists : Lists P h.mem ls (freeIn h.heapStart cs)
  cached : h.cached ≠ 0 → ∃ c, (h.cached, c) ∈ placed h.heapStart cs ∧ c.allocated

section Pieces

variable {P : Platform} {a x size start : Nat} {c : Chunk} {cs xs ys pre post : List Chunk}

theorem freeIn_append : freeIn a (xs ++ ys) x size ↔
    freeIn a xs x size ∨ freeIn (a + extent xs) ys x size := by
  simp only [freeIn, placed_append, List.mem_append, or_and_right, exists_or]

theorem freeIn_cons : freeIn a (c :: cs) x size ↔
    (x = a ∧ c.payload = none ∧ c.size = size) ∨ freeIn (a + c.size) cs x size := by
  simp only [freeIn, placed, List.mem_cons, Prod.mk.injEq, or_and_right, exists_or]
  constructor
  · rintro (⟨d, ⟨rfl, rfl⟩, hd⟩ | h)
    · exact Or.inl ⟨rfl, hd⟩
    · exact Or.inr h
  · rintro (⟨rfl, hc⟩ | h)
    · exact Or.inl ⟨c, ⟨rfl, rfl⟩, hc⟩
    · exact Or.inr h

theorem freeIn_bounds (h : freeIn a cs x size) :
    a ≤ x ∧ x + size ≤ a + extent cs ∧ 16 ≤ size ∧ x % 8 = a % 8 := by
  obtain ⟨c, hc, -, rfl⟩ := h
  have hb := placed_bounds hc
  exact ⟨hb.1, hb.2, c.le_size, placed_mod_eight hc⟩

/-- The neighbours of a free chunk are allocated, and so the header of a free
chunk and the header behind it record what the merges and splits leave there. -/
theorem Separated.endFlag_of_free (h : Separated (pre ++ c :: post)) (hc : c.payload = none) :
    endFlag true pre = true := by
  rcases List.eq_nil_or_concat pre with rfl | ⟨pre, d, rfl⟩
  · rfl
  · rw [List.concat_eq_append, Separated, List.append_assoc, List.singleton_append,
      List.isChain_append_cons_cons] at h
    have hfree := Chunk.allocated_eq_false.mpr hc
    simpa [endFlag, hfree] using h.2.1

/-- An address of the heap at which a chunk can start is a node of the lists. -/
theorem Platform.Valid.node (hv : P.Valid start) (hstart : start % 8 = 4) (hx : start ≤ x)
    (hmod : x % 8 = start % 8) (hend : x + 8 ≤ P.ramEnd) : Node P x := by
  have := hv.offset_le
  have := hv.sentinels_le
  have := hv.ramEnd_le
  have := hv.ramEnd_lt
  exact ⟨hv.offset_aligned, by omega, by omega, by omega, by omega⟩

end Pieces

-- ---------------------------------------------------------------------------
-- Working on one region
-- ---------------------------------------------------------------------------

/-- The heap around a region of `size` bytes behind the chunks `pre` and before the
chunks `post`. The header behind the region records `flag` for it. Nothing is said
about the region itself, and the lists hold no chunk of it. -/
structure Around (P : Platform) (m : Mem) (start : Nat) (pre : List Chunk) (size : Nat)
    (flag : Bool) (post : List Chunk) (ls : Fin 6 → List Nat) : Prop where
  valid : P.Valid start
  start_mod : start % 8 = 4
  le_size : 16 ≤ size
  aligned : size % 8 = 0
  end_eq : start + extent pre + size + extent post + 4 = P.ramEnd
  left : endFlag true pre = true
  before : Seg m start true pre
  behind : Tail m (start + extent pre + size) flag post
  lists : Lists P m ls fun y t =>
    freeIn start pre y t ∨ freeIn (start + extent pre + size) post y t

namespace Around

variable {P : Platform} {m m' : Mem} {start size : Nat} {flag : Bool} {pre post : List Chunk}
  {ls : Fin 6 → List Nat}

theorem node (h : Around P m start pre size flag post ls) : Node P (start + extent pre) := by
  have := h.le_size
  have := h.end_eq
  exact h.valid.node h.start_mod (by omega) (by have := extent_mod_eight pre; omega)
    (by omega)

/-- A node of the lists is outside the region. -/
theorem listNode_cases (h : Around P m start pre size flag post ls) {n : Nat}
    (hn : ListNode P (fun y t => freeIn start pre y t ∨
      freeIn (start + extent pre + size) post y t) n) :
    n + 8 ≤ start ∨ (∃ t, freeIn start pre n t) ∨
      ∃ t, freeIn (start + extent pre + size) post n t := by
  rcases hn with ⟨i, rfl⟩ | ⟨t, ht | ht⟩
  · have := h.valid.sentinels_le
    have := i.isLt
    left
    simp only [sentinelHdr]
    omega
  · exact Or.inr (Or.inl ⟨t, ht⟩)
  · exact Or.inr (Or.inr ⟨t, ht⟩)

/-- Writes inside the region change nothing around it. -/
theorem congr (h : Around P m start pre size flag post ls)
    (hm : ∀ y, y < start + extent pre ∨ start + extent pre + size ≤ y → m' y = m y) :
    Around P m' start pre size flag post ls := by
  refine { h with before := ?_, behind := ?_, lists := ?_ }
  · exact h.before.congr fun y _ hy => hm y (Or.inl hy)
  · exact h.behind.congr fun y hy _ => hm y (Or.inr hy)
  · refine h.lists.congr fun n hn y hy hy' => hm y ?_
    have := h.le_size
    rcases h.listNode_cases hn with hn | ⟨t, ht⟩ | ⟨t, ht⟩
    · omega
    · have := freeIn_bounds ht; omega
    · have := freeIn_bounds ht; omega

theorem store32 (h : Around P m start pre size flag post ls) {a v : Nat}
    (ha : start + extent pre ≤ a) (ha' : a + 4 ≤ start + extent pre + size) :
    Around P (m.store32 a v) start pre size flag post ls := by
  refine h.congr fun y hy => ?_
  rcases hy with hy | hy
  · exact Mem.store32_of_lt (by omega)
  · exact Mem.store32_of_ge (by omega)

/-- The header behind the region can record another flag. -/
theorem right_header (h : Around P m start pre size flag post ls) :
    ∃ t used, HeaderAt m (start + extent pre + size) t used flag ∧
      ∀ flag', Around P (m.store32 (start + extent pre + size) (tagged t used flag'))
        start pre size flag' post ls := by
  have hsize := h.le_size
  have hend := h.end_eq
  have hlt := h.valid.ramEnd_lt
  obtain ⟨t, used, hword, h4, ht, -, -, htail⟩ := h.behind.first_header (by omega)
  refine ⟨t, used, ⟨hword, h4, ht⟩, fun flag' => ?_⟩
  refine { h with before := ?_, behind := htail flag', lists := ?_ }
  · exact h.before.congr (Mem.agreeOn_store32 (by omega))
  · refine h.lists.congr fun n hn => Mem.agreeOn_store32 ?_
    rcases h.listNode_cases hn with hn | ⟨t, ht⟩ | ⟨t, ht⟩
    · omega
    · have := freeIn_bounds ht; omega
    · have := freeIn_bounds ht; omega

/-- Turn the region into an allocated chunk, whose payload is what the memory holds. -/
theorem placeUsed (h : Around P m start pre size true post ls)
    (hhdr : HeaderAt m (start + extent pre) size true true) :
    ∃ c : Chunk, c.size = size ∧ c.allocated = true ∧ Tail m start true (pre ++ c :: post) ∧
      Lists P m ls (freeIn start (pre ++ c :: post)) := by
  refine ⟨⟨size, some fun i => m (start + extent pre + 4 + i), h.le_size, h.aligned⟩, rfl, rfl,
    ?_, ?_⟩
  · refine tail_append.mpr ⟨h.before, tail_cons.mpr ⟨⟨?_, by simp, ?_⟩, h.behind⟩⟩
    · rw [hhdr.word, h.left]
      rfl
    · rintro f hf i -
      obtain rfl := Option.some.inj hf
      rfl
  · refine h.lists.congr_free fun y t => ?_
    simp [freeIn_append, freeIn_cons]

/-- A free chunk of the given size. -/
def freeChunk (size : Nat) (hge : 16 ≤ size) (h8 : size % 8 = 0) : Chunk := ⟨size, none, hge, h8⟩

/-- Turn the region into a free chunk and put it in the list of its size. -/
theorem placeFree (h : Around P m start pre size false post ls)
    (hhdr : HeaderAt m (start + extent pre) size false true)
    (hftr : m.load32 (start + extent pre + size - 4) = size) :
    Tail (linkChunk P m (sentinelHdr P (chunkSizeToListIndex size)) (start + extent pre)) start true
        (pre ++ freeChunk size h.le_size h.aligned :: post) ∧
      Lists P (linkChunk P m (sentinelHdr P (chunkSizeToListIndex size)) (start + extent pre))
        (Function.update ls (listIndex size) ((start + extent pre) :: ls (listIndex size)))
        (freeIn start (pre ++ freeChunk size h.le_size h.aligned :: post)) := by
  have hsize := h.le_size
  have hout := h.valid.sentinels_le
  have hfresh : ∀ t, ¬ (freeIn start pre (start + extent pre) t ∨
      freeIn (start + extent pre + size) post (start + extent pre) t) := by
    rintro t (ht | ht)
    · have := freeIn_bounds ht; omega
    · have := freeIn_bounds ht; omega
  obtain ⟨hlists, nodes, hnodes, hm⟩ := h.lists.link h.node (by omega) hfresh size
  have htail : Tail m start true (pre ++ freeChunk size h.le_size h.aligned :: post) := by
    refine tail_append.mpr ⟨h.before, tail_cons.mpr ⟨⟨?_, fun _ => hftr, by simp [freeChunk]⟩,
      h.behind⟩⟩
    rw [hhdr.word, h.left]
    rfl
  refine ⟨htail.congr_links hm fun n hn => ?_, hlists.congr_free fun y t => ?_⟩
  · rcases hnodes n hn with rfl | hn
    · exact Or.inr (Or.inr ⟨_, by simp [placed_append, placed]; exact Or.inr (Or.inl rfl), rfl⟩)
    · rcases h.listNode_cases hn with hn | ⟨t, d, hd, hfree, -⟩ | ⟨t, d, hd, hfree, -⟩
      · exact Or.inl hn
      · exact Or.inr (Or.inr ⟨d, by simp [placed_append, hd], hfree⟩)
      · exact Or.inr (Or.inr ⟨d, by simp [placed_append, placed, freeChunk, hd], hfree⟩)
  · simp only [freeIn_append, freeIn_cons, freeChunk]
    constructor
    · rintro (hy | ⟨rfl, -, rfl⟩ | hy)
      · exact Or.inl (Or.inl hy)
      · exact Or.inr ⟨rfl, rfl⟩
      · exact Or.inl (Or.inr hy)
    · rintro ((hy | hy) | ⟨rfl, rfl⟩)
      · exact Or.inl hy
      · exact Or.inr (Or.inr hy)
      · exact Or.inr (Or.inl ⟨rfl, trivial, rfl⟩)

end Around

-- ---------------------------------------------------------------------------
-- Taking chunks out of the lists
-- ---------------------------------------------------------------------------

section Unlink

variable {P : Platform} {m : Mem} {start x size : Nat} {cs pre mid post : List Chunk}
  {ls : Fin 6 → List Nat} {hidden : List Nat}

/-- The chunks of the heap are `cs`, and the lists hold all free chunks of it but
those at the addresses `hidden`. -/
structure Partly (P : Platform) (m : Mem) (start : Nat) (cs : List Chunk) (hidden : List Nat)
    (ls : Fin 6 → List Nat) : Prop where
  valid : P.Valid start
  start_mod : start % 8 = 4
  end_eq : start + extent cs + 4 = P.ramEnd
  tail : Tail m start true cs
  lists : Lists P m ls fun y t => freeIn start cs y t ∧ y ∉ hidden

theorem Inv.partly {h : Heap} (hinv : Inv P h cs ls) : Partly P h.mem h.heapStart cs [] ls :=
  ⟨hinv.valid, hinv.start_mod, hinv.end_eq, hinv.tail,
    hinv.lists.congr_free fun y t => by simp⟩

/-- `unlink_chunk` hides one more chunk. -/
theorem Partly.unlink (h : Partly P m start cs hidden ls) (hx : freeIn start cs x size)
    (hvis : x ∉ hidden) : ∃ ls', Partly P (unlinkChunk P m x) start cs (x :: hidden) ls' := by
  obtain ⟨nodes, u, v, -, hlists, hnodes, hm⟩ := h.lists.unlink ⟨hx, hvis⟩
  refine ⟨_, { h with tail := ?_, lists := hlists.congr_free fun y t => ?_ }⟩
  · refine h.tail.congr_links hm fun n hn => ?_
    rcases hnodes n hn with ⟨i, rfl⟩ | ⟨t, ⟨d, hd, hfree, -⟩, -⟩
    · have := h.valid.sentinels_le
      have := i.isLt
      left
      simp only [sentinelHdr]
      omega
    · exact Or.inr (Or.inr ⟨d, hd, hfree⟩)
  · simp only [List.mem_cons, not_or]
    tauto

/-- When all free chunks of a part of the heap are hidden, that part is a region to
work on. -/
theorem Partly.around (h : Partly P m start (pre ++ mid ++ post) hidden ls) (hmid : mid ≠ [])
    (hleft : endFlag true pre = true)
    (hin : ∀ y ∈ hidden, start + extent pre ≤ y ∧ y < start + extent pre + extent mid)
    (hall : ∀ y t, freeIn (start + extent pre) mid y t → y ∈ hidden) :
    Around P m start pre (extent mid) (endFlag true mid) post ls := by
  obtain ⟨hbm, hpost⟩ := tail_append.mp h.tail
  obtain ⟨hbefore, -⟩ := seg_append.mp hbm
  have hlen := length_le_extent mid
  have hpos : 0 < mid.length := List.length_pos_iff.mpr hmid
  have hend := h.end_eq
  simp only [extent_append] at hend
  rw [extent_append, ← Nat.add_assoc, endFlag_append, hleft] at hpost
  refine ⟨h.valid, h.start_mod, by omega, extent_mod_eight mid, by omega, hleft, hbefore, hpost, ?_⟩
  refine h.lists.congr_free fun y t => ?_
  simp only [freeIn_append, extent_append, Nat.add_assoc]
  constructor
  · rintro (hy | hy)
    · refine ⟨Or.inl (Or.inl hy), fun hyin => ?_⟩
      have := freeIn_bounds hy
      have := hin y hyin
      omega
    · refine ⟨Or.inr hy, fun hyin => ?_⟩
      have := freeIn_bounds hy
      have := hin y hyin
      omega
  · rintro ⟨(hy | hy) | hy, hvis⟩
    · exact Or.inl hy
    · exact absurd (hall y t hy) hvis
    · exact Or.inr hy

end Unlink

end Hopter.Allocator
