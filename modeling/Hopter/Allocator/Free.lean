-- SUMMARY: `mcu_free` keeps the heap invariant and every allocated chunk but the one it releases.
import Hopter.Allocator.Invariant

/-!
# Freeing a chunk

`mcu_free` puts the freed chunk in the cache and releases the chunk that was there
before. Releasing merges the chunk with its free neighbours: the four cases of
`merge_neighbor_if_possible` leave the same picture, one region with a header of
the total size (`Merged`), and the rest of `mcu_free` does not distinguish them.
-/

namespace Hopter.Allocator

open Word

variable {P : Platform} {m : Mem} {h : Heap} {start x : Nat} {c : Chunk}
  {cs pre mid post : List Chunk} {ls : Fin 6 → List Nat} {hidden : List Nat}

-- ---------------------------------------------------------------------------
-- Reading the headers
-- ---------------------------------------------------------------------------

theorem Partly.bounds (hp : Partly P m start cs hidden ls) (hx : (x, c) ∈ placed start cs) :
    start ≤ x ∧ x + c.size + 4 ≤ P.ramEnd ∧ P.ramEnd < 2 ^ 32 := by
  have := placed_bounds hx
  have := hp.end_eq
  exact ⟨by omega, by omega, hp.valid.ramEnd_lt⟩

theorem Partly.chunkAt (hp : Partly P m start (pre ++ c :: post) hidden ls) :
    ChunkAt m (start + extent pre) (endFlag true pre) c :=
  (tail_cons.mp (tail_append.mp hp.tail).2).1

theorem Partly.headerAt (hp : Partly P m start (pre ++ c :: post) hidden ls) :
    HeaderAt m (start + extent pre) c.size c.allocated (endFlag true pre) := by
  have := hp.bounds (mem_placed.mpr ⟨pre, post, rfl, rfl⟩)
  exact hp.chunkAt.headerAt (by omega)

/-- The flag of the first header of a run that ends at the guard. -/
theorem Tail.isThisFree_eq {a : Nat} {left : Bool} (h : Tail m a left cs)
    (hbound : a + extent cs < 2 ^ 32) : isThisFree m a = cs.head?.any fun c => !c.allocated := by
  cases cs with
  | nil =>
    have hguard : HeaderAt m a 0 true left := ⟨tail_nil.mp h, rfl, by decide⟩
    simpa using hguard.isThisFree_eq
  | cons c cs =>
    simp only [extent] at hbound
    have hhdr := (tail_cons.mp h).1.headerAt (by omega)
    simpa using hhdr.isThisFree_eq

theorem Partly.isRightFree_eq (hp : Partly P m start (pre ++ c :: post) hidden ls) :
    isRightFree m (start + extent pre) = post.head?.any fun d => !d.allocated := by
  have hb := hp.bounds (mem_placed.mpr ⟨pre, post, rfl, rfl⟩)
  have hend := hp.end_eq
  simp only [extent_append, extent] at hend
  rw [isRightFree, hp.headerAt.hdrToRightHdr_eq (by omega)]
  exact (tail_cons.mp (tail_append.mp hp.tail).2).2.isThisFree_eq (by omega)

/-- The footer of a free chunk leads from the next header back to its own. -/
theorem Partly.hdrToLeftHdr_eq {l : Chunk}
    (hp : Partly P m start (pre ++ l :: c :: post) hidden ls) (hl : l.payload = none) :
    hdrToLeftHdr m (start + extent pre + l.size) = start + extent pre := by
  have hb := hp.bounds (mem_placed.mpr ⟨pre, c :: post, rfl, rfl⟩)
  have hge := l.le_size
  have hleftFtr : hdrToLeftFtr (start + extent pre + l.size) = start + extent pre + l.size - 4 :=
    wsub_eq (by omega) (by omega)
  rw [hdrToLeftHdr, hleftFtr, hp.chunkAt.footer hl, wsub_eq (by omega) (by omega)]
  omega

/-- The chunk before a header that records a free left neighbour. -/
theorem exists_free_of_endFlag (h : endFlag true pre = false) :
    ∃ pre' l, pre = pre' ++ [l] ∧ l.payload = none := by
  rcases List.eq_nil_or_concat pre with rfl | ⟨pre', l, rfl⟩
  · simp [endFlag] at h
  · refine ⟨pre', l, by simp, Chunk.allocated_eq_false.mp ?_⟩
    simpa [endFlag] using h

-- ---------------------------------------------------------------------------
-- Merging
-- ---------------------------------------------------------------------------

/-- The picture after merging the allocated chunk at `x` with its free neighbours:
the header at `hdr` covers the chunks `mid`. -/
structure Merged (P : Platform) (m : Mem) (hdr start : Nat) (x : Nat)
    (pre mid post : List Chunk) (ls : Fin 6 → List Nat) : Prop where
  hdr_eq : hdr = start + extent pre
  around : Around P m start pre (extent mid) (endFlag true mid) post ls
  header : ∃ used left, HeaderAt m (start + extent pre) (extent mid) used left
  only : ∀ y d, (y, d) ∈ placed (start + extent pre) mid → d.allocated = true → y = x
  right : ∀ d ∈ post.head?, d.allocated = true

/-- The chunks `mid` of a region are the allocated chunk at `x` and hidden free chunks. -/
structure Gathered (start x : Nat) (hidden : List Nat) (mid : List Chunk) : Prop where
  cases : ∀ p ∈ placed start mid,
    (p.1 = x ∧ p.2.allocated = true) ∨ (p.1 ∈ hidden ∧ p.2.payload = none)
  hidden : ∀ y ∈ hidden, ∃ d, (y, d) ∈ placed start mid

theorem Gathered.only (hg : Gathered start x hidden mid) {y : Nat} {d : Chunk}
    (hd : (y, d) ∈ placed start mid) (ha : d.allocated = true) : y = x := by
  rcases hg.cases (y, d) hd with ⟨rfl, -⟩ | ⟨-, hfree⟩
  · rfl
  · rw [Chunk.allocated_eq_false.mpr hfree] at ha
    exact absurd ha (by decide)

theorem Partly.around_of_gathered (hp : Partly P m start (pre ++ mid ++ post) hidden ls)
    (hmid : mid ≠ []) (hleft : endFlag true pre = true)
    (hg : Gathered (start + extent pre) x hidden mid) :
    Around P m start pre (extent mid) (endFlag true mid) post ls := by
  refine hp.around hmid hleft (fun y hy => ?_) fun y t hy => ?_
  · obtain ⟨d, hd⟩ := hg.hidden y hy
    have := placed_bounds hd
    have := d.le_size
    omega
  · obtain ⟨d, hd, hfree, -⟩ := hy
    rcases hg.cases (y, d) hd with ⟨-, ha⟩ | ⟨hhid, -⟩
    · rw [Chunk.allocated_eq_false.mpr hfree] at ha
      exact absurd ha (by decide)
    · exact hhid

/-- Rewriting the first header of a region to the total size of its chunks. -/
theorem Partly.merged (hp : Partly P m start (pre ++ c :: (mid ++ post)) hidden ls)
    (hleft : endFlag true pre = true) (hg : Gathered (start + extent pre) x hidden (c :: mid))
    (hright : ∀ d ∈ post.head?, d.allocated = true) :
    Merged P (setHdrChunkSize m (start + extent pre) (extent (c :: mid))) (start + extent pre)
      start x pre (c :: mid) post ls := by
  have hhdr := hp.headerAt
  rw [← List.cons_append, ← List.append_assoc] at hp
  have haround := hp.around_of_gathered (by simp) hleft hg
  have hend := haround.end_eq
  have hge := haround.le_size
  have hlt := hp.valid.ramEnd_lt
  have h4 : extent (c :: mid) % 4 = 0 := by
    have := extent_mod_eight (c :: mid)
    omega
  rw [hhdr.setHdrChunkSize_eq h4 (by omega)]
  exact ⟨rfl, haround.store32 le_rfl (by omega), ⟨_, _, HeaderAt.store h4 (by omega)⟩,
    fun y d => hg.only, hright⟩

section Cases

variable {l r : Chunk}

theorem Partly.getHdrChunkSize_eq (hp : Partly P m start cs hidden ls)
    (hx : (x, c) ∈ placed start cs) : getHdrChunkSize m x = c.size := by
  obtain ⟨pre, post, rfl, rfl⟩ := mem_placed.mp hx
  exact hp.headerAt.getHdrChunkSize_eq

/-- Neither neighbour is free. -/
theorem Partly.merged_none (hp : Partly P m start (pre ++ c :: post) [] ls)
    (hc : c.allocated = true) (hleft : endFlag true pre = true)
    (hright : ∀ d ∈ post.head?, d.allocated = true) :
    Merged P m (start + extent pre) start (start + extent pre) pre [c] post ls := by
  have hg : Gathered (start + extent pre) (start + extent pre) [] [c] :=
    ⟨by simp [placed, hc], by simp⟩
  have hhdr : HeaderAt m (start + extent pre) (extent [c]) c.allocated (endFlag true pre) := by
    simpa [extent] using hp.headerAt
  rw [← List.singleton_append, ← List.append_assoc] at hp
  exact ⟨rfl, hp.around_of_gathered (by simp) hleft hg, ⟨_, _, hhdr⟩, fun y d => hg.only, hright⟩

/-- The left neighbour is free. -/
theorem Partly.merged_left (hp : Partly P m start (pre ++ l :: c :: post) [] ls)
    (hc : c.allocated = true) (hl : l.payload = none) (hleft : endFlag true pre = true)
    (hright : ∀ d ∈ post.head?, d.allocated = true) :
    ∃ ls', Merged P (unlinkAndMergeLeft P m (start + extent pre + l.size)).1
      (unlinkAndMergeLeft P m (start + extent pre + l.size)).2 start
      (start + extent pre + l.size) pre [l, c] post ls' := by
  have hlx : (start + extent pre, l) ∈ placed start (pre ++ l :: c :: post) :=
    mem_placed.mpr ⟨pre, _, rfl, rfl⟩
  have hcx : (start + extent pre + l.size, c) ∈ placed start (pre ++ l :: c :: post) :=
    mem_placed.mpr ⟨pre ++ [l], post, by simp, by simp [extent, Nat.add_assoc]⟩
  have hb := hp.bounds hcx
  obtain ⟨ls', hp'⟩ := hp.unlink ⟨l, hlx, hl, rfl⟩ (by simp)
  refine ⟨ls', ?_⟩
  simp only [unlinkAndMergeLeft, hp.hdrToLeftHdr_eq hl, hp'.getHdrChunkSize_eq hcx,
    hp'.getHdrChunkSize_eq hlx]
  have htotal : wadd c.size l.size = extent [l, c] := by
    rw [wadd_eq (by omega)]
    simp only [extent]
    omega
  rw [htotal]
  exact hp'.merged hleft ⟨by simp [placed, hc, hl], by simp [placed]⟩ hright

/-- The right neighbour is free. -/
theorem Partly.merged_right (hp : Partly P m start (pre ++ c :: r :: post) [] ls)
    (hc : c.allocated = true) (hr : r.payload = none) (hleft : endFlag true pre = true)
    (hright : ∀ d ∈ post.head?, d.allocated = true) :
    ∃ ls', Merged P (unlinkAndMergeRight P m (start + extent pre)).1
      (unlinkAndMergeRight P m (start + extent pre)).2 start (start + extent pre)
      pre [c, r] post ls' := by
  have hcx : (start + extent pre, c) ∈ placed start (pre ++ c :: r :: post) :=
    mem_placed.mpr ⟨pre, _, rfl, rfl⟩
  have hrx : (start + extent pre + c.size, r) ∈ placed start (pre ++ c :: r :: post) :=
    mem_placed.mpr ⟨pre ++ [c], post, by simp, by simp [extent, Nat.add_assoc]⟩
  have hb := hp.bounds hrx
  obtain ⟨ls', hp'⟩ := hp.unlink ⟨r, hrx, hr, rfl⟩ (by simp)
  refine ⟨ls', ?_⟩
  simp only [unlinkAndMergeRight, hp.headerAt.hdrToRightHdr_eq (by omega),
    hp'.getHdrChunkSize_eq hcx, hp'.getHdrChunkSize_eq hrx]
  have htotal : wadd c.size r.size = extent [c, r] := by
    rw [wadd_eq (by omega)]
    simp only [extent]
    omega
  rw [htotal]
  exact hp'.merged hleft ⟨by simp [placed, hc, hr], by simp [placed]⟩ hright

/-- Both neighbours are free. -/
theorem Partly.merged_both (hp : Partly P m start (pre ++ l :: c :: r :: post) [] ls)
    (hc : c.allocated = true) (hl : l.payload = none) (hr : r.payload = none)
    (hleft : endFlag true pre = true) (hright : ∀ d ∈ post.head?, d.allocated = true) :
    ∃ ls', Merged P (unlinkAndMergeNeighbor P m (start + extent pre + l.size)).1
      (unlinkAndMergeNeighbor P m (start + extent pre + l.size)).2 start
      (start + extent pre + l.size) pre [l, c, r] post ls' := by
  have hlx : (start + extent pre, l) ∈ placed start (pre ++ l :: c :: r :: post) :=
    mem_placed.mpr ⟨pre, _, rfl, rfl⟩
  have hcx : (start + extent pre + l.size, c) ∈ placed start (pre ++ l :: c :: r :: post) :=
    mem_placed.mpr ⟨pre ++ [l], r :: post, by simp, by simp [extent, Nat.add_assoc]⟩
  have hrx : (start + extent pre + l.size + c.size, r) ∈
      placed start (pre ++ l :: c :: r :: post) :=
    mem_placed.mpr ⟨pre ++ [l, c], post, by simp, by simp [extent, Nat.add_assoc]⟩
  have hb := hp.bounds hrx
  have hlsize := l.le_size
  have hcsize := c.le_size
  have hrhdr : hdrToRightHdr m (start + extent pre + l.size) =
      start + extent pre + l.size + c.size := by
    rw [hdrToRightHdr, hp.getHdrChunkSize_eq hcx, wadd_eq (by omega)]
  obtain ⟨ls₁, hp₁⟩ := hp.unlink ⟨l, hlx, hl, rfl⟩ (by simp)
  obtain ⟨ls₂, hp₂⟩ := hp₁.unlink ⟨r, hrx, hr, rfl⟩ (by simp; omega)
  refine ⟨ls₂, ?_⟩
  simp only [unlinkAndMergeNeighbor, hp.hdrToLeftHdr_eq hl, hrhdr, hp₂.getHdrChunkSize_eq hcx,
    hp₂.getHdrChunkSize_eq hlx, hp₂.getHdrChunkSize_eq hrx]
  have htotal : wadd (wadd c.size l.size) r.size = extent [l, c, r] := by
    rw [wadd_eq (by omega : c.size + l.size < 2 ^ 32), wadd_eq (by omega)]
    simp only [extent]
    omega
  rw [htotal]
  refine hp₂.merged hleft ⟨by simp [placed, hc, hl, hr], ?_⟩ hright
  simp only [List.mem_cons, List.not_mem_nil, or_false, forall_eq_or_imp, forall_eq]
  exact ⟨⟨r, by simp [placed]⟩, ⟨l, by simp [placed]⟩⟩

end Cases

/-- The chunk behind a free chunk is allocated. -/
theorem Separated.right_of_free (h : Separated (pre ++ c :: post)) (hc : c.payload = none) :
    ∀ d ∈ post.head?, d.allocated = true := by
  intro d hd
  cases post with
  | nil => simp at hd
  | cons e post =>
    obtain rfl : e = d := by simpa using hd
    rw [Separated, List.isChain_append_cons_cons] at h
    simpa [Chunk.allocated_eq_false.mpr hc] using h.2.1

/-- What the check of the right neighbour means. -/
theorem right_cases (post : List Chunk) :
    (post.head?.any (fun d => !d.allocated) = false ∧ ∀ d ∈ post.head?, d.allocated = true) ∨
      (post.head?.any (fun d => !d.allocated) = true ∧
        ∃ r post', post = r :: post' ∧ r.payload = none) := by
  cases post with
  | nil => simp
  | cons r post =>
    cases hr : r.allocated with
    | true => simp [hr]
    | false => exact Or.inr ⟨by simp [hr], r, post, rfl, Chunk.allocated_eq_false.mp hr⟩

/-- `merge_neighbor_if_possible` takes the free neighbours of an allocated chunk out
of the lists and joins them with the chunk. -/
theorem mergeNeighborIfPossible_spec (hinv : Inv P h (pre ++ c :: post) ls)
    (hc : c.allocated = true) :
    ∃ pre' mid post' ls', pre ++ c :: post = pre' ++ mid ++ post' ∧ used mid = c.used ∧
      Merged P (mergeNeighborIfPossible P h.mem (h.heapStart + extent pre)).1
        (mergeNeighborIfPossible P h.mem (h.heapStart + extent pre)).2 h.heapStart
        (h.heapStart + extent pre) pre' mid post' ls' := by
  have hp := hinv.partly
  have hsep := hinv.separated
  have hl := hp.headerAt.isLeftFree_eq
  have hr := hp.isRightFree_eq
  cases hflag : endFlag true pre with
  | true =>
    rcases right_cases post with ⟨hno, hright⟩ | ⟨hyes, r, post', rfl, hfree⟩
    · simp only [mergeNeighborIfPossible, hl, hr, hflag, hno, Bool.not_true]
      exact ⟨pre, [c], post, ls, by simp, by simp, hp.merged_none hc hflag hright⟩
    · simp only [mergeNeighborIfPossible, hl, hr, hflag, hyes, Bool.not_true]
      rw [← List.singleton_append, ← List.append_assoc] at hsep
      obtain ⟨ls', hm⟩ := hp.merged_right hc hfree hflag (hsep.right_of_free hfree)
      exact ⟨pre, [c, r], post', ls', by simp, by simp [Chunk.used_of_free hfree], hm⟩
  | false =>
    obtain ⟨pre', l, rfl, hlfree⟩ := exists_free_of_endFlag hflag
    have haddr : h.heapStart + extent (pre' ++ [l]) = h.heapStart + extent pre' + l.size := by
      simp [extent, Nat.add_assoc]
    rw [haddr] at hl hr ⊢
    rw [List.append_assoc, List.singleton_append] at hp hsep
    have hleft := hsep.endFlag_of_free hlfree
    rcases right_cases post with ⟨hno, hright⟩ | ⟨hyes, r, post', rfl, hfree⟩
    · simp only [mergeNeighborIfPossible, hl, hr, hflag, hno, Bool.not_false]
      obtain ⟨ls', hm⟩ := hp.merged_left hc hlfree hleft hright
      exact ⟨pre', [l, c], post, ls', by simp, by simp [Chunk.used_of_free hlfree], hm⟩
    · simp only [mergeNeighborIfPossible, hl, hr, hflag, hyes, Bool.not_false]
      have hsplit : pre' ++ l :: c :: r :: post' = pre' ++ [l, c] ++ r :: post' := by simp
      rw [hsplit] at hsep
      obtain ⟨ls', hm⟩ := hp.merged_both hc hlfree hfree hleft (hsep.right_of_free hfree)
      exact ⟨pre', [l, c, r], post', ls', by simp,
        by simp [Chunk.used_of_free hlfree, Chunk.used_of_free hfree], hm⟩

-- ---------------------------------------------------------------------------
-- Releasing
-- ---------------------------------------------------------------------------

/-- The part of `mcu_free` after the merge. -/
def releaseMerged (P : Platform) (m : Mem) (hdr : Nat) : Mem :=
  let m := setThisFree m hdr
  let m := setFtrChunkSize m (hdrToFtr m hdr) (getHdrChunkSize m hdr)
  let m := setLeftAllocated m hdr
  let m := setLeftFree m (hdrToRightHdr m hdr)
  linkChunk P m (sentinelHdr P (chunkSizeToListIndex (getHdrChunkSize m hdr))) hdr

theorem mcuFree_eq (h : Heap) (payload : Nat) : mcuFree P h payload =
    if h.cached = 0 then { h with cached := payloadToHdr payload }
    else { h with
      mem := releaseMerged P (mergeNeighborIfPossible P h.mem h.cached).1
        (mergeNeighborIfPossible P h.mem h.cached).2
      cached := payloadToHdr payload
      curAllocSize := wsub h.curAllocSize (getHdrChunkSize h.mem h.cached) } := rfl

@[simp] theorem mcuFree_heapStart (h : Heap) (payload : Nat) :
    (mcuFree P h payload).heapStart = h.heapStart := by
  rw [mcuFree_eq]
  split <;> rfl

@[simp] theorem mcuFree_cached (h : Heap) (payload : Nat) :
    (mcuFree P h payload).cached = payloadToHdr payload := by
  rw [mcuFree_eq]
  split <;> rfl

@[simp] theorem mcuFree_maxAllocSize (h : Heap) (payload : Nat) :
    (mcuFree P h payload).maxAllocSize = h.maxAllocSize := by
  rw [mcuFree_eq]
  split <;> rfl

@[simp] theorem mcuFree_highWaterMark (h : Heap) (payload : Nat) :
    (mcuFree P h payload).highWaterMark = h.highWaterMark := by
  rw [mcuFree_eq]
  split <;> rfl

/-- Before it links the chunk, `mcu_free` turns the region into a free chunk: header,
footer and the flag of the chunk behind it. -/
theorem Around.releaseMerged_eq {size : Nat} {flag used left : Bool}
    (ha : Around P m start pre size flag post ls)
    (hhdr : HeaderAt m (start + extent pre) size used left) :
    ∃ m', Around P m' start pre size false post ls ∧
      HeaderAt m' (start + extent pre) size false true ∧
      m'.load32 (start + extent pre + size - 4) = size ∧
      releaseMerged P m (start + extent pre) =
        linkChunk P m' (sentinelHdr P (chunkSizeToListIndex size)) (start + extent pre) := by
  have hge := ha.le_size
  have hend := ha.end_eq
  have hlt := ha.valid.ramEnd_lt
  have h4 := hhdr.aligned
  generalize ha' : start + extent pre = a at *
  let m₁ := m.store32 a (tagged size false left)
  let m₂ := m₁.store32 (a + size - 4) size
  let m₃ := m₂.store32 a (tagged size false true)
  have hh₁ : HeaderAt m₁ a size false left := HeaderAt.store h4 hhdr.lt
  have hh₂ : HeaderAt m₂ a size false left := hh₁.congr (Mem.agreeOn_store32 (by omega))
  have hh₃ : HeaderAt m₃ a size false true := HeaderAt.store h4 hhdr.lt
  have hf₃ : m₃.load32 (a + size - 4) = size := by
    rw [Mem.load32_store32_disjoint (by omega)]
    exact Mem.load32_store32_same hhdr.lt
  have ha₁ : Around P m₁ start pre size flag post ls := ha.store32 (by omega) (by omega)
  have ha₂ : Around P m₂ start pre size flag post ls := ha₁.store32 (by omega) (by omega)
  have ha₃ : Around P m₃ start pre size flag post ls := ha₂.store32 (by omega) (by omega)
  obtain ⟨t, rused, hright, hflag⟩ := ha₃.right_header
  rw [ha'] at hright hflag
  refine ⟨m₃.store32 (a + size) (tagged t rused false), hflag false, ?_, ?_, ?_⟩
  · exact hh₃.congr (Mem.agreeOn_store32 (by omega))
  · rw [Mem.load32_store32_disjoint (by omega), hf₃]
  · have hsize : getHdrChunkSize (m₃.store32 (a + size) (tagged t rused false)) a = size :=
      (hh₃.congr (Mem.agreeOn_store32 (by omega))).getHdrChunkSize_eq
    simp only [releaseMerged, setFtrChunkSize]
    rw [hhdr.setThisFree_eq, hh₁.hdrToFtr_eq (by omega) (by omega), hh₁.getHdrChunkSize_eq,
      hh₂.setLeftAllocated_eq, hh₃.hdrToRightHdr_eq (by omega), hright.setLeftFree_eq, hsize]

/-- The region of a merge becomes one free chunk. -/
theorem Merged.release {hdr : Nat} (hm : Merged P m hdr start x pre mid post ls) :
    ∃ c ls', c.payload = none ∧ c.size = extent mid ∧
      Tail (releaseMerged P m hdr) start true (pre ++ c :: post) ∧
      Lists P (releaseMerged P m hdr) ls' (freeIn start (pre ++ c :: post)) := by
  obtain ⟨used, left, hhdr⟩ := hm.header
  obtain ⟨m', ha, hh, hf, heq⟩ := hm.around.releaseMerged_eq hhdr
  obtain ⟨htail, hlists⟩ := ha.placeFree hh hf
  rw [hm.hdr_eq, heq]
  exact ⟨_, _, rfl, rfl, htail, hlists⟩

/-- Replacing a part of the heap by a free chunk keeps free chunks apart when the
chunks next to the part are allocated. -/
theorem Separated.replace (h : Separated (pre ++ mid ++ post)) (hleft : endFlag true pre = true)
    (hright : ∀ d ∈ post.head?, d.allocated = true) : Separated (pre ++ c :: post) := by
  rw [Separated, List.append_assoc, List.isChain_append] at h
  obtain ⟨hpre, hrest, -⟩ := h
  have hpost := (List.isChain_append.mp hrest).2.1
  refine List.isChain_append.mpr ⟨hpre, List.isChain_cons.mpr ⟨?_, hpost⟩, ?_⟩
  · exact fun d hd => Or.inr (hright d hd)
  · intro d hd _ _
    rcases List.eq_nil_or_concat pre with rfl | ⟨pre', l, rfl⟩
    · simp at hd
    · obtain rfl : l = d := by simpa using hd
      left
      simpa [endFlag] using hleft

/-- The size of the cached chunk. -/
def Heap.cachedSize (h : Heap) : Nat := if h.cached = 0 then 0 else getHdrChunkSize h.mem h.cached

/-- What `mcu_free` keeps: the allocated chunks but the one that was cached before, which is
free then. -/
structure Freed (h : Heap) (cs cs' : List Chunk) : Prop where
  kept : ∀ y d, (y, d) ∈ placed h.heapStart cs → d.allocated = true → y ≠ h.cached →
    (y, d) ∈ placed h.heapStart cs'
  old : ∀ y d, (y, d) ∈ placed h.heapStart cs' → d.allocated = true →
    (y, d) ∈ placed h.heapStart cs
  used : used cs' + h.cachedSize = used cs

/-- `mcu_free` of an allocated chunk that is not cached keeps the invariant. -/
theorem Inv.mcuFree (hinv : Inv P h cs ls) {payload : Nat}
    (hx : (payloadToHdr payload, c) ∈ placed h.heapStart cs) (hc : c.allocated = true)
    (hne : payloadToHdr payload ≠ h.cached) :
    ∃ cs' ls', Inv P (mcuFree P h payload) cs' ls' ∧ Freed h cs cs' := by
  rw [mcuFree_eq]
  by_cases h0 : h.cached = 0
  · rw [if_pos h0]
    exact ⟨cs, ls, ⟨hinv.valid, hinv.start_mod, hinv.end_eq, hinv.tail, hinv.separated, hinv.lists,
      fun _ => ⟨c, hx, hc⟩⟩, fun y d hd _ _ => hd, fun y d hd _ => hd, by simp [Heap.cachedSize, h0]⟩
  · rw [if_neg h0]
    obtain ⟨old, hold, halloc⟩ := hinv.cached h0
    have hsize : h.cachedSize = old.used := by
      rw [Heap.cachedSize, if_neg h0, hinv.partly.getHdrChunkSize_eq hold, Chunk.used_of_allocated halloc]
    obtain ⟨pre, post, rfl, hcached⟩ := mem_placed.mp hold
    rw [hcached] at hne ⊢
    obtain ⟨pre', mid, post', ls', hsplit, hused, hm⟩ := mergeNeighborIfPossible_spec hinv halloc
    obtain ⟨d, ls'', hd, hdsize, htail, hlists⟩ := hm.release
    -- An allocated chunk outside the merged region is still there.
    have hkeep : ∀ y e, (y, e) ∈ placed h.heapStart (pre ++ old :: post) → e.allocated = true →
        y ≠ h.heapStart + extent pre → (y, e) ∈ placed h.heapStart (pre' ++ d :: post') := by
      intro y e he hea hye
      rw [hsplit, List.append_assoc, placed_append, placed_append] at he
      rw [placed_append, placed, hdsize]
      rcases List.mem_append.mp he with he | he
      · exact List.mem_append.mpr (Or.inl he)
      · rcases List.mem_append.mp he with he | he
        · exact absurd (hm.only y e he hea) hye
        · exact List.mem_append.mpr (Or.inr (List.mem_cons_of_mem _ he))
    refine ⟨_, _, ⟨hinv.valid, hinv.start_mod, ?_, htail, ?_, hlists, ?_⟩,
      hcached ▸ hkeep, fun y e he hea => ?_, ?_⟩
    · have hend := hinv.end_eq
      rw [hsplit] at hend
      simp only [extent_append, extent, hdsize] at hend ⊢
      omega
    · have hsep := hinv.separated
      rw [hsplit] at hsep
      exact hsep.replace hm.around.left hm.right
    · exact fun _ => ⟨c, hkeep _ c hx hc hne, hc⟩
    · rw [placed_append, placed, hdsize] at he
      rw [hsplit, List.append_assoc, placed_append, placed_append]
      rcases List.mem_append.mp he with he | he
      · exact List.mem_append.mpr (Or.inl he)
      · rcases List.mem_cons.mp he with he | he
        · obtain ⟨-, rfl⟩ := Prod.mk.inj he
          rw [Chunk.allocated_eq_false.mpr hd] at hea
          exact absurd hea (by decide)
        · exact List.mem_append.mpr (Or.inr (List.mem_append.mpr (Or.inr he)))
    · rw [hsplit, hsize]
      simp only [used_append, used_cons, hused, Chunk.used_of_free hd]
      omega

end Hopter.Allocator
