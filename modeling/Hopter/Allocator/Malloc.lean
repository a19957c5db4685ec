-- SUMMARY: `mcu_malloc` returns, keeps the heap invariant and every allocated chunk, and hands out a chunk that fits.
import Hopter.Allocator.Free
import Mathlib.Data.List.Perm.Subperm

/-!
# Allocating a chunk

`mcu_malloc` takes the cached chunk when it fits well enough, and else carves the
request out of the first free chunk that the search finds. What is left over
becomes a free chunk of its own when it is large enough to be one.
-/

namespace Hopter.Allocator

open Word

variable {P : Platform} {m : Mem} {h : Heap} {start x size : Nat} {c d : Chunk}
  {cs pre post : List Chunk} {ls : Fin 6 → List Nat} {flag : Bool}

/-- The rounded request is a chunk size that holds the header and the request. -/
theorem roundRequest_spec (hsize : size ≤ 2 ^ 31 - 1) :
    16 ≤ roundRequest size ∧ roundRequest size % 8 = 0 ∧ size + 4 ≤ roundRequest size ∧
      roundRequest size < 2 ^ 31 + 16 := by
  have h1 : wadd size hdrSize = size + 4 := wadd_eq (by simp only [hdrSize]; omega)
  have h2 : wadd (max (size + 4) 16) 7 = max (size + 4) 16 + 7 := wadd_eq (by omega)
  have h3 : (max (size + 4) 16 + 7) &&& 0xFFFFFFF8 = (max (size + 4) 16 + 7) / 8 * 8 := by
    rw [and_clearLow 3 (by decide) (by omega) (by decide), Nat.mul_comm]
    rfl
  simp only [roundRequest, h1, h2, h3]
  omega

-- ---------------------------------------------------------------------------
-- Carving
-- ---------------------------------------------------------------------------

/-- The flags that `mcu_malloc` sets for a chunk that it hands out. -/
def markAllocated (m : Mem) (hdr : Nat) : Mem :=
  let m := setSelfAllocated m hdr
  let m := setLeftAllocated m hdr
  setLeftAllocated m (hdrToRightHdr m hdr)

/-- What `mcu_malloc` does to the memory once it has found a chunk. -/
def carve (P : Platform) (m : Mem) (hdr size : Nat) : Mem :=
  markAllocated (returnExcessToFreeList P (unlinkChunk P m hdr) hdr size) hdr

theorem HeaderAt.markAllocated_eq {t : Nat} {used left rused rleft : Bool}
    (hh : HeaderAt m x size used left) (hr : HeaderAt m (x + size) t rused rleft)
    (hlt : x + size < 2 ^ 32) (hge : 4 ≤ size) : markAllocated m x =
      (m.store32 x (tagged size true true)).store32 (x + size) (tagged t rused true) := by
  have hh₁ : HeaderAt (m.store32 x (tagged size true left)) x size true left :=
    HeaderAt.store hh.aligned hh.lt
  have hh₂ : HeaderAt (m.store32 x (tagged size true true)) x size true true :=
    HeaderAt.store hh.aligned hh.lt
  have hr₂ : HeaderAt (m.store32 x (tagged size true true)) (x + size) t rused rleft :=
    hr.congr (Mem.agreeOn_store32 (by omega))
  simp only [markAllocated, hh.setSelfAllocated_eq, hh₁.setLeftAllocated_eq,
    Mem.store32_store32_same, hh₂.hdrToRightHdr_eq hlt, hr₂.setLeftAllocated_eq]

/-- The region starts with an allocated chunk, and the rest of it is a region of its own. -/
theorem Around.split {s t : Nat} (ha : Around P m start pre (s + t) flag post ls)
    (hhdr : HeaderAt m (start + extent pre) s true true) (hs : 16 ≤ s) (hs8 : s % 8 = 0)
    (ht : 16 ≤ t) : ∃ c : Chunk, c.size = s ∧ c.allocated = true ∧
      Around P m start (pre ++ [c]) t flag post ls := by
  have haligned := ha.aligned
  have hend := ha.end_eq
  have hbehind := ha.behind
  have hlists := ha.lists
  rw [← Nat.add_assoc] at hbehind hlists
  refine ⟨⟨s, some fun i => m (start + extent pre + 4 + i), hs, hs8⟩, rfl, rfl, ?_⟩
  refine ⟨ha.valid, ha.start_mod, ht, by omega, ?_, by simp [endFlag, Chunk.allocated], ?_, ?_, ?_⟩
  · simp only [extent_append, extent]
    omega
  · refine seg_append.mpr ⟨ha.before, ⟨?_, by simp, ?_⟩, trivial⟩
    · rw [hhdr.word, ha.left]
      rfl
    · rintro f hf i -
      obtain rfl := Option.some.inj hf
      rfl
  · simpa [extent_append, extent, ← Nat.add_assoc] using hbehind
  · refine hlists.congr_free fun y t => ?_
    simp [freeIn_append, freeIn_cons, extent, ← Nat.add_assoc]
    simp [freeIn, placed]

/-- The whole region is handed out. -/
theorem Around.markAllocated {used left : Bool} (ha : Around P m start pre size flag post ls)
    (hhdr : HeaderAt m (start + extent pre) size used left) :
    ∃ c : Chunk, c.size = size ∧ c.allocated = true ∧
      Tail (markAllocated m (start + extent pre)) start true (pre ++ c :: post) ∧
      Lists P (markAllocated m (start + extent pre)) ls (freeIn start (pre ++ c :: post)) := by
  have hge := ha.le_size
  have hend := ha.end_eq
  have hlt := ha.valid.ramEnd_lt
  have ha₁ : Around P (m.store32 (start + extent pre) (tagged size true true))
    start pre size flag post ls := ha.store32 le_rfl (by omega)
  obtain ⟨t, rused, hright, hflag⟩ := ha₁.right_header
  have hright' : HeaderAt m (start + extent pre + size) t rused flag := by
    refine hright.congr fun y hy _ => (Mem.store32_of_ge ?_).symm
    omega
  rw [hhdr.markAllocated_eq hright' (by omega) (by omega)]
  refine (hflag true).placeUsed ?_
  exact (HeaderAt.store hhdr.aligned hhdr.lt).congr (Mem.agreeOn_store32 (by omega))

/-- Linking a chunk inside the region: the nodes whose link fields it writes are the
chunk itself and nodes outside the region. -/
theorem Around.link_nodes (ha : Around P m start pre size flag post ls) (i : Fin 6) :
    Node P (sentinelHdr P i) ∧ Node P (hdrToNextHdr P m (sentinelHdr P i)) ∧
      ∀ n ∈ [sentinelHdr P i, hdrToNextHdr P m (sentinelHdr P i)],
        n + 8 ≤ start + extent pre ∨ start + extent pre + size ≤ n := by
  have hnext := ha.lists.listNode_of_mem (ha.lists.rings.ring i).next_head_mem
  refine ⟨ha.lists.sentinel i, ha.lists.node_of_listNode hnext, fun n hn => ?_⟩
  have hnode : ListNode P (fun y t => freeIn start pre y t ∨
      freeIn (start + extent pre + size) post y t) n := by
    rcases List.mem_cons.mp hn with rfl | hn
    · exact Or.inl ⟨i, rfl⟩
    · rw [List.mem_singleton.mp hn]
      exact hnext
  rcases ha.listNode_cases hnode with hn | ⟨t, ht⟩ | ⟨t, ht⟩
  · omega
  · have := freeIn_bounds ht; omega
  · have := freeIn_bounds ht; omega

/-- Linking a chunk of the region does not touch the headers of the region. -/
theorem Around.linkChunk_agree (ha : Around P m start pre size flag post ls) (i : Fin 6)
    (hx : Node P x) {b b' : Nat} (hb : start + extent pre ≤ b)
    (hb' : b' ≤ start + extent pre + size) (hbx : b' ≤ x + 4 ∨ x + 8 ≤ b) :
    m.AgreeOn (linkChunk P m (sentinelHdr P i) x) b b' := by
  obtain ⟨hs, hn, hout⟩ := ha.link_nodes i
  intro y hy hy'
  refine linkChunk_apply hs hx hn ?_
  rintro ⟨n, hmem, hn1, hn2⟩
  simp only [List.mem_cons, List.not_mem_nil, or_false] at hmem hout
  rcases hmem with rfl | rfl | rfl
  · have := hout _ (Or.inl rfl); omega
  · omega
  · have := hout _ (Or.inr rfl); omega

/-- A header of the region can be written before or after linking a chunk of the region. -/
theorem Around.linkChunk_store32 (ha : Around P m start pre size flag post ls) (i : Fin 6)
    (hx : Node P x) {b v : Nat} (hb : start + extent pre ≤ b)
    (hb' : b + 4 ≤ start + extent pre + size) (hbx : b ≤ x ∨ x + 8 ≤ b) :
    (linkChunk P m (sentinelHdr P i) x).store32 b v =
      linkChunk P (m.store32 b v) (sentinelHdr P i) x := by
  obtain ⟨hs, hn, hout⟩ := ha.link_nodes i
  refine (Allocator.linkChunk_store32 hs hx hn fun n hmem => ?_).symm
  simp only [List.mem_cons, List.not_mem_nil, or_false] at hmem hout
  rcases hmem with rfl | rfl | rfl
  · have := hout _ (Or.inl rfl); omega
  · omega
  · have := hout _ (Or.inr rfl); omega

/-- `return_excess_to_free_list` writes the free rest, links it, and then shortens the
chunk. -/
theorem Around.returnExcess_eq {left : Bool} {t : Nat}
    (ha : Around P m start pre (size + t) flag post ls)
    (hhdr : HeaderAt m (start + extent pre) (size + t) false left)
    (hsize : 16 ≤ size) (h8 : size % 8 = 0) (ht : 12 ≤ t) :
    returnExcessToFreeList P m (start + extent pre) size =
      (linkChunk P (setFreeChunkHdrFtr m (start + extent pre + size) t)
        (sentinelHdr P (listIndex t)) (start + extent pre + size)).store32 (start + extent pre)
        (tagged size false left) ∧
      Around P (setFreeChunkHdrFtr m (start + extent pre + size) t)
        start pre (size + t) flag post ls := by
  have hal := ha.aligned
  have hend := ha.end_eq
  have hlt := ha.valid.ramEnd_lt
  have hmod := extent_mod_eight pre
  have hnode : Node P (start + extent pre + size) :=
    ha.valid.node ha.start_mod (by omega) (by omega) (by omega)
  have heq := setFreeChunkHdrFtr_eq m (start + extent pre + size) t (by omega) (by omega)
    (by omega)
  have ha₂ : Around P (setFreeChunkHdrFtr m (start + extent pre + size) t)
      start pre (size + t) flag post ls := by
    rw [heq]
    exact (ha.store32 (by omega) (by omega)).store32 (by omega) (by omega)
  have hh₂ : HeaderAt (setFreeChunkHdrFtr m (start + extent pre + size) t)
      (start + extent pre) (size + t) false left := by
    rw [heq]
    exact (hhdr.congr (Mem.agreeOn_store32 (by omega))).congr (Mem.agreeOn_store32 (by omega))
  have hh₃ := hh₂.congr
    (ha₂.linkChunk_agree (listIndex t) hnode le_rfl (by omega) (Or.inl (by omega)))
  have hfit : ¬ size + t < wadd size freeChunkMinSize := by
    rw [wadd_eq (by simp only [freeChunkMinSize]; omega)]
    simp only [freeChunkMinSize]
    omega
  have hsub : wsub (size + t) size = t := by
    rw [wsub_eq (by omega) (by omega)]
    omega
  refine ⟨?_, ha₂⟩
  simp only [returnExcessToFreeList, hhdr.getHdrChunkSize_eq, if_neg hfit, hsub,
    wadd_eq (show start + extent pre + size < 2 ^ 32 by omega)]
  exact hh₃.setHdrChunkSize_eq (by omega) (by omega)

/-- The rest of the region becomes a free chunk. -/
theorem Around.carve_split {left : Bool} {t : Nat}
    (ha : Around P m start pre (size + t) false post ls)
    (hhdr : HeaderAt m (start + extent pre) (size + t) false left)
    (hsize : 16 ≤ size) (h8 : size % 8 = 0) (ht : 12 ≤ t) :
    ∃ c d ls', c.size = size ∧ c.allocated = true ∧ d.size = t ∧ d.payload = none ∧
      Tail (Allocator.markAllocated (returnExcessToFreeList P m (start + extent pre) size)
        (start + extent pre)) start true (pre ++ c :: d :: post) ∧
      Lists P (Allocator.markAllocated (returnExcessToFreeList P m (start + extent pre) size)
        (start + extent pre)) ls' (freeIn start (pre ++ c :: d :: post)) := by
  have hal := ha.aligned
  have hend := ha.end_eq
  have hlt := ha.valid.ramEnd_lt
  have hmod := extent_mod_eight pre
  have hnode : Node P (start + extent pre + size) :=
    ha.valid.node ha.start_mod (by omega) (by omega) (by omega)
  obtain ⟨hexcess, ha₂⟩ := ha.returnExcess_eq hhdr hsize h8 ht
  have heq := setFreeChunkHdrFtr_eq m (start + extent pre + size) t (by omega) (by omega)
    (by omega)
  -- The header of the rest before the flags are set, and its footer.
  have hr₂ : HeaderAt (setFreeChunkHdrFtr m (start + extent pre + size) t)
      (start + extent pre + size) t false false := by
    rw [heq]
    exact HeaderAt.store (by omega) (by omega)
  have hf₂ : (setFreeChunkHdrFtr m (start + extent pre + size) t).load32
      (start + extent pre + size + t - 4) = t := by
    rw [heq, Mem.load32_store32_disjoint (by omega)]
    exact Mem.load32_store32_same (by omega)
  generalize setFreeChunkHdrFtr m (start + extent pre + size) t = m₂ at hexcess ha₂ hr₂ hf₂
  have hr₃ := hr₂.congr (ha₂.linkChunk_agree (listIndex t) hnode (by omega) (by omega)
    (Or.inl (by omega)))
  have hh₄ : HeaderAt ((linkChunk P m₂ (sentinelHdr P (listIndex t))
      (start + extent pre + size)).store32 (start + extent pre) (tagged size false left))
      (start + extent pre) size false left := HeaderAt.store (by omega) (by omega)
  have hr₄ : HeaderAt ((linkChunk P m₂ (sentinelHdr P (listIndex t))
      (start + extent pre + size)).store32 (start + extent pre) (tagged size false left))
      (start + extent pre + size) t false false := hr₃.congr (Mem.agreeOn_store32 (by omega))
  -- All header writes move before the linking, so that the rest is linked last.
  have ha₃ : Around P (m₂.store32 (start + extent pre) (tagged size true true))
      start pre (size + t) false post ls := ha₂.store32 le_rfl (by omega)
  rw [hexcess, hh₄.markAllocated_eq hr₄ (by omega) (by omega), Mem.store32_store32_same,
    ha₂.linkChunk_store32 (listIndex t) hnode le_rfl (by omega) (Or.inl (by omega)),
    ha₃.linkChunk_store32 (listIndex t) hnode (by omega) (by omega) (Or.inl le_rfl)]
  have ha₄ : Around P ((m₂.store32 (start + extent pre) (tagged size true true)).store32
      (start + extent pre + size) (tagged t false true)) start pre (size + t) false post ls :=
    ha₃.store32 (by omega) (by omega)
  have hh₅ : HeaderAt ((m₂.store32 (start + extent pre) (tagged size true true)).store32
      (start + extent pre + size) (tagged t false true)) (start + extent pre) size true true :=
    (HeaderAt.store (by omega) (by omega)).congr (Mem.agreeOn_store32 (by omega))
  obtain ⟨c, rfl, hc, ha₅⟩ := ha₄.split hh₅ hsize h8 (by omega)
  have haddr : start + extent (pre ++ [c]) = start + extent pre + c.size := by
    simp [extent, Nat.add_assoc]
  have hplace := ha₅.placeFree (by rw [haddr]; exact HeaderAt.store (by omega) (by omega)) (by
    rw [haddr, Mem.load32_store32_disjoint (by omega), Mem.load32_store32_disjoint (by omega), hf₂])
  rw [haddr, List.append_assoc, List.singleton_append] at hplace
  exact ⟨c, _, _, rfl, hc, rfl, rfl, hplace⟩

-- ---------------------------------------------------------------------------
-- The allocator
-- ---------------------------------------------------------------------------

/-- Carving a request out of a free chunk puts an allocated chunk in its place, and
possibly a free one behind it. -/
theorem Inv.carve (hinv : Inv P h (pre ++ d :: post) ls) (hd : d.payload = none)
    (hsize : 16 ≤ size) (h8 : size % 8 = 0) (hle : size ≤ d.size) :
    ∃ c rest ls', c.allocated = true ∧ size ≤ c.size ∧ c.size + extent rest = d.size ∧
      (∀ e ∈ rest, e.payload = none) ∧
      Tail (carve P h.mem (h.heapStart + extent pre) size) h.heapStart true
        (pre ++ c :: (rest ++ post)) ∧
      Lists P (carve P h.mem (h.heapStart + extent pre) size) ls'
        (freeIn h.heapStart (pre ++ c :: (rest ++ post))) ∧
      Separated (pre ++ c :: (rest ++ post)) := by
  have hsep := hinv.separated
  have hright := hsep.right_of_free hd
  have hleft := hsep.endFlag_of_free hd
  have hx : (h.heapStart + extent pre, d) ∈ placed h.heapStart (pre ++ d :: post) :=
    mem_placed.mpr ⟨pre, post, rfl, rfl⟩
  obtain ⟨ls₁, hp⟩ := hinv.partly.unlink ⟨d, hx, hd, rfl⟩ (by simp)
  have hhdr := hp.headerAt
  have hsplit : pre ++ d :: post = pre ++ [d] ++ post := by simp
  have hsize_eq : extent [d] = d.size := by simp [extent]
  rw [Chunk.allocated_eq_false.mpr hd] at hhdr
  rw [hsplit] at hp hsep
  have ha := hp.around (by simp) hleft (by simp [extent]; have := d.le_size; omega)
    (by simp [freeIn, placed])
  simp only [hsize_eq, endFlag, Chunk.allocated_eq_false.mpr hd] at ha
  have hbound := hinv.partly.bounds hx
  have hstart := hinv.valid.sentinels_le
  have h12 : wadd size freeChunkMinSize = size + 12 := wadd_eq (by
    simp only [freeChunkMinSize]
    omega)
  by_cases hrest : d.size < size + 12
  · -- The rest is too small, and the whole chunk is handed out.
    obtain ⟨c, hcsize, hc, htail, hlists⟩ := ha.markAllocated hhdr
    have hwhole : returnExcessToFreeList P (unlinkChunk P h.mem (h.heapStart + extent pre))
        (h.heapStart + extent pre) size = unlinkChunk P h.mem (h.heapStart + extent pre) := by
      simp only [returnExcessToFreeList, hhdr.getHdrChunkSize_eq, h12, if_pos hrest]
    rw [Allocator.carve, hwhole]
    exact ⟨c, [], ls₁, hc, by omega, by simp [extent, hcsize], by simp, htail, hlists,
      hsep.replace hleft hright⟩
  · obtain ⟨t, ht⟩ : ∃ t, d.size = size + t := ⟨d.size - size, by omega⟩
    rw [ht] at ha hhdr
    obtain ⟨c, e, ls', hcsize, hc, hesize, he, htail, hlists⟩ :=
      ha.carve_split hhdr hsize h8 (by omega)
    refine ⟨c, [e], ls', hc, hcsize.ge, by simp [extent, hcsize, hesize, ht], by simpa using he,
      htail, hlists, ?_⟩
    have hsep' : Separated (pre ++ [c] ++ [e] ++ post) := by
      have h1 : Separated (pre ++ [c] ++ post) := by
        simpa using hsep.replace (c := c) hleft hright
      have h2 : endFlag true (pre ++ [c]) = true := by simpa [endFlag] using hc
      have h3 : Separated (pre ++ [c] ++ [] ++ post) := by simpa using h1
      simpa using h3.replace (c := e) h2 hright
    simpa using hsep'

/-- The lists are short enough for the search. -/
theorem Inv.length_lt (hinv : Inv P h cs ls) (i : Fin 6) : (ls i).length < searchFuel := by
  have hsub : ls i ⊆ (placed h.heapStart cs).map Prod.fst := by
    intro x hx
    obtain ⟨t, ⟨c, hc, -⟩, -⟩ := (hinv.lists.members i x).mp hx
    exact List.mem_map.mpr ⟨(x, c), hc, rfl⟩
  have hnd := (List.nodup_cons.mp (hinv.lists.rings.nodup i)).2
  have hlen := (List.subperm_of_subset hnd hsub).length_le
  have hext := length_le_extent cs
  have hend := hinv.end_eq
  have h1 := hinv.valid.ramEnd_le
  have h2 := hinv.valid.offset_le
  have h3 := hinv.valid.sentinels_le
  simp only [List.length_map, length_placed] at hlen
  simp only [searchFuel]
  omega

/-- The flag that is set last does not change where the right neighbour is. -/
theorem hdrToRightHdr_markAllocated (hx : x < 2 ^ 32) : hdrToRightHdr (markAllocated m x) x =
    hdrToRightHdr (setLeftAllocated (setSelfAllocated m x) x) x := by
  generalize hm : setLeftAllocated (setSelfAllocated m x) x = m'
  have heq : markAllocated m x = setLeftAllocated m' (hdrToRightHdr m' x) := by rw [← hm]; rfl
  obtain ⟨t, used, left, hword, h4, ht⟩ := exists_tagged (m'.load32_lt x)
  have hhdr : HeaderAt m' x t used left := ⟨hword, h4, ht⟩
  have hright : hdrToRightHdr m' x = wadd x t := by rw [hdrToRightHdr, hhdr.getHdrChunkSize_eq]
  have hsize : getHdrChunkSize (setLeftAllocated m' (wadd x t)) x = t := by
    by_cases h0 : t = 0
    · subst h0
      rw [wadd_eq (by omega), Nat.add_zero, hhdr.setLeftAllocated_eq]
      exact (HeaderAt.store rfl (by decide)).getHdrChunkSize_eq
    · refine (hhdr.congr (Mem.agreeOn_store32 ?_)).getHdrChunkSize_eq
      simp only [wadd]
      omega
  rw [heq, hright, hdrToRightHdr, hsize]

/-- What `takeChunk` does to the chunks: the chunk `c` at `x` is handed out. -/
structure Taken (P : Platform) (h : Heap) (cs cs' : List Chunk) (x size : Nat) (c : Chunk) : Prop where
  payload : (takeChunk P h x size).2 = x + 4
  chunk : (x, c) ∈ placed h.heapStart cs'
  allocated : c.allocated = true
  size_le : size ≤ c.size
  fresh : ∀ d, (x, d) ∈ placed h.heapStart cs → d.allocated = false
  kept : ∀ y d, (y, d) ∈ placed h.heapStart cs → d.allocated = true → (y, d) ∈ placed h.heapStart cs'
  old : ∀ y d, (y, d) ∈ placed h.heapStart cs' → d.allocated = true →
    (y, d) = (x, c) ∨ (y, d) ∈ placed h.heapStart cs
  used : used cs' = used cs + c.size
  right : hdrToRightHdr (takeChunk P h x size).1.mem x = x + c.size
  curAllocSize : (takeChunk P h x size).1.curAllocSize = wadd h.curAllocSize c.size
  highWaterMark : (takeChunk P h x size).1.highWaterMark = max h.highWaterMark (x + c.size)

/-- Handing out a part of a free chunk keeps the invariant. -/
theorem Inv.takeChunk (hinv : Inv P h cs ls) (hx : (x, d) ∈ placed h.heapStart cs)
    (hfree : d.payload = none) (hsize : 16 ≤ size) (h8 : size % 8 = 0) (hle : size ≤ d.size) :
    ∃ c cs' ls', Inv P (takeChunk P h x size).1 cs' ls' ∧ Taken P h cs cs' x size c := by
  have hb := hinv.partly.bounds hx
  have hnot : ∀ e, (x, e) ∈ placed h.heapStart cs → e.allocated = false := by
    intro e he
    rw [← placed_unique hx he]
    exact Chunk.allocated_eq_false.mpr hfree
  obtain ⟨pre, post, rfl, rfl⟩ := mem_placed.mp hx
  obtain ⟨c, rest, ls', hc, hcsize, hext, hrest, htail, hlists, hsep⟩ :=
    hinv.carve hfree hsize h8 hle
  have hkeep : ∀ y e, (y, e) ∈ placed h.heapStart (pre ++ d :: post) → e.allocated = true →
      (y, e) ∈ placed h.heapStart (pre ++ c :: (rest ++ post)) := by
    intro y e he hea
    simp only [placed_append, placed, List.mem_append, List.mem_cons, Nat.add_assoc, hext] at he ⊢
    rcases he with he | he | he
    · exact Or.inl he
    · obtain ⟨rfl, rfl⟩ := Prod.mk.inj he
      rw [Chunk.allocated_eq_false.mpr hfree] at hea
      exact absurd hea (by decide)
    · exact Or.inr (Or.inr (Or.inr he))
  have hchunk : (h.heapStart + extent pre, c) ∈
      placed h.heapStart (pre ++ c :: (rest ++ post)) := mem_placed.mpr ⟨pre, _, rfl, rfl⟩
  have hend : h.heapStart + extent (pre ++ c :: (rest ++ post)) + 4 = P.ramEnd := by
    have hend := hinv.end_eq
    simp only [extent_append, extent] at hend ⊢
    omega
  have hinv' : Inv P (Allocator.takeChunk P h (h.heapStart + extent pre) size).1
      (pre ++ c :: (rest ++ post)) ls' := by
    refine ⟨hinv.valid, hinv.start_mod, hend, htail, hsep, hlists, fun hne => ?_⟩
    obtain ⟨e, he, hea⟩ := hinv.cached hne
    exact ⟨e, hkeep _ e he hea, hea⟩
  have hb' := hinv'.partly.bounds hchunk
  have hcsize' := hinv'.partly.getHdrChunkSize_eq hchunk
  have hright : hdrToRightHdr (Allocator.takeChunk P h (h.heapStart + extent pre) size).1.mem
      (h.heapStart + extent pre) = h.heapStart + extent pre + c.size := by
    rw [hdrToRightHdr, hcsize', wadd_eq (by omega)]
  refine ⟨c, _, ls', hinv', wadd_eq (by omega), hchunk, hc, hcsize, hnot, hkeep, fun y e he hea => ?_,
    ?_, hright, ?_, ?_⟩
  · simp only [placed_append, placed, List.mem_append, List.mem_cons, Nat.add_assoc, hext] at he ⊢
    rcases he with he | he | he | he
    · exact Or.inr (Or.inl he)
    · exact Or.inl he
    · obtain ⟨pre', post', hsplit, -⟩ := mem_placed.mp he
      have hnone := hrest e (by simp [hsplit])
      rw [Chunk.allocated_eq_false.mpr hnone] at hea
      exact absurd hea (by decide)
    · exact Or.inr (Or.inr (Or.inr he))
  · simp only [used_append, used_cons, Chunk.used_of_free hfree, Chunk.used_of_allocated hc,
      used_eq_zero hrest]
    omega
  · exact congrArg (wadd h.curAllocSize) hcsize'
  · have hmark : (Allocator.takeChunk P h (h.heapStart + extent pre) size).1.highWaterMark =
        max h.highWaterMark (hdrToRightHdr (setLeftAllocated (setSelfAllocated
          (returnExcessToFreeList P (unlinkChunk P h.mem (h.heapStart + extent pre))
            (h.heapStart + extent pre) size) (h.heapStart + extent pre)) (h.heapStart + extent pre))
          (h.heapStart + extent pre)) := by
      rw [max_def_lt]
      rfl
    rw [hmark, ← hdrToRightHdr_markAllocated (by omega)]
    exact congrArg (max h.highWaterMark) hright

/-- How `mcu_malloc` ends: with null, with the cached chunk, or with a chunk of the lists. -/
inductive Malloced (P : Platform) (h : Heap) (cs : List Chunk) (size : Nat) :
    Heap → Nat → List Chunk → Prop where
  | null : Malloced P h cs size h 0 cs
  | hit (c : Chunk) (hne : h.cached ≠ 0) (hc : (h.cached, c) ∈ placed h.heapStart cs)
      (hca : c.allocated = true) (hfit : size + 4 ≤ c.size) :
      Malloced P h cs size { h with cached := 0 } (h.cached + 4) cs
  | taken (x : Nat) (c : Chunk) (cs' : List Chunk) (hne : x ≠ 0) (hfit : size + 4 ≤ c.size)
      (ht : Taken P h cs cs' x (roundRequest size) c) :
      Malloced P h cs size (takeChunk P h x (roundRequest size)).1 (x + 4) cs'

/-- `mcu_malloc` returns, and keeps the invariant. -/
theorem Inv.mcuMalloc_outcome (hinv : Inv P h cs ls) (hsize : size ≤ 2 ^ 31 - 1) :
    ∃ h' p cs' ls', Allocator.mcuMalloc P h size = some (h', p) ∧ Inv P h' cs' ls' ∧
      Malloced P h cs size h' p cs' := by
  obtain ⟨h16, h8, hfit, -⟩ := roundRequest_spec hsize
  by_cases h0 : size = 0
  · exact ⟨h, 0, cs, ls, by simp [Allocator.mcuMalloc, h0], hinv, .null⟩
  by_cases hhit : h.cached ≠ 0 ∧ roundRequest size ≤ getHdrChunkSize h.mem h.cached ∧
      getHdrChunkSize h.mem h.cached - roundRequest size ≤ 512
  · -- The cached chunk is handed out again. It is allocated already.
    obtain ⟨c, hc, ha⟩ := hinv.cached hhit.1
    have hb := hinv.partly.bounds hc
    have hpayload : hdrToPayload h.cached = h.cached + 4 := wadd_eq (by omega)
    have heq : Allocator.mcuMalloc P h size =
        some ({ h with cached := 0 }, h.cached + 4) := by
      simp only [Allocator.mcuMalloc, if_neg h0, if_pos hhit, hpayload]
    rw [hinv.partly.getHdrChunkSize_eq hc] at hhit
    exact ⟨_, _, cs, ls, heq, ⟨hinv.valid, hinv.start_mod, hinv.end_eq, hinv.tail, hinv.separated,
      hinv.lists, fun hne => absurd rfl hne⟩, .hit c hhit.1 hc ha (by omega)⟩
  · obtain ⟨x, hx, hfound⟩ := hinv.lists.searchFirstFit_spec (n := roundRequest size)
      hinv.length_lt
    by_cases hx0 : x = 0
    · have heq : Allocator.mcuMalloc P h size = some (h, 0) := by
        simp only [Allocator.mcuMalloc, if_neg h0, if_neg hhit, hx, if_pos hx0]
      exact ⟨h, 0, cs, ls, heq, hinv, .null⟩
    obtain ⟨hle, t, d, hd, hfree, -⟩ := hfound hx0
    rw [hinv.partly.getHdrChunkSize_eq hd] at hle
    obtain ⟨c, cs', ls', hinv', ht⟩ := hinv.takeChunk hd hfree h16 h8 hle
    have heq : Allocator.mcuMalloc P h size =
        some ((Allocator.takeChunk P h x (roundRequest size)).1, x + 4) := by
      simp only [Allocator.mcuMalloc, if_neg h0, if_neg hhit, hx, if_neg hx0, ← ht.payload]
    exact ⟨_, _, cs', ls', heq, hinv', .taken x c cs' hx0 (le_trans hfit ht.size_le) ht⟩

/-- What `mcu_malloc` hands out: an allocated chunk that holds the request, that the
heap no longer caches, and that nobody held before. -/
structure HandedOut (h h' : Heap) (cs cs' : List Chunk) (size hdr : Nat) : Prop where
  chunk : ∃ c, (hdr, c) ∈ placed h.heapStart cs' ∧ c.allocated = true ∧ size + 4 ≤ c.size
  fresh : ∀ c, (hdr, c) ∈ placed h.heapStart cs → c.allocated = true → hdr = h.cached
  not_cached : hdr ≠ h'.cached

/-- `mcu_malloc` keeps every allocated chunk, and returns null or a chunk that holds the request. -/
theorem Malloced.spec {h' : Heap} {p : Nat} {cs' : List Chunk} (hinv : Inv P h cs ls)
    (hout : Malloced P h cs size h' p cs') :
    h'.heapStart = h.heapStart ∧ (h'.cached = 0 ∨ h'.cached = h.cached) ∧
      (∀ y d, (y, d) ∈ placed h.heapStart cs → d.allocated = true →
        (y, d) ∈ placed h.heapStart cs') ∧
      (p = 0 ∨ ∃ hdr, p = hdr + 4 ∧ HandedOut h h' cs cs' size hdr) := by
  cases hout with
  | null => exact ⟨rfl, Or.inr rfl, fun _ _ hd _ => hd, Or.inl rfl⟩
  | hit c hne hc hca hfit =>
    exact ⟨rfl, Or.inl rfl, fun _ _ hd _ => hd, Or.inr ⟨h.cached, rfl, ⟨c, hc, hca, hfit⟩,
      fun _ _ _ => rfl, hne⟩⟩
  | taken x c _ hne hfit ht =>
    have hnot : ∀ e, (x, e) ∈ placed h.heapStart cs → ¬ e.allocated = true := by
      intro e he
      simp [ht.fresh e he]
    refine ⟨rfl, Or.inr rfl, ht.kept, Or.inr ⟨x, rfl, ⟨c, ht.chunk, ht.allocated, hfit⟩,
      fun e he hea => absurd hea (hnot e he), fun heq => ?_⟩⟩
    have hcached : h.cached ≠ 0 := fun h0 => hne (heq.trans h0)
    obtain ⟨e, he, hea⟩ := hinv.cached hcached
    exact hnot e (heq ▸ he) hea

end Hopter.Allocator
