-- SUMMARY: Model of the segregated-fit heap: chunk headers, free-list links, `mcu_malloc`, `mcu_free` and `mcu_heap_init`.
import Hopter.Base.Word
import Hopter.Base.Memory

/-!
# The heap

The heap keeps all of its metadata inside the memory that it manages. A chunk
starts with a header word: its size, and in the two lowest bits whether the chunk
itself and whether its left neighbour are allocated. A free chunk also has two
16-bit links behind the header and a footer in its last word. The functions below
follow `src/allocator/heap.rs` one by one. Pointers are addresses, and the null
pointer is `0`. The machine arithmetic is that of the release profile: it wraps.

The list search is a `while` loop over links in memory, which need not end on an
arbitrary memory. It therefore takes a bound on the number of nodes, and `none`
stands for a search that has not returned within it.
-/

namespace Hopter.Allocator

open Word

/-- What the linker script and the configuration fix: `__MEM_CHUNK_LINK_OFFSET`,
the address of the static array `SENTINELS`, and `__ram_end`. -/
structure Platform where
  linkOffset : Nat
  sentinels : Nat
  ramEnd : Nat

/-- The memory and the static variables of the heap. -/
structure Heap where
  mem : Mem
  heapStart : Nat
  cached : Nat
  highWaterMark : Nat
  highWaterMarkJustUpdated : Bool
  curAllocSize : Nat
  maxAllocSize : Nat

def hdrSize : Nat := 4
def guardSize : Nat := 4
def freeChunkMinSize : Nat := 4 + 4 + 2 * 2

-- ---------------------------------------------------------------------------
-- Headers and footers
-- ---------------------------------------------------------------------------

def hdrToPayload (hdr : Nat) : Nat := wadd hdr 4

def payloadToHdr (ptr : Nat) : Nat := wsub ptr 4

def getHdrChunkSize (m : Mem) (hdr : Nat) : Nat := m.load32 hdr &&& 0xFFFFFFFC

/-- Set the chunk size and leave the flags unmodified. -/
def setHdrChunkSize (m : Mem) (hdr size : Nat) : Mem :=
  m.store32 hdr ((size &&& 0xFFFFFFFC) ||| (m.load32 hdr &&& 3))

def clearHdr (m : Mem) (hdr : Nat) : Mem := m.store32 hdr 0

def hdrToFtr (m : Mem) (hdr : Nat) : Nat := wsub (wadd hdr (getHdrChunkSize m hdr)) 4

def setFtrChunkSize (m : Mem) (ftr size : Nat) : Mem := m.store32 ftr size

def hdrToRightHdr (m : Mem) (hdr : Nat) : Nat := wadd hdr (getHdrChunkSize m hdr)

def hdrToLeftFtr (hdr : Nat) : Nat := wsub hdr 4

def hdrToLeftHdr (m : Mem) (hdr : Nat) : Nat := wsub hdr (m.load32 (hdrToLeftFtr hdr))

def isThisFree (m : Mem) (hdr : Nat) : Bool := (m.load32 hdr &&& 2) == 0

def isLeftFree (m : Mem) (hdr : Nat) : Bool := (m.load32 hdr &&& 1) == 0

def isRightFree (m : Mem) (hdr : Nat) : Bool := isThisFree m (hdrToRightHdr m hdr)

def setThisFree (m : Mem) (hdr : Nat) : Mem := m.store32 hdr (m.load32 hdr &&& 0xFFFFFFFD)

def setSelfAllocated (m : Mem) (hdr : Nat) : Mem := m.store32 hdr (m.load32 hdr ||| 2)

def setLeftAllocated (m : Mem) (hdr : Nat) : Mem := m.store32 hdr (m.load32 hdr ||| 1)

def setLeftFree (m : Mem) (hdr : Nat) : Mem := m.store32 hdr (m.load32 hdr &&& 0xFFFFFFFE)

-- ---------------------------------------------------------------------------
-- Links
-- ---------------------------------------------------------------------------

variable (P : Platform)

def linkToPtr (link : Nat) : Nat := wadd P.linkOffset (4 * link)

/-- The cast to `Link` keeps the lowest 16 bits. -/
def ptrToLink (ptr : Nat) : Nat := wsub ptr P.linkOffset / 4 % 2 ^ 16

def hdrToPrevField (hdr : Nat) : Nat := wadd hdr 4

def hdrToNextField (hdr : Nat) : Nat := wadd hdr 6

def hdrToPrevHdr (m : Mem) (hdr : Nat) : Nat := linkToPtr P (m.load16 (hdrToPrevField hdr))

def hdrToNextHdr (m : Mem) (hdr : Nat) : Nat := linkToPtr P (m.load16 (hdrToNextField hdr))

/-- The address of `SENTINELS[idx].hdr`. A sentinel has the header and the links
of a free chunk, eight bytes in all. -/
def sentinelHdr (idx : Nat) : Nat := P.sentinels + 8 * idx

def unlinkChunk (m : Mem) (hdr : Nat) : Mem :=
  let prevHdr := hdrToPrevHdr P m hdr
  let nextHdr := hdrToNextHdr P m hdr
  let m := m.store16 (hdrToNextField prevHdr) (ptrToLink P nextHdr)
  m.store16 (hdrToPrevField nextHdr) (ptrToLink P prevHdr)

def linkChunk (m : Mem) (prevHdr hdr : Nat) : Mem :=
  let nextHdr := hdrToNextHdr P m prevHdr
  let m := m.store16 (hdrToNextField prevHdr) (ptrToLink P hdr)
  let m := m.store16 (hdrToPrevField nextHdr) (ptrToLink P hdr)
  let m := m.store16 (hdrToNextField hdr) (ptrToLink P nextHdr)
  m.store16 (hdrToPrevField hdr) (ptrToLink P prevHdr)

-- ---------------------------------------------------------------------------
-- Merging and splitting
-- ---------------------------------------------------------------------------

def unlinkAndMergeRight (m : Mem) (hdr : Nat) : Mem × Nat :=
  let rightHdr := hdrToRightHdr m hdr
  let m := unlinkChunk P m rightHdr
  let totalSize := wadd (getHdrChunkSize m hdr) (getHdrChunkSize m rightHdr)
  (setHdrChunkSize m hdr totalSize, hdr)

def unlinkAndMergeLeft (m : Mem) (hdr : Nat) : Mem × Nat :=
  let leftHdr := hdrToLeftHdr m hdr
  let m := unlinkChunk P m leftHdr
  let totalSize := wadd (getHdrChunkSize m hdr) (getHdrChunkSize m leftHdr)
  (setHdrChunkSize m leftHdr totalSize, leftHdr)

def unlinkAndMergeNeighbor (m : Mem) (hdr : Nat) : Mem × Nat :=
  let leftHdr := hdrToLeftHdr m hdr
  let rightHdr := hdrToRightHdr m hdr
  let m := unlinkChunk P m leftHdr
  let m := unlinkChunk P m rightHdr
  let totalSize := wadd (wadd (getHdrChunkSize m hdr) (getHdrChunkSize m leftHdr))
    (getHdrChunkSize m rightHdr)
  (setHdrChunkSize m leftHdr totalSize, leftHdr)

/-- The memory and the header after merging with the free neighbours. -/
def mergeNeighborIfPossible (m : Mem) (hdr : Nat) : Mem × Nat :=
  match isLeftFree m hdr, isRightFree m hdr with
  | false, false => (m, hdr)
  | true, false => unlinkAndMergeLeft P m hdr
  | false, true => unlinkAndMergeRight P m hdr
  | true, true => unlinkAndMergeNeighbor P m hdr

def setFreeChunkHdrFtr (m : Mem) (hdr size : Nat) : Mem :=
  let m := clearHdr m hdr
  let m := setHdrChunkSize m hdr size
  let m := setFtrChunkSize m (hdrToFtr m hdr) size
  setThisFree m hdr

/-- `u32::leading_zeros`. -/
def leadingZeros (x : Nat) : Nat := if x = 0 then 32 else 31 - Nat.log2 x

/-- `27u32.saturating_sub(size.leading_zeros()).min(5)`. -/
def chunkSizeToListIndex (size : Nat) : Nat := min (27 - leadingZeros size) 5

def returnExcessToFreeList (m : Mem) (hdr size : Nat) : Mem :=
  let totalSize := getHdrChunkSize m hdr
  if totalSize < wadd size freeChunkMinSize then m
  else
    let rightSize := wsub totalSize size
    let rightHdr := wadd hdr size
    let m := setFreeChunkHdrFtr m rightHdr rightSize
    let idx := chunkSizeToListIndex rightSize
    let m := linkChunk P m (sentinelHdr P idx) rightHdr
    setHdrChunkSize m hdr size

-- ---------------------------------------------------------------------------
-- Searching
-- ---------------------------------------------------------------------------

/-- Walk one list from `cur` until the sentinel `stop`, visiting at most `fuel`
nodes. The outer `none` is a walk that has not ended. -/
def searchList (m : Mem) (stop size : Nat) : Nat → Nat → Option (Option Nat)
  | 0, _ => none
  | fuel + 1, cur =>
    if cur = stop then some none
    else if size ≤ getHdrChunkSize m cur then some (some cur)
    else searchList m stop size fuel (hdrToNextHdr P m cur)

/-- The number of nodes that 16-bit links can name. -/
def searchFuel : Nat := 2 ^ 16

def searchLists (m : Mem) (size : Nat) : List Nat → Option Nat
  | [] => some 0
  | idx :: idxs =>
    let stop := sentinelHdr P idx
    match searchList P m stop size searchFuel (linkToPtr P (m.load16 (hdrToNextField stop))) with
    | none => none
    | some (some hdr) => some hdr
    | some none => searchLists m size idxs

/-- First fit over the lists from `idx_fit` to 5. The result is null when no chunk fits. -/
def searchFirstFit (m : Mem) (size : Nat) : Option Nat :=
  let idxFit := min (chunkSizeToListIndex size + 1) 5
  searchLists P m size (List.range' idxFit (6 - idxFit))

-- ---------------------------------------------------------------------------
-- The interface
-- ---------------------------------------------------------------------------

def mcuFree (h : Heap) (payload : Nat) : Heap :=
  let hdr := payloadToHdr payload
  if h.cached = 0 then { h with cached := hdr }
  else
    let old := h.cached
    let curAllocSize := wsub h.curAllocSize (getHdrChunkSize h.mem old)
    let (m, mergedHdr) := mergeNeighborIfPossible P h.mem old
    let m := setThisFree m mergedHdr
    let m := setFtrChunkSize m (hdrToFtr m mergedHdr) (getHdrChunkSize m mergedHdr)
    let m := setLeftAllocated m mergedHdr
    let m := setLeftFree m (hdrToRightHdr m mergedHdr)
    let idx := chunkSizeToListIndex (getHdrChunkSize m mergedHdr)
    let m := linkChunk P m (sentinelHdr P idx) mergedHdr
    { h with mem := m, cached := hdr, curAllocSize := curAllocSize }

/-- The chunk size for a request: header overhead, minimum, multiple of 8. -/
def roundRequest (size : Nat) : Nat :=
  let size := wadd size hdrSize
  let size := max size 16
  wadd size 7 &&& 0xFFFFFFF8

/-- The last part of `mcu_malloc`: hand out `size` bytes of the free chunk at `hdr`. -/
def takeChunk (h : Heap) (hdr size : Nat) : Heap × Nat :=
  let m := unlinkChunk P h.mem hdr
  let m := returnExcessToFreeList P m hdr size
  let m := setSelfAllocated m hdr
  let m := setLeftAllocated m hdr
  let rightHdr := hdrToRightHdr m hdr
  let m := setLeftAllocated m rightHdr
  let curAllocSize := wadd h.curAllocSize (getHdrChunkSize m hdr)
  ({ h with
    mem := m
    highWaterMark := if h.highWaterMark < rightHdr then rightHdr else h.highWaterMark
    highWaterMarkJustUpdated :=
      if h.highWaterMark < rightHdr then true else h.highWaterMarkJustUpdated
    curAllocSize := curAllocSize
    maxAllocSize := if h.maxAllocSize ≤ curAllocSize then curAllocSize else h.maxAllocSize },
    hdrToPayload hdr)

def mcuMalloc (h : Heap) (size : Nat) : Option (Heap × Nat) :=
  if size = 0 then some (h, 0)
  else
    let size := roundRequest size
    let cachedSize := getHdrChunkSize h.mem h.cached
    if h.cached ≠ 0 ∧ size ≤ cachedSize ∧ cachedSize - size ≤ 512 then
      some ({ h with cached := 0 }, hdrToPayload h.cached)
    else
      match searchFirstFit P h.mem size with
      | none => none
      | some hdr => if hdr = 0 then some (h, 0) else some (takeChunk P h hdr size)

/-- `data_end` rounded up so that it is 4 modulo 8. `none` is a checked addition
that overflows. -/
def adjustDataEnd (dataEnd : Nat) : Option Nat :=
  if 2 ^ 32 ≤ dataEnd + 3 then none
  else
    let dataEnd := (dataEnd + 3) &&& 0xFFFFFFFC
    if dataEnd % 8 = 0 then
      if 2 ^ 32 ≤ dataEnd + 4 then none else some (dataEnd + 4)
    else some dataEnd

/-- Empty the lists with the given indices. -/
def initSentinels (m : Mem) : List Nat → Mem
  | [] => m
  | idx :: idxs =>
    let s := sentinelHdr P idx
    let m := m.store16 (hdrToNextField s) (ptrToLink P s)
    let m := m.store16 (hdrToPrevField s) (ptrToLink P s)
    initSentinels m idxs

/-- `none` is the unrecoverable error: there is no memory for a heap. -/
def mcuHeapInit (m : Mem) (dataEnd : Nat) : Option Heap :=
  match adjustDataEnd dataEnd with
  | none => none
  | some dataEnd =>
    if P.ramEnd < dataEnd then none
    else if P.ramEnd - dataEnd < freeChunkMinSize then none
    else
      let bufferSize := P.ramEnd - dataEnd
      let m := initSentinels P m [0, 1, 2, 3, 4, 5]
      let hdr := dataEnd
      let initSize := wsub bufferSize guardSize
      let m := setFreeChunkHdrFtr m hdr initSize
      let m := setLeftAllocated m hdr
      let guard := hdrToRightHdr m hdr
      let m := clearHdr m guard
      let m := setHdrChunkSize m guard 0
      let m := setSelfAllocated m guard
      let m := setLeftFree m guard
      let m := linkChunk P m (sentinelHdr P (chunkSizeToListIndex initSize)) hdr
      some
        { mem := m
          heapStart := dataEnd
          cached := 0
          highWaterMark := 0
          highWaterMarkJustUpdated := false
          curAllocSize := 0
          maxAllocSize := 0 }

end Hopter.Allocator
