-- SUMMARY: Free-list links name every header exactly when the heap ends within 256 KiB of the link offset.
import Hopter.Allocator.Init

/-!
# Links

A link is the 16-bit number of a word above `__MEM_CHUNK_LINK_OFFSET`, so links reach 256 KiB of
RAM. `mcu_heap_init` takes the heap up to `__ram_end`, wherever that is.
-/

namespace Hopter.Allocator

open Word

/-- Links name the headers of a heap. -/
structure LosslessLinks (P : Platform) (start : Nat) : Prop where
  roundTrip : ∀ p, p % 4 = 0 → start ≤ p → p < P.ramEnd → linkToPtr P (ptrToLink P p) = p
  distinct : ∀ p q, p % 4 = 0 → start ≤ p → p < P.ramEnd → q % 4 = 0 → start ≤ q → q < P.ramEnd →
    ptrToLink P p = ptrToLink P q → p = q
  /-- Following a link leads to the header that was stored. -/
  traverse : ∀ (m : Mem) x p, p % 4 = 0 → start ≤ p → p < P.ramEnd →
    hdrToNextHdr P (m.store16 (hdrToNextField x) (ptrToLink P p)) x = p ∧
      hdrToPrevHdr P (m.store16 (hdrToPrevField x) (ptrToLink P p)) x = p

variable {P : Platform} {start : Nat}

theorem losslessLinks_of_roundTrip
    (h : ∀ p, p % 4 = 0 → start ≤ p → p < P.ramEnd → linkToPtr P (ptrToLink P p) = p) :
    LosslessLinks P start where
  roundTrip := h
  distinct p q hp hle hlt hq hle' hlt' heq := by rw [← h p hp hle hlt, heq, h q hq hle' hlt']
  traverse m x p hp hle hlt := by
    constructor
    · rw [hdrToNextHdr, Mem.load16_store16_same (ptrToLink_lt p), h p hp hle hlt]
    · rw [hdrToPrevHdr, Mem.load16_store16_same (ptrToLink_lt p), h p hp hle hlt]

/-- A link that leads back to an address names a word of the window. -/
theorem window_of_roundTrip {p : Nat} (hp : p % 4 = 0)
    (h : linkToPtr P (ptrToLink P p) = p) :
    P.linkOffset % 4 = 0 ∧ p + 4 ≤ P.linkOffset + 2 ^ 18 := by
  have hlink := ptrToLink_lt (P := P) p
  simp only [linkToPtr, wadd] at h
  omega

/-- On a heap that `mcu_heap_init` accepts, links are lossless exactly when the offset is aligned
and the RAM ends in the window. -/
theorem mcuHeapInit_losslessLinks {m : Mem} {dataEnd : Nat} {h : Heap} (hdata : dataEnd % 4 = 0)
    (hend : P.ramEnd % 4 = 0) (hlt : P.ramEnd < 2 ^ 32) (hoffset : P.linkOffset ≤ dataEnd)
    (hinit : mcuHeapInit P m dataEnd = some h) :
    LosslessLinks P h.heapStart ↔ P.linkOffset % 4 = 0 ∧ P.ramEnd ≤ P.linkOffset + 2 ^ 18 := by
  obtain ⟨hadj, hroom⟩ := adjustDataEnd_of_mcuHeapInit hinit
  obtain ⟨hmod, hle⟩ := adjustDataEnd_spec hadj
  constructor
  · intro hlinks
    have hlast := hlinks.roundTrip (P.ramEnd - 4) (by omega) (by omega) (by omega)
    obtain ⟨h4, hwindow⟩ := window_of_roundTrip (by omega) hlast
    exact ⟨h4, by omega⟩
  · rintro ⟨h4, hwindow⟩
    refine losslessLinks_of_roundTrip fun p hp hge hp' => ?_
    simp only [linkToPtr, ptrToLink]
    rw [wsub_eq (by omega) (by omega), wadd]
    omega

/-- A board with 192 KiB of RAM. -/
def mediumBoard : Platform := ⟨0x20000000, 0x20000400, 0x20030000⟩

theorem mcuHeapInit_losslessLinks_mediumBoard : ∃ h,
    mcuHeapInit mediumBoard (fun _ => 0) 0x20001000 = some h ∧
      (LosslessLinks mediumBoard h.heapStart ↔
        mediumBoard.linkOffset % 4 = 0 ∧ mediumBoard.ramEnd ≤ mediumBoard.linkOffset + 2 ^ 18) := by
  have hinit := mcuHeapInit_eq (P := mediumBoard) (m := fun _ => 0)
    (show adjustDataEnd 0x20001000 = some 0x20001004 by decide)
    (show 0x20001004 + 0x2EFF8 + 4 = mediumBoard.ramEnd by decide) (by decide) (by decide) (by decide)
  exact ⟨_, hinit,
    mcuHeapInit_losslessLinks (by decide) (by decide) (by decide) (by decide) hinit⟩

/-- A board with 320 KiB of RAM, as the larger ones of the supported boards. -/
def largeBoard : Platform := ⟨0x20000000, 0x20000400, 0x20050000⟩

/-- The headers above the window get the links of words at the start of the RAM. -/
theorem largeBoard_loses_links : ∃ h, mcuHeapInit largeBoard (fun _ => 0) 0x20001000 = some h ∧
    linkToPtr largeBoard (ptrToLink largeBoard 0x20041004) = 0x20001004 ∧
      ¬ LosslessLinks largeBoard h.heapStart := by
  have hinit := mcuHeapInit_eq (P := largeBoard) (m := fun _ => 0)
    (show adjustDataEnd 0x20001000 = some 0x20001004 by decide)
    (show 0x20001004 + 0x4EFF8 + 4 = largeBoard.ramEnd by decide) (by decide) (by decide) (by decide)
  refine ⟨_, hinit, by decide, fun hlinks => ?_⟩
  have hlast := hlinks.roundTrip 0x20041004 (by decide) (by decide) (by decide)
  revert hlast
  decide

end Hopter.Allocator
