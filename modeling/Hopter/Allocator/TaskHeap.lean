-- SUMMARY: Heap calls of a task are supervisor calls: they return its registers and leave its memory alone.
import Mathlib.Algebra.Group.Nat.Defs
import Hopter.Unwind.Entry

/-!
# Heap calls of a task

A task allocates and frees by supervisor calls: `svc_malloc` and `svc_free` in
`src/interrupt/svc.rs`. The handler runs `task_malloc` or `task_free` of `src/allocator/mod.rs` with
the trap frame, which has the argument in `r0` and gets the result there.
-/

namespace Hopter.Allocator.TaskHeap

open Hopter.Task Hopter.Unwind
open Hopter.Interrupt (Core loadWords setAll tlsMemAddr storeWords_outside loadWords_getElem? word_storeWords
  word_storeWords_disjoint setAll_of_not_mem setAll_of_getElem?)

variable {n : Nat}

-- ---------------------------------------------------------------------------
-- The handlers
-- ---------------------------------------------------------------------------

section Handlers

variable (A : Task.Arch) (P : Platform)

/-- `task_malloc`. A layout has at most `isize::MAX` bytes, and a null pointer is the end. -/
def taskMalloc (s : Machine n) : Option (Machine n) :=
  let size := s.tf.r0.toNat
  if 2 ^ 31 - 4 < size then none
  else (mcuMalloc P s.heap.heap size).bind fun (heap, ptr) =>
    if ptr = 0 then none
    else some { s with
      heap := ⟨{ heap with mem := setWord heap.mem s.ctxt.sp.toNat (BitVec.ofNat 32 ptr) },
        (ptr, size) :: s.heap.live⟩ }

/-- `task_free`. -/
def taskFree (s : Machine n) : Machine n :=
  let ptr := s.tf.r0.toNat
  { s with heap := ⟨mcuFree P s.heap.heap ptr, s.heap.live.filter fun a => a.1 ≠ ptr⟩ }

inductive HeapCall where
  | malloc (size : Reg)
  | free (ptr : Reg)

/-- The argument of the call is put into `r0`. -/
def withArgument (c : EntryCpu n) (v : Reg) : EntryCpu n := { c with reg := Function.update c.reg .r0 v }

/-- A heap call. The supervisor call returns to `next`, where the code jumps to the link register. -/
def heapCall (next : Reg) (c : EntryCpu n) (call : HeapCall) : Option (EntryCpu n) :=
  if c.ipsr ≠ 0 then none
  else match call with
  | .malloc size =>
    let c := withArgument c size
    (taskMalloc P (c.svcEnter A next)).map fun m => (c.svcReturn A m).2
  | .free ptr =>
    let c := withArgument c ptr
    some (c.svcReturn A (taskFree P (c.svcEnter A next))).2

end Handlers

variable {A : Task.Arch} {P : Platform} {c c' c₀ : EntryCpu n} {st : Nat × Nat} {m : Machine n} {next : Reg}

-- ---------------------------------------------------------------------------
-- The return from the supervisor call
-- ---------------------------------------------------------------------------

/-- What is not on the heap and not in the sentinels does not matter to the allocator. -/
theorem inv_outside {s : Client} {cs : List Chunk} {ls : Fin 6 → List Nat} (h : s.Inv P cs ls) {mem : Mem}
    (hmem : ∀ y, P.sentinels ≤ y → mem y = s.heap.mem y) :
    Client.Inv P ⟨{ s.heap with mem := mem }, s.live⟩ cs ls := by
  have hle := h.heap.valid.sentinels_le
  refine ⟨⟨h.heap.valid, h.heap.start_mod, h.heap.end_eq, h.heap.tail.congr fun y hy _ => hmem y (by omega),
    h.heap.separated, h.heap.lists.congr fun x hx y hy _ => hmem y ?_, h.heap.cached⟩, h.owned, h.distinct⟩
  obtain ⟨i, rfl⟩ | ⟨size, c, hc, -⟩ := hx
  · simp only [sentinelHdr] at hy
    omega
  · have hstart := (h.heap.partly.bounds hc).1
    omega

/-- What the handler of a heap call leaves alone: the context of the task, and its trap frame but for `r0`. -/
structure Serves (A : Task.Arch) (c : EntryCpu n) (next : Reg) (m : Machine n) : Prop where
  ctxt : m.ctxt = (c.svcEnter A next).ctxt
  frame : ∀ i v, i ≠ 0 → (c.frameWords A next)[i]? = some v →
    word m.mem ((framePtr A c.sp).toNat + 4 * i) = v

/-- The task has its registers, but for `r0`, and its local storage. -/
structure Same (c c' : EntryCpu n) : Prop where
  reg : ∀ r, r ≠ .r0 → c'.reg r = c.reg r
  fp : c'.fp = c.fp
  fpscr : c'.fpscr = c.fpscr
  sp : c'.sp = c.sp
  ipsr : c'.ipsr = c.ipsr
  tls : Interrupt.TaskLocalStorage.load c'.mem tlsMemAddr.toNat =
    Interrupt.TaskLocalStorage.load c.mem tlsMemAddr.toNat

theorem Same.trans {c'' : EntryCpu n} (h : Same c c') (h' : Same c' c'') : Same c c'' :=
  ⟨fun r hr => (h'.reg r hr).trans (h.reg r hr), h'.fp.trans h.fp, h'.fpscr.trans h.fpscr, h'.sp.trans h.sp,
    h'.ipsr.trans h.ipsr, h'.tls.trans h.tls⟩

theorem frame_fpscr (c : EntryCpu n) (pc : Reg) : (c.frameWords .armv7em pc)[24]? = some c.fpscr := by
  have hwords : c.frameWords .armv7em pc =
      (c.frameWords .armv7em pc).take 8 ++ (s0s15.map c.fp ++ [c.fpscr]) := rfl
  have hlen : ((c.frameWords .armv7em pc).take 8).length = 8 := rfl
  have hlen' : (s0s15.map c.fp).length = 16 := by simp [s0s15]
  rw [hwords, List.getElem?_append_right (by omega), hlen, List.getElem?_append_right (by omega), hlen']
  rfl

/-- The exception return gives the task what the handler has left alone. -/
theorem svcReturn_same (h : OnStacklet A P c st) (hserves : Serves A c next m) :
    (c.svcReturn A m).1 = next ∧ Same c (c.svcReturn A m).2 ∧
      (c.svcReturn A m).2.reg .r0 = word m.mem (framePtr A c.sp).toNat ∧
      (c.svcReturn A m).2.machine.heap.live = m.heap.live ∧
      (c.svcReturn A m).2.machine.heap.heap.heapStart = m.heap.heap.heapStart ∧
      ∀ y, tlsMemAddr.toNat + 12 ≤ y → (c.svcReturn A m).2.mem y = m.mem y := by
  obtain ⟨hctxt, hframe⟩ := hserves
  have hlow := h.low
  have htls := h.tls
  have hst := h.inside
  simp only [metaSize] at hlow
  have hptr := toNat_framePtr (A := A) (show A.trapFrameSize + trapFramePadSize ≤ c.sp.toNat by omega)
  have hpad : (if padded c.sp then trapFramePadSize else 0) ≤ trapFramePadSize := by split <;> omega
  have hsp : m.ctxt.sp = framePtr A c.sp := by rw [hctxt]; rfl
  have hstored := h.svcEnter_tls next
  let tls := m.ctxt.tls
  let mem := Interrupt.storeWords m.mem tlsMemAddr.toNat [tls.stkletBound, tls.nestedDropCnt, tls.unwindPending]
  have hmem : ∀ y, tlsMemAddr.toNat + 12 ≤ y → mem y = m.mem y := fun y hy =>
    storeWords_outside (by simp only [List.length_cons, List.length_nil]; omega)
  have hword : ∀ i, word mem ((framePtr A c.sp).toNat + i) = word m.mem ((framePtr A c.sp).toNat + i) := fun i =>
    word_congr fun y hy _ => hmem y (by omega)
  have hsaved : ∀ i v, i ≠ 0 → (c.frameWords A next)[i]? = some v →
      word mem ((framePtr A c.sp).toNat + 4 * i) = v := fun i v hi hv =>
    (hword _).trans (hframe i v hi hv)
  have hreg : ∀ r, (c.svcReturn A m).2.reg r =
      setAll c.reg [.r0, .r1, .r2, .r3, .r12, .lr] (loadWords mem (framePtr A c.sp).toNat 6) r := by
    rw [← hsp]
    exact fun _ => rfl
  have hpc : (c.svcReturn A m).1 = word mem ((framePtr A c.sp).toNat + 24) := by
    rw [← hsp]
    rfl
  refine ⟨?_, ⟨fun r hr => ?_, ?_, ?_, ?_, rfl, ?_⟩, ?_, rfl, rfl, hmem⟩
  · rw [hpc]
    exact hsaved 6 next (by decide) rfl
  · rw [hreg]
    by_cases hin : r ∈ [Core.r0, .r1, .r2, .r3, .r12, .lr]
    · obtain ⟨i, hi⟩ := List.mem_iff_getElem?.mp hin
      have hlt : i < 6 := (List.getElem?_eq_some_iff.mp hi).1
      have hne : i ≠ 0 := by
        rintro rfl
        exact hr (Option.some.inj hi).symm
      refine setAll_of_getElem? (i := i) (by decide) hi ?_
      rw [loadWords_getElem? hlt]
      exact congrArg some (hsaved i _ hne (frameWords_getElem? hi))
    · exact setAll_of_not_mem hin
  · cases A with
    | armv6m => rfl
    | armv7em =>
      have hfp : (c.svcReturn .armv7em m).2.fp =
          setAll c.fp s0s15 (loadWords mem ((framePtr .armv7em c.sp).toNat + 32) 16) := by
        rw [← hsp]
        rfl
      rw [hfp]
      exact setAll_fpWords fun i v hi hv => hsaved i v (by omega) hv
  · cases A with
    | armv6m => rfl
    | armv7em =>
      have hfpscr : (c.svcReturn .armv7em m).2.fpscr = word mem ((framePtr .armv7em c.sp).toNat + 4 * 24) := by
        rw [← hsp]
        rfl
      rw [hfpscr]
      exact hsaved 24 c.fpscr (by decide) (frame_fpscr c next)
  · have hreturn : (c.svcReturn A m).2.sp = A.returnSp mem (framePtr A c.sp) := by
      rw [← hsp]
      rfl
    rw [hreturn, Task.Arch.returnSp, show (framePtr A c.sp).toNat + 28 = (framePtr A c.sp).toNat + 4 * 7 from rfl,
      hsaved 7 _ (by decide) rfl, tfSize_pushed]
    exact BitVec.sub_add_cancel c.sp _
  · have hload : Interrupt.TaskLocalStorage.load mem tlsMemAddr.toNat = tls := by
      have h0 : word mem tlsMemAddr.toNat = tls.stkletBound := word_storeWords (i := 0) rfl
      have h1 : word mem (tlsMemAddr.toNat + 4) = tls.nestedDropCnt := word_storeWords (i := 1) rfl
      have h2 : word mem (tlsMemAddr.toNat + 8) = tls.unwindPending := word_storeWords (i := 2) rfl
      simp only [Interrupt.TaskLocalStorage.load, h0, h1, h2]
    exact hload.trans ((congrArg TaskSvcCtxt.tls hctxt).trans hstored)
  · rw [hreg, setAll_of_getElem? (i := 0) (v := word mem (framePtr A c.sp).toNat) (by decide) rfl rfl]
    exact hword 0

-- ---------------------------------------------------------------------------
-- One call
-- ---------------------------------------------------------------------------

/-- The task goes on where it was. What is in use is left alone, but for the free part of the stacklet `st`. -/
structure Served (A : Task.Arch) (P : Platform) (c c' : EntryCpu n) (st : Nat × Nat) : Prop where
  same : Same c c'
  onStacklet : OnStacklet A P c' st
  kept : ∀ b ∈ c.machine.heap.live, b ∈ c'.machine.heap.live → ∀ y, b.1 ≤ y → y < b.1 + b.2 →
    Outside (st.1 + metaSize, c.sp.toNat - (st.1 + metaSize)) y → c'.mem y = c.mem y

theorem served (h : OnStacklet A P c st) (hlinks : tlsMemAddr.toNat + 12 ≤ P.sentinels)
    (hctxt : m.ctxt = (c.svcEnter A next).ctxt) (hinv : ∃ cs ls, m.heap.Inv P cs ls) (hlive : st ∈ m.heap.live)
    (hkept : ∀ b ∈ c.machine.heap.live, b ∈ m.heap.live → ∀ y, b.1 ≤ y → y < b.1 + b.2 →
      Outside ((framePtr A c.sp).toNat, 4) y → m.mem y = (c.svcEnter A next).mem y) :
    Served A P c (c.svcReturn A m).2 st ∧
      (c.svcReturn A m).2.reg .r0 = word m.mem (framePtr A c.sp).toNat ∧
      (c.svcReturn A m).2.machine.heap.live = m.heap.live := by
  have hlow := h.low
  have hhigh := h.high
  simp only [metaSize] at hlow
  have hle := A.trapFrameSize_le
  have hptr := toNat_framePtr (A := A) (show A.trapFrameSize + trapFramePadSize ≤ c.sp.toNat by omega)
  have hpad : (if padded c.sp then trapFramePadSize else 0) ≤ trapFramePadSize := by split <;> omega
  have hlen := length_frameWords (A := A) c next
  have hserves : Serves A c next m := by
    refine ⟨hctxt, fun i v hi hv => ?_⟩
    have hlt : i < (c.frameWords A next).length := (List.getElem?_eq_some_iff.mp hv).1
    have hstored : word (c.svcEnter A next).mem ((framePtr A c.sp).toNat + 4 * i) = v := word_svcEnter hv
    rw [← hstored]
    exact word_congr fun y hy hy' => hkept st h.live hlive y (by omega) (by omega) (by simp only [Outside]; omega)
  obtain ⟨-, hsame, hr0, hlive', hstart, hmem⟩ := svcReturn_same h hserves
  refine ⟨⟨hsame, ?_, fun b hb hb' y hlo hhi hy => ?_⟩, hr0, hlive'⟩
  · obtain ⟨cs, ls, hinv⟩ := hinv
    have hsentinels := hinv.heap.valid.sentinels_le
    refine ⟨hsame.ipsr.trans h.task, ⟨cs, ls, inv_outside hinv fun y hy => hmem y (by omega)⟩,
      ?_, ?_, ?_, ?_, ?_⟩
    · rw [hstart]
      omega
    · rwa [hlive']
    · exact (congrArg TaskLocalStorage.stkletBound hsame.tls).trans h.bound
    · rw [hsame.sp]
      exact h.low
    · rw [hsame.sp]
      exact hhigh
  · obtain ⟨cs, ls, hheap⟩ := h.heap
    obtain ⟨-, hb₁, -⟩ := hheap.fits b hb
    have htls := h.tls
    simp only [Outside, metaSize] at hy
    rw [hmem y (by omega), hkept b hb (hlive' ▸ hb') y hlo hhi (by simp only [Outside]; omega)]
    exact svcEnter_outside (by omega) (by omega)

theorem onStacklet_withArgument (h : OnStacklet A P c st) (v : Reg) : OnStacklet A P (withArgument c v) st :=
  ⟨h.task, h.heap, h.tls, h.live, h.bound, h.low, h.high⟩

theorem Served.of_withArgument {v : Reg} (h : Served A P (withArgument c v) c' st) : Served A P c c' st := by
  obtain ⟨⟨hreg, hfp, hfpscr, hsp, hipsr, htls⟩, hon, hkept⟩ := h
  exact ⟨⟨fun r hr => (hreg r hr).trans (Function.update_of_ne hr ..), hfp, hfpscr, hsp, hipsr, htls⟩,
    hon, hkept⟩

theorem taskMalloc_served (h : OnStacklet A P c st) (hlinks : tlsMemAddr.toNat + 12 ≤ P.sentinels)
    (htask : taskMalloc P (c.svcEnter A next) = some m) :
    Served A P c (c.svcReturn A m).2 st ∧ (c.svcReturn A m).2.reg .r0 ≠ 0 ∧
      (c.svcReturn A m).2.machine.heap.live =
        (((c.svcReturn A m).2.reg .r0).toNat, (c.reg .r0).toNat) :: c.machine.heap.live := by
  simp only [taskMalloc] at htask
  have hr0 : (c.svcEnter A next).tf.r0 = c.reg .r0 := word_svcEnter (i := 0) rfl
  have hsp : (c.svcEnter A next).ctxt.sp = framePtr A c.sp := rfl
  rw [hr0, hsp] at htask
  split at htask
  · cases htask
  rename_i hsize
  simp only [Option.bind_eq_some_iff, Prod.exists] at htask
  obtain ⟨heap, ptr, halloc, htask⟩ := htask
  split at htask
  · cases htask
  rename_i hne
  obtain ⟨cs, ls, hinv⟩ := h.svcEnter_heap next
  obtain ⟨⟨cs', ls', hinv'⟩, hbytes⟩ := hinv.mcuMalloc_spec (by omega) halloc hne
  obtain ⟨-, -, hend⟩ := hinv'.fits (ptr, (c.reg .r0).toNat) (by simp)
  have hram := hinv'.heap.valid.ramEnd_lt
  have hlow := h.low
  have hhigh := h.high
  simp only [metaSize] at hlow
  have hle := A.trapFrameSize_le
  have hframe := toNat_framePtr (A := A) (show A.trapFrameSize + trapFramePadSize ≤ c.sp.toNat by omega)
  have hpad : (if padded c.sp then trapFramePadSize else 0) ≤ trapFramePadSize := by split <;> omega
  have hst : st ∈ (ptr, (c.reg .r0).toNat) :: (c.svcEnter A next).heap.live := List.mem_cons_of_mem _ h.live
  have hout : ∀ y, Outside ((framePtr A c.sp).toNat, 4) y →
      setWord heap.mem (framePtr A c.sp).toNat (BitVec.ofNat 32 ptr) y = heap.mem y := fun y hy => setWord_outside hy
  obtain ⟨cs'', hinv''⟩ := hinv'.overwrite hst fun y hy => hout y (by simp only [Outside]; omega)
  have hm := (Option.some.inj htask).symm
  have hheap : m.heap = ⟨{ heap with mem := setWord heap.mem (framePtr A c.sp).toNat (BitVec.ofNat 32 ptr) },
      (ptr, (c.reg .r0).toNat) :: (c.svcEnter A next).heap.live⟩ := by rw [hm]
  have hmem : m.mem = setWord heap.mem (framePtr A c.sp).toNat (BitVec.ofNat 32 ptr) := by
    rw [Machine.mem, hheap]
  obtain ⟨hserved, hresult, hlive⟩ := served h hlinks (show m.ctxt = (c.svcEnter A next).ctxt by rw [hm])
    ⟨cs'', ls', by rw [hheap]; exact hinv''⟩ (by rw [hheap]; exact hst) fun b hb _ y hlo hhi hy => by
      have hsame := hbytes b hb (y - b.1) (by omega)
      rw [show b.1 + (y - b.1) = y by omega] at hsame
      rw [hmem]
      exact (hout y hy).trans hsame
  have hptr : (c.svcReturn A m).2.reg .r0 = BitVec.ofNat 32 ptr := by rw [hresult, hmem, word_setWord_same]
  have hnat : (BitVec.ofNat 32 ptr).toNat = ptr := by
    rw [BitVec.toNat_ofNat]
    omega
  refine ⟨hserved, ?_, ?_⟩
  · rw [hptr]
    intro hzero
    rw [hzero] at hnat
    exact hne hnat.symm
  · rw [hlive, hptr, hnat, hheap]
    rfl

theorem taskFree_served (h : OnStacklet A P c st) (hlinks : tlsMemAddr.toNat + 12 ≤ P.sentinels)
    (hptr : (c.reg .r0).toNat ∈ c.machine.heap.live.map Prod.fst) (hne : (c.reg .r0).toNat ≠ st.1)
    (htask : taskFree P (c.svcEnter A next) = m) :
    Served A P c (c.svcReturn A m).2 st ∧ (c.svcReturn A m).2.reg .r0 = c.reg .r0 ∧
      (c.svcReturn A m).2.machine.heap.live =
        c.machine.heap.live.filter fun a => a.1 ≠ (c.reg .r0).toNat := by
  have hr0 : (c.svcEnter A next).tf.r0 = c.reg .r0 := word_svcEnter (i := 0) rfl
  obtain ⟨cs, ls, hinv⟩ := h.svcEnter_heap next
  have hptr' : (c.reg .r0).toNat ∈ (c.svcEnter A next).heap.live.map Prod.fst := hptr
  obtain ⟨⟨cs', ls', hinv'⟩, hbytes⟩ := hinv.mcuFree_spec hptr'
  have hlow := h.low
  have hhigh := h.high
  simp only [metaSize] at hlow
  have hle := A.trapFrameSize_le
  have hframe := toNat_framePtr (A := A) (show A.trapFrameSize + trapFramePadSize ≤ c.sp.toNat by omega)
  have hpad : (if padded c.sp then trapFramePadSize else 0) ≤ trapFramePadSize := by split <;> omega
  simp only [taskFree, hr0] at htask
  have hheap : m.heap = ⟨mcuFree P (c.svcEnter A next).heap.heap (c.reg .r0).toNat,
      (c.svcEnter A next).heap.live.filter fun a => a.1 ≠ (c.reg .r0).toNat⟩ := by rw [← htask]
  have hmem : m.mem = (mcuFree P (c.svcEnter A next).heap.heap (c.reg .r0).toNat).mem := by rw [Machine.mem, hheap]
  have hkept : ∀ b ∈ c.machine.heap.live, b.1 ≠ (c.reg .r0).toNat → ∀ y, b.1 ≤ y → y < b.1 + b.2 →
      m.mem y = (c.svcEnter A next).mem y := by
    intro b hb hb' y hlo hhi
    have hsame := hbytes b hb hb' (y - b.1) (by omega)
    rw [show b.1 + (y - b.1) = y by omega] at hsame
    rw [hmem]
    exact hsame
  have hother : ∀ b, b ∈ m.heap.live → b.1 ≠ (c.reg .r0).toNat := by
    intro b hb
    rw [hheap, List.mem_filter, decide_eq_true_eq] at hb
    exact hb.2
  have hst : st ∈ m.heap.live := by
    rw [hheap, List.mem_filter, decide_eq_true_eq]
    exact ⟨h.live, fun heq => hne heq.symm⟩
  obtain ⟨hserved, hresult, hlive⟩ := served h hlinks (show m.ctxt = (c.svcEnter A next).ctxt by rw [← htask])
    ⟨cs', ls', by rw [hheap]; exact hinv'⟩ hst fun b hb hb' y hlo hhi _ => hkept b hb (hother b hb') y hlo hhi
  refine ⟨hserved, ?_, ?_⟩
  · have hstored : word (c.svcEnter A next).mem (framePtr A c.sp).toNat = c.reg .r0 := hr0
    rw [hresult, ← hstored]
    exact word_congr fun y hy hy' => hkept st h.live (hother st hst) y (by omega) (by omega)
  · rw [hlive, hheap]
    rfl

-- ---------------------------------------------------------------------------
-- Runs
-- ---------------------------------------------------------------------------

/-- A task frees what is allocated, but not the stacklet that it runs on. -/
def Permitted (st : Nat × Nat) (c : EntryCpu n) : HeapCall → Prop
  | .malloc _ => True
  | .free ptr => ptr.toNat ∈ c.machine.heap.live.map Prod.fst ∧ ptr.toNat ≠ st.1

/-- What a call does to the allocations. -/
def Result (c c' : EntryCpu n) : HeapCall → Prop
  | .malloc size => c'.reg .r0 ≠ 0 ∧
    c'.machine.heap.live = ((c'.reg .r0).toNat, size.toNat) :: c.machine.heap.live
  | .free ptr => c'.machine.heap.live = c.machine.heap.live.filter fun a => a.1 ≠ ptr.toNat

theorem heapCall_served {call : HeapCall} (h : OnStacklet A P c st) (hlinks : tlsMemAddr.toNat + 12 ≤ P.sentinels)
    (hok : Permitted st c call) (hrun : heapCall A P next c call = some c') :
    Served A P c c' st ∧ Result c c' call := by
  cases call with
  | malloc size =>
    rw [heapCall, if_neg (by simp [h.task])] at hrun
    obtain ⟨m, htask, rfl⟩ := Option.map_eq_some_iff.mp hrun
    have hr0 : (withArgument c size).reg .r0 = size := by simp [withArgument]
    obtain ⟨hserved, hne, hlive⟩ := taskMalloc_served (onStacklet_withArgument h size) hlinks htask
    rw [hr0] at hlive
    exact ⟨hserved.of_withArgument, hne, hlive⟩
  | free ptr =>
    rw [heapCall, if_neg (by simp [h.task])] at hrun
    obtain rfl := Option.some.inj hrun
    have hr0 : (withArgument c ptr).reg .r0 = ptr := by simp [withArgument]
    generalize htask : taskFree P ((withArgument c ptr).svcEnter A next) = m
    obtain ⟨hserved, -, hlive⟩ := taskFree_served (onStacklet_withArgument h ptr) hlinks
      (by rw [hr0]; exact hok.1) (by rw [hr0]; exact hok.2) htask
    rw [hr0] at hlive
    exact ⟨hserved.of_withArgument, hlive⟩

theorem Result.keeps {call : HeapCall} (h : Result c c' call) {b : Nat × Nat} (hb : b ∈ c.machine.heap.live)
    (hnot : ∀ ptr, call = .free ptr → ptr.toNat ≠ b.1) : b ∈ c'.machine.heap.live := by
  cases call with
  | malloc size =>
    rw [h.2]
    exact List.mem_cons_of_mem _ hb
  | free ptr =>
    have hlive : c'.machine.heap.live = c.machine.heap.live.filter fun a => a.1 ≠ ptr.toNat := h
    rw [hlive, List.mem_filter, decide_eq_true_eq]
    exact ⟨hb, fun heq => hnot ptr rfl heq.symm⟩

/-- Whatever a task allocates and frees, it goes on with its registers, its stack and its local storage. The
heap stays sound, and an allocation that is not freed keeps what is in it. -/
theorem exec_heapCalls {calls : List HeapCall} (h : OnStacklet A P c₀ st)
    (hlinks : tlsMemAddr.toNat + 12 ≤ P.sentinels)
    (hok : Run.Allowed (heapCall A P next) (Permitted st) c₀ calls)
    (hrun : Run.exec (heapCall A P next) c₀ calls = some c) :
    Same c₀ c ∧ OnStacklet A P c st ∧ c.machine.heap.Safe P ∧
      ∀ b ∈ c₀.machine.heap.live, (∀ ptr, .free ptr ∈ calls → ptr.toNat ≠ b.1) →
        b ∈ c.machine.heap.live ∧ ∀ y, b.1 ≤ y → y < b.1 + b.2 →
          Outside (st.1 + metaSize, c₀.sp.toNat - (st.1 + metaSize)) y → c.mem y = c₀.mem y := by
  induction calls generalizing c₀ with
  | nil =>
    obtain rfl := Option.some.inj hrun
    obtain ⟨cs, ls, hinv⟩ := h.heap
    exact ⟨⟨fun _ _ => rfl, rfl, rfl, rfl, rfl, rfl⟩, h, hinv.safe,
      fun b hb _ => ⟨hb, fun _ _ _ _ => rfl⟩⟩
  | cons call calls ih =>
    obtain ⟨t, hcall, hrest⟩ := Run.exec_cons.mp hrun
    obtain ⟨⟨hsame, hon, hkept⟩, hresult⟩ := heapCall_served h hlinks hok.1 hcall
    obtain ⟨hsame', hon', hsafe, hkept'⟩ := ih hon (hok.2 t hcall) hrest
    refine ⟨hsame.trans hsame', hon', hsafe, fun b hb hnot => ?_⟩
    have hbt : b ∈ t.machine.heap.live := hresult.keeps hb fun ptr hptr =>
      hnot ptr (List.mem_cons.mpr (.inl hptr.symm))
    obtain ⟨hbc, hbytes⟩ := hkept' b hbt fun ptr hptr => hnot ptr (List.mem_cons_of_mem _ hptr)
    refine ⟨hbc, fun y hlo hhi hy => ?_⟩
    rw [hbytes y hlo hhi (by rw [hsame.sp]; exact hy)]
    exact hkept b hb hbt y hlo hhi hy

def someCalls : List HeapCall := [.free 0x20000250, .malloc 64]

theorem exec_heapCalls_task : ∃ c₀ c : EntryCpu 1,
    Run.exec (heapCall .armv7em entryBoard 0x08000902) c₀ someCalls = some c ∧ Same c₀ c ∧
      OnStacklet .armv7em entryBoard c (0x20000048, 512) ∧ c.machine.heap.Safe entryBoard := by
  obtain ⟨client, hheap, hlive, hst⟩ := entryHeap_panicMem
  have hserved : ((entryHeap panicMem).bind fun h =>
      (Run.exec (heapCall .armv7em entryBoard 0x08000902) (entryCpu h 0x20000200) someCalls).map fun _ =>
        true) = some true := by decide +kernel
  simp only [hheap, Option.bind_some, Option.map_eq_some_iff] at hserved
  obtain ⟨c, hrun, -⟩ := hserved
  have hallowed : Run.Allowed (heapCall .armv7em entryBoard 0x08000902) (Permitted (0x20000048, 512))
      (entryCpu client 0x20000200) someCalls :=
    ⟨⟨by exact hlive ▸ by decide, by decide⟩, fun _ _ => ⟨trivial, fun _ _ => trivial⟩⟩
  obtain ⟨hsame, hon, hsafe, -⟩ := exec_heapCalls hst (by decide) hallowed hrun
  exact ⟨_, c, hrun, hsame, hon, hsafe⟩

end Hopter.Allocator.TaskHeap
