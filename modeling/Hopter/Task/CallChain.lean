-- SUMMARY: Runs of a task on its segmented stack, and the layout of its stacklets in every state.
import Hopter.Task.SegmentedStack

/-!
# Call chains

A task runs on its current stacklet, uses the heap, and makes supervisor calls. The
state keeps, for each `more_stack` that has not been matched by a `less_stack`, the
machine as it was at that call. The code of the task is arbitrary, up to what the
compiler and the memory safety of the language promise: it frees no stacklet, it does
not write to the metadata of a stacklet or to the trap frames that are saved on the
stacklets below, and it stays on its stacklet.
-/

namespace Hopter.Task

open Allocator

variable {n : Nat}

/-- A `more_stack` that has not been matched yet: the machine at the call, and the
stacklet that was allocated. -/
structure OpenCall (n : Nat) where
  before : Machine n
  stacklet : Nat × Nat

/-- The task with its initial stacklet and its open calls, the innermost first. -/
structure Stack (n : Nat) where
  machine : Machine n
  base : Nat × Nat
  calls : List (OpenCall n)

/-- The stacklet in use. -/
def currentStacklet (base : Nat × Nat) : List (OpenCall n) → Nat × Nat
  | [] => base
  | c :: _ => c.stacklet

def stacklets (base : Nat × Nat) (calls : List (OpenCall n)) : List (Nat × Nat) :=
  calls.map OpenCall.stacklet ++ [base]

/-- A trap frame at `sp` is on the stacklet, above the metadata. -/
def OnStacklet (st : Nat × Nat) (sp : Reg) : Prop :=
  st.1 + metaSize ≤ sp.toNat ∧ sp.toNat + trapFrameSize ≤ st.1 + st.2

instance (st : Nat × Nat) (sp : Reg) : Decidable (OnStacklet st sp) :=
  inferInstanceAs (Decidable (_ ∧ _))

/-- The bytes that a call relies on: the metadata, apart from `extend_cnt`, and the trap
frame of the caller. Each range is an address and a length. -/
def OpenCall.ranges (c : OpenCall n) : List (Nat × Nat) :=
  [(c.stacklet.1, 8), (c.stacklet.1 + 12, 4), (c.before.ctxt.sp.toNat, trapFrameSize)]

/-- What the code of a task does with the heap. -/
def Stack.Permits (s : Stack n) : Call → Prop
  | .malloc size => size ≤ 2 ^ 31 - 1
  | .free ptr => ptr ∈ s.machine.heap.live.map Prod.fst ∧
      ptr ∉ (stacklets s.base s.calls).map Prod.fst
  | .write ptr i _ => (∃ a ∈ s.machine.heap.live, a.1 = ptr ∧ i < a.2) ∧
      ∀ c ∈ s.calls, ∀ r ∈ c.ranges, Outside r (ptr + i)

instance (s : Stack n) : (call : Call) → Decidable (s.Permits call)
  | .malloc _ => inferInstanceAs (Decidable (_ ≤ _))
  | .free _ => inferInstanceAs (Decidable (_ ∧ _))
  | .write _ _ _ => inferInstanceAs (Decidable (_ ∧ _))

inductive Event where
  /-- The task uses the heap, or writes to memory that it owns. -/
  | heap (call : Call)
  /-- The task moves its stack pointer. The address is where a trap frame would be. -/
  | move (sp : Reg)
  /-- The task enters and leaves drop handlers. -/
  | drops (nestedDropCnt unwindPending : Reg)
  | unwinding (b : Bool)
  | moreStack (reason : MoreStackReason)
  | lessStack

variable (P : Platform) (cfg : Config) (prog : Reg → BitVec 16)

def Stack.step (s : Stack n) : Event → Option (Stack n)
  | .heap call =>
    if s.Permits call then (s.machine.heap.step P call).map fun h =>
      { s with machine := { s.machine with heap := h } }
    else none
  | .move sp =>
    if OnStacklet (currentStacklet s.base s.calls) sp then some
      { s with machine := { s.machine with ctxt := { s.machine.ctxt with sp := sp } } }
    else none
  | .drops nestedDropCnt unwindPending => some
    { s with machine := { s.machine with ctxt := { s.machine.ctxt with
      tls := ⟨s.machine.ctxt.tls.stkletBound, nestedDropCnt, unwindPending⟩ } } }
  | .unwinding b => some { s with machine := { s.machine with unwinding := b } }
  | .moreStack reason => (moreStack P cfg prog reason s.machine).map fun
    | .extended m => { s with
      machine := m
      calls := ⟨s.machine, m.heap.live.headD (0, 0)⟩ :: s.calls }
    | .diverted m => { s with machine := m }
  | .lessStack =>
    match s.calls with
    | [] => none
    | _ :: rest => (lessStack P cfg s.machine).map fun m => { s with machine := m, calls := rest }

/-- A task that is about to start on its initial stacklet. -/
structure Start (s : Stack n) : Prop where
  heap : ∃ cs ls, s.machine.heap.Inv P cs ls
  calls : s.calls = []
  live : s.base ∈ s.machine.heap.live
  bound : s.machine.ctxt.tls.stkletBound = stkletPtrToBound s.base.1
  large : overheadSize ≤ s.base.2
  sp : OnStacklet s.base s.machine.ctxt.sp

-- ---------------------------------------------------------------------------
-- The layout of the stacklets
-- ---------------------------------------------------------------------------

/-- The memory holds what the call relies on. -/
structure OpenCall.Kept (m : Mem) (c : OpenCall n) : Prop where
  bound : word m c.stacklet.1 = c.before.ctxt.tls.stkletBound
  sp : word m (c.stacklet.1 + 4) = c.before.ctxt.sp
  countSize : word m (c.stacklet.1 + 12) = c.before.frameSize prog
  frame : c.before.mem.AgreeOn m c.before.ctxt.sp.toNat (c.before.ctxt.sp.toNat + trapFrameSize)

/-- Each call was made from the stacklet below its own. -/
def Linked (base : Nat × Nat) : List (OpenCall n) → Prop
  | [] => True
  | c :: rest => c.before.ctxt.tls.stkletBound = stkletPtrToBound (currentStacklet base rest).1 ∧
      OnStacklet (currentStacklet base rest) c.before.ctxt.sp ∧ Linked base rest

structure Layout (s : Stack n) : Prop where
  heap : ∃ cs ls, s.machine.heap.Inv P cs ls
  live : ∀ st ∈ stacklets s.base s.calls, st ∈ s.machine.heap.live
  distinct : ((stacklets s.base s.calls).map Prod.fst).Nodup
  large : ∀ st ∈ stacklets s.base s.calls, overheadSize ≤ st.2
  linked : Linked s.base s.calls
  kept : ∀ c ∈ s.calls, c.Kept prog s.machine.mem
  bound : s.machine.ctxt.tls.stkletBound = stkletPtrToBound (currentStacklet s.base s.calls).1
  sp : OnStacklet (currentStacklet s.base s.calls) s.machine.ctxt.sp

variable {P cfg prog} {s s' : Stack n} {c : OpenCall n} {base : Nat × Nat}
  {calls rest : List (OpenCall n)}

@[simp] theorem stacklets_cons : stacklets base (c :: rest) = c.stacklet :: stacklets base rest := rfl

theorem currentStacklet_mem (base : Nat × Nat) (calls : List (OpenCall n)) :
    currentStacklet base calls ∈ stacklets base calls := by
  cases calls with
  | nil => simp [currentStacklet, stacklets]
  | cons c rest => simp [currentStacklet]

theorem Start.layout (h : Start P s) : Layout P prog s := by
  obtain ⟨hheap, hcalls, hlive, hbound, hlarge, hsp⟩ := h
  refine ⟨hheap, ?_, ?_, ?_, ?_, ?_, ?_, ?_⟩
  · simpa [hcalls, stacklets] using hlive
  · simp [hcalls, stacklets]
  · simpa [hcalls, stacklets] using hlarge
  · simp [hcalls, Linked]
  · simp [hcalls]
  · simpa [hcalls, currentStacklet] using hbound
  · simpa [hcalls, currentStacklet] using hsp

/-- The trap frame of a caller is on the stacklet below that of the callee. -/
theorem Linked.frame_below (h : Linked base calls) (hc : c ∈ calls) :
    ∃ st ∈ (stacklets base calls).tail, OnStacklet st c.before.ctxt.sp := by
  induction calls with
  | nil => simp at hc
  | cons d rest ih =>
    obtain ⟨-, hsp, hrest⟩ := h
    rcases List.mem_cons.mp hc with rfl | hc
    · exact ⟨_, currentStacklet_mem base rest, hsp⟩
    · obtain ⟨st, hst, hon⟩ := ih hrest hc
      exact ⟨st, List.mem_of_mem_tail hst, hon⟩

/-- The stacklets below the current one have other addresses. -/
theorem ne_currentStacklet {st : Nat × Nat} (h : ((stacklets base calls).map Prod.fst).Nodup)
    (hst : st ∈ (stacklets base calls).tail) : st.1 ≠ (currentStacklet base calls).1 := by
  cases calls with
  | nil => simp [stacklets] at hst
  | cons c rest =>
    intro heq
    refine (List.nodup_cons.mp h).1 ?_
    change c.stacklet.1 ∈ (stacklets base rest).map Prod.fst
    rw [show c.stacklet.1 = st.1 from heq.symm]
    exact List.mem_map_of_mem hst

theorem OpenCall.mem_stacklets (hc : c ∈ calls) : c.stacklet ∈ stacklets base calls :=
  List.mem_append_left _ (List.mem_map_of_mem hc)

/-- What a call relies on is inside the stacklets. -/
theorem Layout.range_inside (h : Layout P prog s) (hc : c ∈ s.calls) {r : Nat × Nat}
    (hr : r ∈ c.ranges) :
    ∃ st ∈ stacklets s.base s.calls, st.1 ≤ r.1 ∧ r.1 + r.2 ≤ st.1 + st.2 := by
  have hmem : c.stacklet ∈ stacklets s.base s.calls := OpenCall.mem_stacklets hc
  have hlarge := h.large _ hmem
  simp only [overheadSize, metaSize, trapFramePadSize, trapFrameSize, r12PreserveSize] at hlarge
  simp only [OpenCall.ranges, List.mem_cons, List.not_mem_nil, or_false] at hr
  rcases hr with rfl | rfl | rfl
  · exact ⟨_, hmem, by omega, by simp only; omega⟩
  · exact ⟨_, hmem, by simp, by simp only; omega⟩
  · obtain ⟨st, hst, hlo, hhi⟩ := h.linked.frame_below hc
    simp only [metaSize] at hlo
    exact ⟨st, List.mem_of_mem_tail hst, by simp only; omega, hhi⟩

/-- Two stacklets are the same or do not overlap. -/
theorem Layout.same_or_apart (h : Layout P prog s) {a b : Nat × Nat}
    (ha : a ∈ stacklets s.base s.calls) (hb : b ∈ stacklets s.base s.calls) :
    a.1 = b.1 ∨ Apart a b := by
  by_cases hne : a.1 = b.1
  · exact Or.inl hne
  · obtain ⟨cs, ls, hinv⟩ := h.heap
    exact Or.inr (hinv.apart_of_ne (h.live a ha) (h.live b hb) hne)

/-- Addresses do not wrap around inside a stacklet. -/
theorem Layout.end_lt (h : Layout P prog s) {st : Nat × Nat} (hst : st ∈ s.machine.heap.live) :
    st.1 + st.2 < 2 ^ 32 := by
  obtain ⟨cs, ls, hinv⟩ := h.heap
  have hfits := hinv.fits st hst
  have hlt := hinv.heap.valid.ramEnd_lt
  simp only [Fits] at hfits
  omega

theorem OpenCall.Kept.congr {m m' : Mem} (h : c.Kept prog m)
    (hm : ∀ r ∈ c.ranges, m.AgreeOn m' r.1 (r.1 + r.2)) : c.Kept prog m' := by
  simp only [OpenCall.ranges, List.mem_cons, List.not_mem_nil, or_false, forall_eq_or_imp,
    forall_eq] at hm
  obtain ⟨hmeta, hcount, hframe⟩ := hm
  refine ⟨?_, ?_, ?_, h.frame.trans hframe⟩
  · rw [word_congr (hmeta.mono le_rfl (by omega)), h.bound]
  · rw [word_congr (hmeta.mono (by omega) (by omega)), h.sp]
  · rw [word_congr hcount, h.countSize]

/-- Memory that keeps the live payloads keeps what the calls rely on. -/
theorem Layout.agree_of_live (h : Layout P prog s) {m m' : Mem} (hc : c ∈ s.calls) {r : Nat × Nat}
    (hr : r ∈ c.ranges)
    (hlive : ∀ st ∈ stacklets s.base s.calls, ∀ i < st.2, m' (st.1 + i) = m (st.1 + i)) :
    m.AgreeOn m' r.1 (r.1 + r.2) := by
  obtain ⟨st, hst, hlo, hhi⟩ := h.range_inside hc hr
  intro y hy hy'
  have := hlive st hst (y - st.1) (by omega)
  rwa [show st.1 + (y - st.1) = y by omega] at this

/-- A step that keeps the open calls. -/
theorem Layout.same_calls (h : Layout P prog s) (hbase : s'.base = s.base)
    (hcalls : s'.calls = s.calls) (hheap : ∃ cs ls, s'.machine.heap.Inv P cs ls)
    (hlive : ∀ st ∈ stacklets s.base s.calls, st ∈ s'.machine.heap.live)
    (hmem : ∀ c ∈ s.calls, ∀ r ∈ c.ranges, s.machine.mem.AgreeOn s'.machine.mem r.1 (r.1 + r.2))
    (hbound : s'.machine.ctxt.tls.stkletBound = s.machine.ctxt.tls.stkletBound)
    (hsp : OnStacklet (currentStacklet s.base s.calls) s'.machine.ctxt.sp) :
    Layout P prog s' := by
  obtain ⟨machine, base', calls'⟩ := s'
  subst hbase hcalls
  exact ⟨hheap, hlive, h.distinct, h.large, h.linked,
    fun c hc => (h.kept c hc).congr (hmem c hc), hbound.trans h.bound, hsp⟩

-- ---------------------------------------------------------------------------
-- Steps of the task
-- ---------------------------------------------------------------------------

theorem Layout.heapCall (h : Layout P prog s) {call : Call} {heap : Client}
    (hpermits : s.Permits call) (hstep : s.machine.heap.step P call = some heap) :
    Layout P prog { s with machine := { s.machine with heap := heap } } := by
  obtain ⟨cs, ls, hinv⟩ := h.heap
  cases call with
  | malloc size =>
    obtain ⟨heap', cs', ls', hstep', hinv', -⟩ := hinv.malloc hpermits
    obtain rfl := Option.some.inj (hstep.symm.trans hstep')
    refine h.same_calls rfl rfl ⟨cs', ls', hinv'⟩ (fun st hst => ?_) (fun c hc r hr => ?_) rfl h.sp
    · obtain ⟨⟨heap', p⟩, -, rfl⟩ := Option.map_eq_some_iff.mp hstep
      simp only
      split
      · exact h.live st hst
      · exact List.mem_cons_of_mem _ (h.live st hst)
    · exact h.agree_of_live hc hr fun st hst i hi =>
        hinv.safe.frame (.malloc size) _ hpermits (by simp) hstep st (h.live st hst) (by simp) i hi
  | free ptr =>
    obtain ⟨hlive, hnot⟩ := hpermits
    obtain rfl := Option.some.inj hstep
    have hne : ∀ st ∈ stacklets s.base s.calls, st.1 ≠ ptr := by
      rintro st hst rfl
      exact hnot (List.mem_map_of_mem hst)
    obtain ⟨hinv', hbytes⟩ := hinv.mcuFree_spec hlive
    refine h.same_calls rfl rfl hinv' (fun st hst => ?_) (fun c hc r hr => ?_) rfl h.sp
    · simp [h.live st hst, hne st hst]
    · exact h.agree_of_live hc hr fun st hst => hbytes st (h.live st hst) (hne st hst)
  | write ptr i b =>
    obtain ⟨⟨a, ha, rfl, hi⟩, hout⟩ := hpermits
    obtain ⟨heap', cs', ls', hstep', hinv'⟩ := hinv.write (b := b) ha hi
    obtain rfl := Option.some.inj (hstep.symm.trans hstep')
    obtain rfl := Option.some.inj hstep
    refine h.same_calls rfl rfl ⟨cs', ls', hinv'⟩ h.live (fun c hc r hr y hy hy' => ?_) rfl h.sp
    have hne : y ≠ a.1 + i := by
      rintro rfl
      rcases hout c hc r hr with hlt | hge
      · omega
      · omega
    simp [Machine.mem, Mem.storeByte, hne]

-- ---------------------------------------------------------------------------
-- Growing the stack
-- ---------------------------------------------------------------------------

/-- No call relies on the `extend_cnt` of the current stacklet. -/
theorem Layout.outside_extendCnt (h : Layout P prog s) (hc : c ∈ s.calls) {r : Nat × Nat}
    (hr : r ∈ c.ranges) {y : Nat} (hy : r.1 ≤ y) (hy' : y < r.1 + r.2) :
    Outside ((currentStacklet s.base s.calls).1 + 8, 4) y := by
  have hcur := currentStacklet_mem s.base s.calls
  have hmem : c.stacklet ∈ stacklets s.base s.calls := OpenCall.mem_stacklets hc
  have hlarge := h.large _ hcur
  have hlarge' := h.large _ hmem
  simp only [overheadSize, metaSize, trapFramePadSize, trapFrameSize, r12PreserveSize]
    at hlarge hlarge'
  simp only [OpenCall.ranges, List.mem_cons, List.not_mem_nil, or_false] at hr
  simp only [Outside]
  rcases hr with rfl | rfl | rfl
  · simp only at hy hy'
    rcases h.same_or_apart hmem hcur with heq | hlt | hlt <;> omega
  · simp only at hy hy'
    rcases h.same_or_apart hmem hcur with heq | hlt | hlt <;> omega
  · obtain ⟨st, hst, hlo, hhi⟩ := h.linked.frame_below hc
    simp only [metaSize] at hlo
    simp only at hy hy'
    rcases h.same_or_apart (List.mem_of_mem_tail hst) hcur with heq | hlt | hlt <;> omega

/-- The machine right before the allocation. -/
theorem Layout.prepared (h : Layout P prog s) {m : Machine n} (hp : Prepared cfg prog s.machine m) :
    Layout P prog { s with machine := m } ∧
      s.machine.mem.AgreeOn m.mem s.machine.ctxt.sp.toNat
        (s.machine.ctxt.sp.toNat + trapFrameSize) := by
  obtain ⟨mem, hheap, hout⟩ := hp.heap
  have hcur := currentStacklet_mem s.base s.calls
  have hlive := h.live _ hcur
  have hlt := h.end_lt hlive
  have hlarge := h.large _ hcur
  simp only [overheadSize, metaSize, trapFramePadSize, trapFrameSize, r12PreserveSize] at hlarge
  rw [h.bound, boundToStkletMeta_stkletPtrToBound (by omega)] at hout
  have hmem : m.mem = mem := by rw [Machine.mem, hheap]
  obtain ⟨cs, ls, hinv⟩ := h.heap
  obtain ⟨cs', hinv'⟩ := hinv.overwrite hlive fun y hy => hout y (by simp only [Outside]; omega)
  have hclient : m.heap = ⟨{ s.machine.heap.heap with mem := mem }, s.machine.heap.live⟩ := by
    rw [← hp.live, ← hheap]
  refine ⟨h.same_calls rfl rfl ⟨cs', ls, ?_⟩ (fun st hst => ?_) (fun c hc r hr y hy hy' => ?_) hp.bound
    ?_, fun y hy hy' => ?_⟩
  · simp only [hclient]
    exact hinv'
  · simp only [hp.live]
    exact h.live st hst
  · simp only [hmem]
    exact hout y (h.outside_extendCnt hc hr hy hy')
  · simp only [hp.sp]
    exact h.sp
  · rw [hmem]
    obtain ⟨hlo, hhi⟩ := h.sp
    simp only [metaSize] at hlo
    exact hout y (by simp only [Outside]; omega)

/-- A new stacklet is a new allocation, and the other allocations keep their bytes. -/
theorem allocStacklet_keeps {m m' : Machine n} {frameSize argSize : Reg} (hheap : ∃ cs ls, m.heap.Inv P cs ls)
    (hfits : SizeFits cfg frameSize argSize) (halloc : allocStacklet P cfg frameSize argSize m = some m') :
    ∃ st, m'.heap.live = st :: m.heap.live ∧
      ∀ a ∈ m.heap.live, a.1 ≠ st.1 ∧ ∀ i < a.2, m'.mem (a.1 + i) = m.mem (a.1 + i) := by
  obtain ⟨heap, ptr, hsize, hmalloc, hptr, rfl⟩ := allocStacklet_cases halloc
  obtain ⟨cs, ls, hinv⟩ := hheap
  obtain ⟨⟨cs', ls', hinv'⟩, hbytes⟩ := hinv.mcuMalloc_spec (by omega) hmalloc hptr
  have hend : ptr + (totalSize cfg frameSize argSize).toNat < 2 ^ 32 := by
    have hfit := hinv'.fits (ptr, (totalSize cfg frameSize argSize).toNat) (by simp)
    have := hinv'.heap.valid.ramEnd_lt
    simp only [Fits] at hfit
    omega
  refine ⟨_, rfl, fun a ha => ?_⟩
  have hne : a.1 ≠ ptr := by
    intro heq
    have hnot := (List.nodup_cons.mp hinv'.distinct).1
    exact hnot (List.mem_map.mpr ⟨a, ha, heq⟩)
  refine ⟨hne, fun i hi => ?_⟩
  have hapart : Apart a (ptr, (totalSize cfg frameSize argSize).toNat) :=
    hinv'.apart_of_ne (List.mem_cons_of_mem _ ha) (List.mem_cons_self ..) hne
  simp only [Apart] at hapart
  refine (fillStacklet_outside heap.mem m.ctxt hfits hend ?_).trans (hbytes a ha i hi)
  simp only [Outside]
  omega

/-- The state of a task whose call was extended to a new stacklet. -/
theorem Layout.allocated (h : Layout P prog s) {m m' : Machine n}
    (hp : Prepared cfg prog s.machine m)
    (hfits : SizeFits cfg (s.machine.frameSize prog) (s.machine.argSize prog))
    (halloc : allocStacklet P cfg (s.machine.frameSize prog) (s.machine.argSize prog) m = some m') :
    Layout P prog { s with
      machine := m'
      calls := ⟨s.machine, m'.heap.live.headD (0, 0)⟩ :: s.calls } := by
  obtain ⟨hprep, hframe⟩ := h.prepared hp
  obtain ⟨heap, ptr, hsize, hmalloc, hptr, rfl⟩ := allocStacklet_cases halloc
  obtain ⟨cs, ls, hinv⟩ := hprep.heap
  simp only at hinv
  obtain ⟨⟨cs', ls', hinv'⟩, -⟩ := hinv.mcuMalloc_spec (by omega) hmalloc hptr
  have htotal := hfits.toNat_totalSize
  set total := (totalSize cfg (s.machine.frameSize prog) (s.machine.argSize prog)).toNat with htot
  have hend : ptr + total < 2 ^ 32 := by
    have hfit := hinv'.fits (ptr, total) (by simp)
    have := hinv'.heap.valid.ramEnd_lt
    simp only [Fits] at hfit
    omega
  have hsp := hfits.toNat_newStackPointer hend
  obtain ⟨hbound, hprev, hcount⟩ := fillStacklet_meta heap.mem m.ctxt hfits hend
  -- The new stacklet is filled, and the bytes of the other ones stay as they are.
  obtain ⟨st', hnew, hothers⟩ := allocStacklet_keeps ⟨cs, ls, hinv⟩ hfits halloc
  obtain rfl := (List.cons.inj hnew).1
  have hfresh : ∀ st ∈ stacklets s.base s.calls, st.1 ≠ ptr :=
    fun st hst => (hothers st (hprep.live st hst)).1
  have hkeep : ∀ st ∈ stacklets s.base s.calls, ∀ i < st.2,
      fillStacklet cfg heap.mem m.ctxt ptr (s.machine.frameSize prog) (s.machine.argSize prog)
        (st.1 + i) = m.mem (st.1 + i) :=
    fun st hst => (hothers st (hprep.live st hst)).2
  obtain ⟨cs'', hinv''⟩ := hinv'.overwrite (List.mem_cons_self ..)
    fun y hy => fillStacklet_outside _ m.ctxt hfits hend hy
  have hcur := currentStacklet_mem s.base s.calls
  refine ⟨⟨cs'', ls', hinv''⟩, ?_, ?_, ?_, ⟨h.bound, h.sp, h.linked⟩, ?_, rfl, ?_⟩
  · simp only [List.headD_cons, stacklets_cons, List.mem_cons, forall_eq_or_imp, true_or, true_and]
    exact fun st hst => Or.inr (hprep.live st hst)
  · simp only [List.headD_cons, stacklets_cons, List.map_cons, List.nodup_cons]
    refine ⟨fun hmem => ?_, h.distinct⟩
    obtain ⟨st, hst, heq⟩ := List.mem_map.mp hmem
    exact hfresh st hst heq
  · simp only [List.headD_cons, stacklets_cons, List.mem_cons, forall_eq_or_imp]
    exact ⟨by omega, h.large⟩
  · simp only [List.headD_cons, List.mem_cons, forall_eq_or_imp]
    refine ⟨⟨?_, ?_, hcount, ?_⟩, fun c hc => ?_⟩
    · rw [← hp.bound]
      exact hbound
    · rw [← hp.sp]
      exact hprev
    · refine hframe.trans fun y hy hy' => ?_
      obtain ⟨hlo, hhi⟩ := h.sp
      simp only [metaSize] at hlo
      have := hkeep _ hcur (y - (currentStacklet s.base s.calls).1) (by omega)
      rwa [show (currentStacklet s.base s.calls).1 + (y - (currentStacklet s.base s.calls).1) = y by
        omega] at this
    · exact (hprep.kept c hc).congr fun r hr => hprep.agree_of_live hc hr hkeep
  · simp only [List.headD_cons, currentStacklet, OnStacklet]
    simp only [overheadSize, metaSize, trapFramePadSize, trapFrameSize, r12PreserveSize] at htotal hsp ⊢
    omega

-- ---------------------------------------------------------------------------
-- Shrinking the stack
-- ---------------------------------------------------------------------------

/-- A callee returns from its own stacklet `st`, and the trap frame of its caller is on
the stacklet `prev`. -/
structure Switched (P : Platform) (m : Machine n) (st prev : Nat × Nat) : Prop where
  heap : ∃ cs ls, m.heap.Inv P cs ls
  live : st ∈ m.heap.live
  prevLive : prev ∈ m.heap.live
  distinct : st.1 ≠ prev.1
  large : overheadSize ≤ st.2
  bound : m.ctxt.tls.stkletBound = stkletPtrToBound st.1
  sp : OnStacklet st m.ctxt.sp
  prevSp : OnStacklet prev (word m.mem (st.1 + 4))

/-- What `less_stack` leaves. -/
structure Returned (P : Platform) (m m' : Machine n) (st : Nat × Nat) : Prop where
  heap : ∃ cs ls, m'.heap.Inv P cs ls
  live : m'.heap.live = m.heap.live.filter fun a => a.1 ≠ st.1
  bytes : ∀ a ∈ m.heap.live, a.1 ≠ st.1 → ∀ i < a.2, Outside (m'.ctxt.sp.toNat, 28) (a.1 + i) →
    m'.mem (a.1 + i) = m.mem (a.1 + i)
  sp : m'.ctxt.sp = word m.mem (st.1 + 4)
  tls : m'.ctxt.tls = { m.ctxt.tls with stkletBound := word m.mem st.1 }
  scb : m'.scb = m.scb.map fun scb =>
    { svcLessStackAntiHotSplit (word m.mem (m'.ctxt.sp.toNat + 20)) scb with
      cumulatedSize := scb.cumulatedSize - word m.mem (st.1 + 12) }
  active : m'.activeStackletCount = m.activeStackletCount - 1
  frame : m'.tf = { TrapFrame.load m.mem m'.ctxt.sp.toNat with
    r0 := m.tf.r0
    r1 := m.tf.r1
    r2 := m.tf.r2
    r3 := m.tf.r3
    pc := word m.mem (m'.ctxt.sp.toNat + 20) }

theorem lessStack_returned {m m' : Machine n} {st prev : Nat × Nat} (h : Switched P m st prev)
    (hless : lessStack P cfg m = some m') : Returned P m m' st := by
  obtain ⟨⟨cs, ls, hinv⟩, hlive, hprevLive, hdistinct, hlarge, hbound, hsp, hprevSp⟩ := h
  have hfits := hinv.fits st hlive
  have hlt := hinv.heap.valid.ramEnd_lt
  have hapart := hinv.apart_of_ne hlive hprevLive hdistinct
  obtain ⟨hsplo, hsphi⟩ := hsp
  obtain ⟨hlo, hhi⟩ := hprevSp
  simp only [Fits] at hfits
  simp only [Apart] at hapart
  simp only [overheadSize, metaSize, trapFramePadSize, trapFrameSize, r12PreserveSize]
    at hlarge hlo hhi hsplo hsphi
  simp only [lessStack] at hless
  split at hless
  · exact absurd hless (by simp)
  rw [hbound, boundToStkletMeta_stkletPtrToBound (by omega)] at hless
  obtain rfl := Option.some.inj hless
  set sp := word m.mem (st.1 + 4) with hspEq
  set mem := copyResults m.mem m.ctxt.sp.toNat sp.toNat with hmem
  -- The results go to a live stacklet other than the one that is freed.
  have hout : ∀ y, Outside (sp.toNat, 28) y → mem y = m.mem y := fun y hy => copyResults_outside hy
  have hmeta : ∀ a, st.1 ≤ a → a + 4 ≤ st.1 + 16 → word mem a = word m.mem a :=
    fun a ha ha' => word_congr fun y hy hy' => hout y (by simp only [Outside]; omega)
  obtain ⟨cs', hinv'⟩ := hinv.overwrite hprevLive fun y hy => hout y (by simp only [Outside]; omega)
  obtain ⟨hfreed, hbytes⟩ := hinv'.mcuFree_spec (List.mem_map_of_mem hlive)
  have hlr : word mem (sp.toNat + 20) = word m.mem (sp.toNat + 20) := by
    simp only [hmem, copyResults]
    rw [word_setWord_disjoint (by omega), word_setWord_disjoint (by omega),
      word_setWord_disjoint (by omega), word_setWord_disjoint (by omega),
      word_setWord_disjoint (by omega)]
  refine ⟨hfreed, rfl, fun a ha hne i hi hy => ?_, rfl, ?_, ?_, rfl, ?_⟩
  · exact (hbytes a ha hne i hi).trans (hout _ hy)
  · simp only [Machine.setMem, hmeta st.1 le_rfl (by omega)]
  · simp only [Machine.setMem, hlr, hmeta (st.1 + 12) (by omega) (by omega)]
    rfl
  · have hagree : mem.AgreeOn (mcuFree P { m.heap.heap with mem := mem } st.1).mem sp.toNat
        (sp.toNat + trapFrameSize) := by
      intro y hy hy'
      simp only [trapFrameSize] at hy'
      have := hbytes prev hprevLive (Ne.symm hdistinct) (y - prev.1) (by omega)
      rwa [show prev.1 + (y - prev.1) = y by omega] at this
    exact (TrapFrame.load_congr hagree).trans (load_copyResults (by omega))

theorem Layout.switched (h : Layout P prog s) (hcalls : s.calls = c :: rest) :
    Switched P s.machine c.stacklet (currentStacklet s.base rest) := by
  have hst : c.stacklet ∈ stacklets s.base s.calls :=
    OpenCall.mem_stacklets (by simp [hcalls])
  have hprev : currentStacklet s.base rest ∈ stacklets s.base s.calls := by
    rw [hcalls, stacklets_cons]
    exact List.mem_cons_of_mem _ (currentStacklet_mem s.base rest)
  have hkept := h.kept c (by simp [hcalls])
  have hdistinct := h.distinct
  have hlinked := h.linked
  have hbound := h.bound
  have hsp := h.sp
  rw [hcalls] at hdistinct hlinked hbound hsp
  refine ⟨h.heap, h.live _ hst, h.live _ hprev, fun heq => ?_, h.large _ hst, hbound, hsp, ?_⟩
  · refine (List.nodup_cons.mp hdistinct).1 ?_
    rw [heq]
    exact List.mem_map_of_mem (currentStacklet_mem s.base rest)
  · rw [hkept.sp]
    exact hlinked.2.1

/-- The state of a task whose innermost stacklet was freed. At most the beginning of the trap
frame of its caller was written. -/
theorem Layout.popped (h : Layout P prog s) (hcalls : s.calls = c :: rest) {m : Machine n}
    (hheap : ∃ cs ls, m.heap.Inv P cs ls)
    (hfreed : m.heap.live = s.machine.heap.live.filter fun a => a.1 ≠ c.stacklet.1)
    (hbytes : ∀ a ∈ s.machine.heap.live, a.1 ≠ c.stacklet.1 → ∀ i < a.2,
      Outside (m.ctxt.sp.toNat, 28) (a.1 + i) → m.mem (a.1 + i) = s.machine.mem (a.1 + i))
    (hnewSp : m.ctxt.sp = word s.machine.mem (c.stacklet.1 + 4))
    (hnewBound : m.ctxt.tls.stkletBound = word s.machine.mem c.stacklet.1) :
    Layout P prog { s with machine := m, calls := rest } := by
  have hkept := h.kept c (by simp [hcalls])
  have hcur := currentStacklet_mem s.base rest
  have hdistinct := h.distinct
  have hlinked := h.linked
  have hlarge := h.large
  have hlive := h.live
  rw [hcalls] at hdistinct hlinked hlarge hlive
  obtain ⟨hfresh, hnodup⟩ := List.nodup_cons.mp hdistinct
  obtain ⟨hbound, ⟨hlo, hhi⟩, hrest⟩ := hlinked
  have hsp : m.ctxt.sp = c.before.ctxt.sp := hnewSp.trans hkept.sp
  have hne : ∀ st ∈ stacklets s.base rest, st.1 ≠ c.stacklet.1 :=
    fun st hst heq => hfresh (heq ▸ List.mem_map_of_mem hst)
  have hsub : ∀ {d : OpenCall n}, d ∈ rest → d ∈ s.calls := fun hd => by simp [hcalls, hd]
  have hstay : ∀ st ∈ stacklets s.base rest, st ∈ stacklets s.base s.calls :=
    fun st hst => by rw [hcalls]; exact List.mem_cons_of_mem _ hst
  refine ⟨hheap, fun st hst => ?_, hnodup, fun st hst => hlarge st (List.mem_cons_of_mem _ hst),
    hrest, fun d hd => ?_, ?_, ?_⟩
  · simp only [hfreed, List.mem_filter, decide_eq_true_eq]
    exact ⟨hlive st (List.mem_cons_of_mem _ hst), hne st hst⟩
  · refine (h.kept d (hsub hd)).congr fun r hr y hy hy' => ?_
    -- The results are written to the trap frame of `c`, on the stacklet that is current now.
    have hcur' := hstay _ hcur
    have hmem : d.stacklet ∈ stacklets s.base rest := OpenCall.mem_stacklets hd
    have hlarge' := hlarge _ (List.mem_cons_of_mem _ hmem)
    have hinside : ∀ st ∈ stacklets s.base rest, st.1 ≤ y → y < st.1 + st.2 →
        Outside (m.ctxt.sp.toNat, 28) y → m.mem y = s.machine.mem y := by
      intro st hst hlo hhi hout
      have := hbytes st (hlive st (List.mem_cons_of_mem _ hst)) (hne st hst) (y - st.1)
        (by omega) (by rwa [show st.1 + (y - st.1) = y by omega])
      rwa [show st.1 + (y - st.1) = y by omega] at this
    simp only [hsp] at hinside
    simp only [metaSize, trapFrameSize] at hlo hhi
    simp only [overheadSize, metaSize, trapFramePadSize, trapFrameSize, r12PreserveSize] at hlarge'
    simp only [OpenCall.ranges, List.mem_cons, List.not_mem_nil, or_false] at hr
    rcases hr with rfl | rfl | rfl
    · simp only at hy hy'
      refine hinside _ hmem (by omega) (by omega) ?_
      simp only [Outside]
      rcases h.same_or_apart (hstay _ hmem) hcur' with heq | hlt | hlt <;> omega
    · simp only at hy hy'
      refine hinside _ hmem (by omega) (by omega) ?_
      simp only [Outside]
      rcases h.same_or_apart (hstay _ hmem) hcur' with heq | hlt | hlt <;> omega
    · obtain ⟨st, hst, hlo', hhi'⟩ := hrest.frame_below hd
      have hst' := List.mem_of_mem_tail hst
      simp only [metaSize, trapFrameSize] at hlo' hhi' hy hy'
      refine hinside st hst' (by omega) (by omega) ?_
      simp only [Outside]
      rcases h.same_or_apart (hstay _ hst') hcur' with heq | hlt | hlt
      · exact absurd heq (ne_currentStacklet hnodup hst)
      · omega
      · omega
  · rw [hnewBound, hkept.bound, hbound]
  · rw [hsp]
    exact ⟨hlo, hhi⟩

/-- The state of a task whose call has returned to the stacklet below. -/
theorem Layout.returned (h : Layout P prog s) (hcalls : s.calls = c :: rest) {m : Machine n}
    (hret : Returned P s.machine m c.stacklet) :
    Layout P prog { s with machine := m, calls := rest } :=
  h.popped hcalls hret.heap hret.live hret.bytes hret.sp (by rw [hret.tls])

end Hopter.Task
