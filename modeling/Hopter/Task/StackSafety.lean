-- SUMMARY: Stacklets are transparent to calls, large enough, and lose no integer result, up to three defects.
import Hopter.Task.CallChain

/-!
# What a task can rely on

Three properties of the segmented stack. A call that runs on its own stacklet leaves
the stack of its caller as it was, as long as the size of the stacklet does not wrap
around. A new stacklet has room for the frame that asked for it, as long as the
hot-split cache is not hit at an empty entry. A result in `r0` to `r3` survives the
switch back; one in a floating-point register survives only if the register still
holds what it held at the call.
-/

namespace Hopter.Task

open Allocator

variable {n : Nat} {P : Platform} {cfg : Config} {prog : Reg → BitVec 16} {s s' : Stack n}
  {c : OpenCall n} {calls rest : List (OpenCall n)}

-- ---------------------------------------------------------------------------
-- Layout in every state
-- ---------------------------------------------------------------------------

/-- The size that the call asks for does not wrap around. -/
def Fits (cfg : Config) (prog : Reg → BitVec 16) (s : Stack n) : Event → Prop
  | .moreStack _ => SizeFits cfg (s.machine.frameSize prog) (s.machine.argSize prog)
  | _ => True

/-- The task, or the system on its behalf, may write to the current stacklet above the
metadata. -/
theorem Layout.written (h : Layout P prog s) {m : Mem} {a len : Nat}
    (hlo : (currentStacklet s.base s.calls).1 + metaSize ≤ a)
    (hhi : a + len ≤ (currentStacklet s.base s.calls).1 + (currentStacklet s.base s.calls).2)
    (hm : ∀ y, Outside (a, len) y → m y = s.machine.mem y) :
    Layout P prog { s with machine := s.machine.setMem m } := by
  have hcur := currentStacklet_mem s.base s.calls
  simp only [metaSize] at hlo
  obtain ⟨cs, ls, hinv⟩ := h.heap
  obtain ⟨cs', hinv'⟩ := hinv.overwrite (h.live _ hcur) fun y hy => hm y (by simp only [Outside]; omega)
  refine h.same_calls rfl rfl ⟨cs', ls, hinv'⟩ h.live (fun c hc r hr y hy hy' => hm y ?_) rfl h.sp
  have hmem : c.stacklet ∈ stacklets s.base s.calls := OpenCall.mem_stacklets hc
  have hlarge := h.large _ hmem
  simp only [overheadSize, metaSize, trapFramePadSize, trapFrameSize, r12PreserveSize] at hlarge
  simp only [OpenCall.ranges, List.mem_cons, List.not_mem_nil, or_false] at hr
  simp only [Outside]
  rcases hr with rfl | rfl | rfl
  · simp only at hy hy'
    rcases h.same_or_apart hmem hcur with heq | hlt | hlt <;> omega
  · simp only at hy hy'
    rcases h.same_or_apart hmem hcur with heq | hlt | hlt <;> omega
  · obtain ⟨st, hst, hlo', hhi'⟩ := h.linked.frame_below hc
    simp only [metaSize, trapFrameSize] at hlo' hhi' hy hy'
    rcases h.same_or_apart (List.mem_of_mem_tail hst) hcur with heq | hlt | hlt
    · exact absurd heq (ne_currentStacklet h.distinct hst)
    · omega
    · omega

/-- Diverting a call writes to the trap frame of the supervisor call only. -/
theorem Layout.diverted (h : Layout P prog s) (v : Reg) :
    Layout P prog { s with
      machine := s.machine.setMem (setWord s.machine.mem (s.machine.ctxt.sp.toNat + 24) v) } := by
  obtain ⟨hlo, hhi⟩ := h.sp
  simp only [trapFrameSize] at hhi
  exact h.written (a := s.machine.ctxt.sp.toNat + 24) (by omega) (show _ + 4 ≤ _ by omega)
    fun y hy => setWord_outside hy

theorem Layout.step {e : Event} (h : Layout P prog s) (hfits : Fits cfg prog s e)
    (hstep : s.step P cfg prog e = some s') : Layout P prog s' := by
  cases e with
  | heap call =>
    simp only [Stack.step] at hstep
    split at hstep
    · rename_i hpermits
      obtain ⟨heap, hcall, rfl⟩ := Option.map_eq_some_iff.mp hstep
      exact h.heapCall hpermits hcall
    · exact absurd hstep (by simp)
  | move sp =>
    simp only [Stack.step] at hstep
    split at hstep
    · rename_i hsp
      obtain rfl := Option.some.inj hstep
      exact ⟨h.heap, h.live, h.distinct, h.large, h.linked, h.kept, h.bound, hsp⟩
    · exact absurd hstep (by simp)
  | drops nestedDropCnt unwindPending =>
    obtain rfl := Option.some.inj hstep
    exact ⟨h.heap, h.live, h.distinct, h.large, h.linked, h.kept, h.bound, h.sp⟩
  | unwinding b =>
    obtain rfl := Option.some.inj hstep
    exact ⟨h.heap, h.live, h.distinct, h.large, h.linked, h.kept, h.bound, h.sp⟩
  | moreStack reason =>
    obtain ⟨o, hmore, rfl⟩ := Option.map_eq_some_iff.mp hstep
    obtain ⟨m, hprep, ⟨m', rfl, halloc⟩ | rfl⟩ := moreStack_cases hmore
    · exact h.allocated hprep hfits halloc
    · exact (h.prepared hprep).1.diverted _
  | lessStack =>
    simp only [Stack.step] at hstep
    split at hstep
    · exact absurd hstep (by simp)
    · rename_i c rest hcalls
      obtain ⟨m, hless, rfl⟩ := Option.map_eq_some_iff.mp hstep
      exact h.returned hcalls (lessStack_returned (h.switched hcalls) hless)

/-- Other allocations than the stacklets of the task are left alone, unless the task uses the
heap, and do not become stacklets. -/
theorem Layout.step_keeps {e : Event} (h : Layout P prog s) (hfits : Fits cfg prog s e)
    (hstep : s.step P cfg prog e = some s') (hheap : ∀ call, e ≠ .heap call) {a : Nat × Nat}
    (ha : a ∈ s.machine.heap.live) (hnot : ∀ st ∈ stacklets s.base s.calls, a.1 ≠ st.1) :
    a ∈ s'.machine.heap.live ∧ (∀ i < a.2, s'.machine.mem (a.1 + i) = s.machine.mem (a.1 + i)) ∧
      ∀ st ∈ stacklets s'.base s'.calls, a.1 ≠ st.1 := by
  have hcur := currentStacklet_mem s.base s.calls
  have hapart : Apart a (currentStacklet s.base s.calls) := by
    obtain ⟨cs, ls, hinv⟩ := h.heap
    exact hinv.apart_of_ne ha (h.live _ hcur) (hnot _ hcur)
  simp only [Apart] at hapart
  cases e with
  | heap call => exact absurd rfl (hheap call)
  | move sp =>
    simp only [Stack.step] at hstep
    split at hstep
    · obtain rfl := Option.some.inj hstep
      exact ⟨ha, fun _ _ => rfl, hnot⟩
    · exact absurd hstep (by simp)
  | drops nestedDropCnt unwindPending =>
    obtain rfl := Option.some.inj hstep
    exact ⟨ha, fun _ _ => rfl, hnot⟩
  | unwinding b =>
    obtain rfl := Option.some.inj hstep
    exact ⟨ha, fun _ _ => rfl, hnot⟩
  | moreStack reason =>
    obtain ⟨o, hmore, rfl⟩ := Option.map_eq_some_iff.mp hstep
    obtain ⟨m, hprep, hcases⟩ := moreStack_cases hmore
    have hlarge := h.large _ hcur
    have hend := h.end_lt (h.live _ hcur)
    simp only [overheadSize, metaSize, trapFramePadSize, trapFrameSize, r12PreserveSize] at hlarge
    -- `extend_cnt` is on the current stacklet.
    have hprepared : ∀ i < a.2, m.mem (a.1 + i) = s.machine.mem (a.1 + i) := by
      obtain ⟨mem, hheap, hout⟩ := hprep.heap
      intro i hi
      rw [Machine.mem, hheap]
      refine hout _ ?_
      rw [h.bound, boundToStkletMeta_stkletPtrToBound (by omega)]
      simp only [Outside]
      omega
    rcases hcases with ⟨m', rfl, halloc⟩ | rfl
    · obtain ⟨st, hlive, hothers⟩ := allocStacklet_keeps (h.prepared hprep).1.heap hfits halloc
      rw [hprep.live] at hlive hothers
      obtain ⟨hne, hbytes⟩ := hothers a ha
      refine ⟨?_, fun i hi => (hbytes i hi).trans (hprepared i hi), ?_⟩
      · simp only [hlive]
        exact List.mem_cons_of_mem _ ha
      · simp only [hlive, List.headD_cons, stacklets_cons, List.mem_cons, forall_eq_or_imp]
        exact ⟨hne, hnot⟩
    · refine ⟨?_, fun i hi => ?_, hnot⟩
      · simp only [Machine.setMem, hprep.live]
        exact ha
      · refine Eq.trans (setWord_outside ?_) (hprepared i hi)
        obtain ⟨hlo, hhi⟩ := h.sp
        simp only [metaSize, trapFrameSize] at hlo hhi
        rw [hprep.sp]
        omega
  | lessStack =>
    simp only [Stack.step] at hstep
    split at hstep
    · exact absurd hstep (by simp)
    · rename_i c rest hcalls
      obtain ⟨m, hless, rfl⟩ := Option.map_eq_some_iff.mp hstep
      have hret := lessStack_returned (h.switched hcalls) hless
      have hst : c.stacklet ∈ stacklets s.base s.calls := OpenCall.mem_stacklets (by simp [hcalls])
      have hbelow : currentStacklet s.base rest ∈ stacklets s.base s.calls := by
        rw [hcalls, stacklets_cons]
        exact List.mem_cons_of_mem _ (currentStacklet_mem s.base rest)
      refine ⟨?_, fun i hi => hret.bytes a ha (hnot _ hst) i hi ?_, fun st hmem => hnot st ?_⟩
      · simp only [hret.live, List.mem_filter, decide_eq_true_eq]
        exact ⟨ha, hnot _ hst⟩
      · -- The results go to the stacklet below.
        have hapart : Apart a (currentStacklet s.base rest) := by
          obtain ⟨cs, ls, hinv⟩ := h.heap
          exact hinv.apart_of_ne ha (h.live _ hbelow) (hnot _ hbelow)
        obtain ⟨hlo, hhi⟩ := (h.switched hcalls).prevSp
        rw [← hret.sp] at hlo hhi
        simp only [Apart] at hapart
        simp only [metaSize, trapFrameSize] at hlo hhi
        simp only [Outside]
        omega
      · rw [hcalls, stacklets_cons]
        exact List.mem_cons_of_mem _ hmem

-- ---------------------------------------------------------------------------
-- A board
-- ---------------------------------------------------------------------------

/-- A board with 16 KiB of RAM. -/
def board : Platform := ⟨0x20000000, 0x20000000, 0x20004000⟩

def boardConfig : Config where
  allowDynamicStack := true
  threshold := 4
  additionAllocSize := 0
  unwind := true
  svcLessStack := 0x08000101
  divertedUnwind := 0x08000201

/-- The memory at start, with the return address and the program counter of a function
that asks for a stacklet in the trap frame at `0x20000100`. -/
def boardMem : Mem :=
  setWord (setWord (fun _ => 0) (0x20000100 + 20) 0x08000C01) (0x20000100 + 24) 0x08000500

/-- The heap with one allocation of 512 bytes. -/
def boardHeap : Option Client :=
  (Client.init board boardMem 0x20000030).bind fun client =>
    Run.exec (Client.step board) client [.malloc 512]

def Outcome.isExtended : Outcome n → Bool
  | .extended _ => true
  | .diverted _ => false

/-- A task that has the first allocation as its initial stacklet. -/
def boardTask (scb : StackCtrlBlock n) (client : Client) : Stack n where
  machine :=
    { heap := client
      ctxt := ⟨0x20000100, ⟨stkletPtrToBound (client.live.headD (0, 0)).1, 0, 0⟩⟩
      scb := some scb
      stackLimit := none
      unwinding := false
      stackExtendCount := 0
      activeStackletCount := 0 }
  base := client.live.headD (0, 0)
  calls := []

/-- Whatever is in the memory, the heap can be set up with the allocation. -/
theorem boardTask_start (m : Mem) : ∃ client,
    ((Client.init board m 0x20000030).bind fun client => Run.exec (Client.step board) client [.malloc 512]) =
        some client ∧
      (client.live = [(0x20000038, 512)] →
        ∀ {n : Nat} (scb : StackCtrlBlock n), Start board (boardTask scb client)) := by
  have hv : board.Valid 0x20000030 := by constructor <;> decide
  obtain ⟨c₀, hinit, hruns⟩ := Client.exec_inv (m := m) hv
    (show adjustDataEnd 0x20000030 = some 0x20000034 by decide) (by decide)
  obtain ⟨c, hrun, hinv⟩ := hruns [.malloc 512] ⟨by simp [Client.Legal], fun _ _ => trivial⟩
  refine ⟨c, by rw [hinit, Option.bind_some, hrun], fun hlive _ scb => ⟨hinv, rfl, ?_, rfl, ?_, ?_⟩⟩
  · simp [boardTask, hlive]
  · simp only [boardTask, hlive]
    decide
  · simp only [boardTask, hlive]
    decide

theorem boardHeap_start : ∃ client, boardHeap = some client ∧
    ∀ {n : Nat} (scb : StackCtrlBlock n), Start board (boardTask scb client) := by
  obtain ⟨c, hheap, hstart⟩ := boardTask_start boardMem
  have hlive : boardHeap.map Client.live = some [(0x20000038, 512)] := by decide +kernel
  simp only [boardHeap, hheap, Option.map_some, Option.some.injEq] at hlive
  exact ⟨c, hheap, hstart hlive⟩

/-- A program whose functions all have a frame of 8 bytes and 8 bytes of arguments. -/
def smallFrames : Reg → BitVec 16 := fun _ => 2

/-- The first call of a task that extends its stack. -/
theorem board_moreStack : ∃ (s₀ : Stack 1) (m : Machine 1), Start board s₀ ∧
    s₀.machine.scb = some (.default 1) ∧ s₀.machine.tf.lr = 0x08000C01 ∧
      SizeFits boardConfig (s₀.machine.frameSize smallFrames) (s₀.machine.argSize smallFrames) ∧
      moreStack board boardConfig smallFrames .normal s₀.machine = some (.extended m) := by
  obtain ⟨client, hheap, hstart⟩ := boardHeap_start
  have hfits : boardHeap.map (fun c =>
      (decide (SizeFits boardConfig ((boardTask (.default 1) c).machine.frameSize smallFrames)
        ((boardTask (.default 1) c).machine.argSize smallFrames)),
        (boardTask (.default 1) c).machine.tf.lr)) = some (true, 0x08000C01) := by decide +kernel
  have hmore : (boardHeap.bind fun c =>
      moreStack board boardConfig smallFrames .normal (boardTask (.default 1) c).machine).map
        Outcome.isExtended = some true := by decide +kernel
  simp only [hheap, Option.map_some, Option.some.injEq, Prod.mk.injEq, decide_eq_true_eq] at hfits
  simp only [hheap, Option.bind_some, Option.map_eq_some_iff] at hmore
  obtain ⟨o, hmore, hext⟩ := hmore
  cases o with
  | diverted m => exact absurd hext (by simp [Outcome.isExtended])
  | extended m => exact ⟨_, m, hstart (.default 1), rfl, hfits.2, hfits.1, hmore⟩

-- ---------------------------------------------------------------------------
-- Calls are transparent
-- ---------------------------------------------------------------------------

/-- How the machine `m` inside the call differs from the one at the call. -/
structure OpenCall.Extended (prog : Reg → BitVec 16) (c : OpenCall n) (m : Machine n) : Prop where
  signature : m.scb.map StackCtrlBlock.callChainSignature =
    c.before.scb.map fun scb => extendSignature scb.callChainSignature c.before.tf.lr
  cumulated : m.scb.map StackCtrlBlock.cumulatedSize =
    c.before.scb.map fun scb => scb.cumulatedSize + c.before.frameSize prog
  active : m.activeStackletCount = c.before.activeStackletCount + 1
  fresh : c.stacklet.1 ∉ c.before.heap.live.map Prod.fst

/-- The counters of the task, seen from each of its open calls. -/
def Counted (prog : Reg → BitVec 16) (m : Machine n) : List (OpenCall n) → Prop
  | [] => True
  | c :: rest => c.Extended prog m ∧ Counted prog c.before rest

theorem Counted.congr {m m' : Machine n} (h : Counted prog m calls)
    (hsig : m'.scb.map StackCtrlBlock.callChainSignature =
      m.scb.map StackCtrlBlock.callChainSignature)
    (hsize : m'.scb.map StackCtrlBlock.cumulatedSize = m.scb.map StackCtrlBlock.cumulatedSize)
    (hactive : m'.activeStackletCount = m.activeStackletCount) : Counted prog m' calls := by
  cases calls with
  | nil => trivial
  | cons c rest =>
    obtain ⟨hc, hrest⟩ := h
    exact ⟨⟨hsig.trans hc.signature, hsize.trans hc.cumulated, hactive.trans hc.active, hc.fresh⟩,
      hrest⟩

theorem map_eq_map_of {α β γ δ : Type} {o : Option α} {p : Option β} {f : α → γ} {g : β → γ}
    {f' : α → δ} {g' : β → δ} (h : o.map f = p.map g) (hfg : ∀ x y, f x = g y → f' x = g' y) :
    o.map f' = p.map g' := by
  cases o with
  | none =>
    cases p with
    | none => rfl
    | some y => simp at h
  | some x =>
    cases p with
    | none => simp at h
    | some y => exact congrArg some (hfg x y (Option.some.inj h))

/-- The caller of `c` goes on as if the callee had run on the same stacklet. -/
structure Restored (c : OpenCall n) (m m' : Machine n) : Prop where
  sp : m'.ctxt.sp = c.before.ctxt.sp
  bound : m'.ctxt.tls.stkletBound = c.before.ctxt.tls.stkletBound
  signature : m'.scb.map StackCtrlBlock.callChainSignature =
    c.before.scb.map StackCtrlBlock.callChainSignature
  cumulated : m'.scb.map StackCtrlBlock.cumulatedSize =
    c.before.scb.map StackCtrlBlock.cumulatedSize
  active : m'.activeStackletCount = c.before.activeStackletCount
  drops : m'.ctxt.tls.nestedDropCnt = m.ctxt.tls.nestedDropCnt
  pending : m'.ctxt.tls.unwindPending = m.ctxt.tls.unwindPending
  /-- The trap frame of the caller, and the one that the callee left. -/
  frame : m'.tf = { c.before.tf with
    r0 := m.tf.r0
    r1 := m.tf.r1
    r2 := m.tf.r2
    r3 := m.tf.r3
    pc := c.before.tf.lr }
  freed : m'.heap.live = m.heap.live.filter fun a => a.1 ≠ c.stacklet.1
  allocated : c.stacklet ∈ m.heap.live ∧ c.stacklet.1 ∉ c.before.heap.live.map Prod.fst

/-- `less_stack` undoes the `more_stack` that it matches. -/
theorem Layout.restored (h : Layout P prog s) (hcounted : Counted prog s.machine s.calls)
    (hcalls : s.calls = c :: rest) {m : Machine n} (hless : lessStack P cfg s.machine = some m) :
    Restored c s.machine m := by
  have hret := lessStack_returned (h.switched hcalls) hless
  have hkept := h.kept c (by simp [hcalls])
  have hsp : m.ctxt.sp = c.before.ctxt.sp := hret.sp.trans hkept.sp
  have hframe : TrapFrame.load s.machine.mem m.ctxt.sp.toNat = c.before.tf := by
    rw [hsp]
    exact TrapFrame.load_congr hkept.frame
  have hlr : word s.machine.mem (m.ctxt.sp.toNat + 20) = c.before.tf.lr :=
    congrArg TrapFrame.lr hframe
  rw [hcalls] at hcounted
  obtain ⟨⟨hsig, hsize, hactive, hfresh⟩, -⟩ := hcounted
  refine ⟨hsp, ?_, ?_, ?_, ?_, ?_, ?_, ?_, hret.live, ?_, hfresh⟩
  · rw [hret.tls, hkept.bound]
  · rw [hret.scb, hlr, Option.map_map]
    refine map_eq_map_of hsig fun scb before heq => ?_
    simp only [Function.comp_apply, svcLessStackAntiHotSplit, heq, rotateLeft_extendSignature]
  · rw [hret.scb, hkept.countSize, Option.map_map]
    refine map_eq_map_of hsize fun scb before heq => ?_
    simp only [Function.comp_apply, heq, BitVec.add_sub_cancel]
  · rw [hret.active, hactive, BitVec.add_sub_cancel]
  · rw [hret.tls]
  · rw [hret.tls]
  · rw [hret.frame, hframe, hlr]
  · exact h.live _ (OpenCall.mem_stacklets (by simp [hcalls]))

/-- The call of `more_stack` extends the stack, and the size of the new stacklet does not
wrap around. -/
def Succeeds (P : Platform) (cfg : Config) (prog : Reg → BitVec 16) (s : Stack n) : Event → Prop
  | .moreStack reason => SizeFits cfg (s.machine.frameSize prog) (s.machine.argSize prog) ∧
      ∀ m, moreStack P cfg prog reason s.machine ≠ some (.diverted m)
  | _ => True

instance (P : Platform) (cfg : Config) (prog : Reg → BitVec 16) (s : Stack n) :
    (e : Event) → Decidable (Succeeds P cfg prog s e)
  | .moreStack reason => decidable_of_iff
      (SizeFits cfg (s.machine.frameSize prog) (s.machine.argSize prog) ∧
        (moreStack P cfg prog reason s.machine).all Outcome.isExtended = true) (by
    simp only [Succeeds]
    refine and_congr_right fun _ => ?_
    cases moreStack P cfg prog reason s.machine with
    | none => simp
    | some o => cases o <;> simp [Outcome.isExtended])
  | .heap _ | .move _ | .drops _ _ | .unwinding _ | .lessStack => isTrue trivial

theorem Succeeds.fits {e : Event} (h : Succeeds P cfg prog s e) : Fits cfg prog s e := by
  cases e with
  | moreStack reason => exact h.1
  | heap call => trivial
  | move sp => trivial
  | drops nestedDropCnt unwindPending => trivial
  | unwinding b => trivial
  | lessStack => trivial

/-- The counters right before the allocation of a stacklet. -/
theorem Prepared.counters {m m₁ : Machine n} (h : Prepared cfg prog m m₁) :
    m₁.scb.map StackCtrlBlock.callChainSignature =
        m.scb.map (fun scb => extendSignature scb.callChainSignature m.tf.lr) ∧
      m₁.scb.map StackCtrlBlock.cumulatedSize =
        m.scb.map fun scb => scb.cumulatedSize + m.frameSize prog := by
  have hscb := h.scb
  cases hm : m.scb with
  | none =>
    simp only [hm] at hscb
    simp [hscb]
  | some scb =>
    simp only [hm] at hscb
    obtain ⟨scb', extendCnt', hsplit, hscb⟩ := hscb
    obtain ⟨-, hsig, hsize⟩ := svcMoreStackAntiHotSplit_eq hsplit
    simp [hscb, hsig, hsize]

theorem Counted.step {e : Event} (h : Layout P prog s) (hcounted : Counted prog s.machine s.calls)
    (hok : Succeeds P cfg prog s e) (hstep : s.step P cfg prog e = some s') :
    Counted prog s'.machine s'.calls := by
  cases e with
  | heap call =>
    simp only [Stack.step] at hstep
    split at hstep
    · obtain ⟨heap, hcall, rfl⟩ := Option.map_eq_some_iff.mp hstep
      exact hcounted.congr rfl rfl rfl
    · exact absurd hstep (by simp)
  | move sp =>
    simp only [Stack.step] at hstep
    split at hstep
    · obtain rfl := Option.some.inj hstep
      exact hcounted.congr rfl rfl rfl
    · exact absurd hstep (by simp)
  | drops nestedDropCnt unwindPending =>
    obtain rfl := Option.some.inj hstep
    exact hcounted.congr rfl rfl rfl
  | unwinding b =>
    obtain rfl := Option.some.inj hstep
    exact hcounted.congr rfl rfl rfl
  | moreStack reason =>
    obtain ⟨o, hmore, rfl⟩ := Option.map_eq_some_iff.mp hstep
    obtain ⟨m, hprep, ⟨m', rfl, halloc⟩ | rfl⟩ := moreStack_cases hmore
    · have hnew := h.allocated hprep hok.1 halloc
      obtain ⟨heap, ptr, hsize, hmalloc, hptr, rfl⟩ := allocStacklet_cases halloc
      obtain ⟨hsig, hcum⟩ := hprep.counters
      obtain ⟨cs, ls, hinv⟩ := hnew.heap
      refine ⟨⟨hsig, hcum, by simp only [hprep.active], ?_⟩, hcounted⟩
      have hfresh := (List.nodup_cons.mp hinv.distinct).1
      rw [hprep.live] at hfresh
      exact hfresh
    · exact absurd hmore (hok.2 _)
  | lessStack =>
    simp only [Stack.step] at hstep
    split at hstep
    · exact absurd hstep (by simp)
    · rename_i c rest hcalls
      obtain ⟨m, hless, rfl⟩ := Option.map_eq_some_iff.mp hstep
      have hrest := h.restored hcounted hcalls hless
      rw [hcalls] at hcounted
      exact hcounted.2.congr hrest.signature hrest.cumulated hrest.active

/-- In every run of successful calls, `more_stack` leaves the drop counter, and
`unwind_pending` unless the stack limit is exceeded, and each `less_stack` undoes the
`more_stack` that it matches. -/
theorem exec_transparent {s₀ : Stack n} {events : List Event} (hstart : Start P s₀)
    (hok : Run.Allowed (Stack.step P cfg prog) (Succeeds P cfg prog) s₀ events)
    (hrun : Run.exec (Stack.step P cfg prog) s₀ events = some s) :
    (∀ reason m, moreStack P cfg prog reason s.machine = some (.extended m) →
      m.ctxt.tls.nestedDropCnt = s.machine.ctxt.tls.nestedDropCnt ∧
      (s.machine.limitExceeded prog = false →
        m.ctxt.tls.unwindPending = s.machine.ctxt.tls.unwindPending)) ∧
      ∀ c rest m, s.calls = c :: rest → lessStack P cfg s.machine = some m →
        Restored c s.machine m := by
  have hinv : Layout P prog s ∧ Counted prog s.machine s.calls :=
    Run.exec_inv_of_allowed (fun s => Layout P prog s ∧ Counted prog s.machine s.calls)
      (fun h hok hstep => ⟨h.1.step hok.fits hstep, Counted.step h.1 h.2 hok hstep⟩)
      ⟨hstart.layout, by rw [hstart.calls]; trivial⟩ hok hrun
  refine ⟨fun reason m hmore => ?_, fun c rest m hcalls hless => hinv.1.restored hinv.2 hcalls hless⟩
  obtain ⟨m₁, hprep, ⟨m', heq, halloc⟩ | heq⟩ := moreStack_cases hmore
  · obtain rfl := Outcome.extended.inj heq
    obtain ⟨heap, ptr, -, -, -, rfl⟩ := allocStacklet_cases halloc
    exact ⟨hprep.drops, hprep.pending⟩
  · exact absurd heq (by simp)

/-- A call inside of a call, which returns, and then another one. -/
def nestedCalls : List Event :=
  [.moreStack .normal, .drops 1 0, .moreStack .drop, .lessStack, .moreStack .normal]

/-- The inner call returns, and then the outer one. -/
theorem exec_transparent_board : ∃ (s₀ s s' : Stack 1) (c c' : OpenCall 1) (m m' : Machine 1),
    Run.exec (Stack.step board boardConfig smallFrames) s₀ nestedCalls = some s ∧ s.calls = [c, c'] ∧
      lessStack board boardConfig s.machine = some m ∧ Restored c s.machine m ∧
      s.step board boardConfig smallFrames .lessStack = some s' ∧
      lessStack board boardConfig s'.machine = some m' ∧ Restored c' s'.machine m' := by
  obtain ⟨client, hheap, hstart⟩ := boardHeap_start
  have hstart := hstart (.default 1)
  have hrun : (boardHeap.bind fun c => Run.exec (Stack.step board boardConfig smallFrames)
      (boardTask (.default 1) c) nestedCalls).map (fun s => s.calls.length) = some 2 := by decide +kernel
  have hok : boardHeap.map (fun c => decide (Run.Allowed (Stack.step board boardConfig smallFrames)
      (Succeeds board boardConfig smallFrames) (boardTask (.default 1) c) (nestedCalls ++ [.lessStack]))) =
        some true := by decide +kernel
  simp only [hheap, Option.bind_some, Option.map_eq_some_iff] at hrun
  simp only [hheap, Option.map_some, Option.some.injEq, decide_eq_true_eq] at hok
  obtain ⟨s, hrun, hlength⟩ := hrun
  obtain ⟨c, c', hcalls⟩ := List.length_eq_two.mp hlength
  obtain ⟨m, hless⟩ : ∃ m, lessStack board boardConfig s.machine = some m := ⟨_, rfl⟩
  have hstep : s.step board boardConfig smallFrames .lessStack = some ⟨m, s.base, [c']⟩ := by
    simp only [Stack.step, hcalls, hless, Option.map_some]
  obtain ⟨m', hless'⟩ : ∃ m', lessStack board boardConfig m = some m' := ⟨_, rfl⟩
  have hinner := (exec_transparent hstart (Run.allowed_append.mp hok).1 hrun).2
  have houter := (exec_transparent hstart hok (Run.exec_append.mpr ⟨s, hrun, Run.exec_cons.mpr ⟨_, hstep, rfl⟩⟩)).2
  exact ⟨_, s, _, c, c', m, m', hrun, hcalls, hless, hinner c [c'] m hcalls hless, hstep, hless',
    houter c' [] m' rfl hless'⟩

/-- A frame of 4 bytes, and 200 bytes of arguments. -/
def manyArguments : Reg → BitVec 16 := fun a => if a = 0x08000500 then 1 else 50

/-- A cache with a multiplier that brings a frame of 4 bytes close to `2 ^ 32`. -/
def largeMultiplier : StackCtrlBlock 1 := ⟨0, fun _ => 0x08000C01, fun _ => 0x3FFFFFC0, 0, 0⟩

/-- When the size of the stacklet wraps around, a small chunk is allocated, the arguments
overwrite its metadata, and the return loses the stack pointer of the caller. -/
theorem lessStack_loses_sp : ∃ s₀ s s' : Stack 1, Start board s₀ ∧
    s₀.step board boardConfig manyArguments (.moreStack .normal) = some s ∧
      s.calls.length = 1 ∧ s.step board boardConfig manyArguments .lessStack = some s' ∧
      s₀.machine.ctxt.sp = 0x20000100 ∧ s'.machine.ctxt.sp = 0 := by
  obtain ⟨client, hheap, hstart⟩ := boardHeap_start
  have hlost : (boardHeap.bind fun c => ((boardTask largeMultiplier c).step board boardConfig
      manyArguments (.moreStack .normal)).bind fun s =>
        (s.step board boardConfig manyArguments .lessStack).map fun s' =>
          (s.calls.length, s'.machine.ctxt.sp)) = some (1, 0) := by decide +kernel
  simp only [hheap, Option.bind_some, Option.bind_eq_some_iff, Option.map_eq_some_iff,
    Prod.mk.injEq] at hlost
  obtain ⟨s, hmore, s', hless, hcalls, hsp⟩ := hlost
  exact ⟨_, s, s', hstart largeMultiplier, hmore, hcalls, hless, rfl, hsp⟩

-- ---------------------------------------------------------------------------
-- Results
-- ---------------------------------------------------------------------------

/-- The registers in which a function may return a value: `r0` to `r3`, and `s0` to `s15`. -/
def TrapFrame.results (tf : TrapFrame) : List Reg × (Fin 16 → Reg) :=
  ([tf.r0, tf.r1, tf.r2, tf.r3], tf.s)

/-- After `less_stack` the task goes on with the registers of the trap frame at its new
stack pointer. They hold the results of the callee if and only if the callee has left in
`s0` to `s15` what they held when it was called. -/
theorem lessStack_results {m m' : Machine n} {st prev : Nat × Nat} (h : Switched P m st prev)
    (hless : lessStack P cfg m = some m') :
    m'.tf.results = m.tf.results ↔
      m.tf.s = (TrapFrame.load m.mem (word m.mem (st.1 + 4)).toNat).s := by
  have hret := lessStack_returned h hless
  rw [hret.frame, ← hret.sp]
  simp only [TrapFrame.results, Prod.mk.injEq, true_and]
  exact eq_comm

theorem lessStack_results_board : ∃ (m m' : Machine 1) (st prev : Nat × Nat),
    Switched board m st prev ∧ lessStack board boardConfig m = some m' ∧
      (m'.tf.results = m.tf.results ↔
        m.tf.s = (TrapFrame.load m.mem (word m.mem (st.1 + 4)).toNat).s) := by
  obtain ⟨s₀, m, hstart, -, -, hfits, hmore⟩ := board_moreStack
  let s : Stack 1 := ⟨m, s₀.base, ⟨s₀.machine, m.heap.live.headD (0, 0)⟩ :: s₀.calls⟩
  have hstep : s₀.step board boardConfig smallFrames (.moreStack .normal) = some s := by
    simp only [Stack.step, hmore, Option.map_some, s]
  have hok : Fits boardConfig smallFrames s₀ (.moreStack .normal) := hfits
  have hswitched := (hstart.layout.step hok hstep).switched rfl
  obtain ⟨m', hless⟩ : ∃ m', lessStack board boardConfig m = some m' := ⟨_, rfl⟩
  exact ⟨m, m', _, _, hswitched, hless, lessStack_results hswitched hless⟩

/-- The events of a function that returns `5` in `s0` from its own stacklet. -/
def returnFloat : List Event := [.moreStack .normal, .heap (.write 0x20000240 (32 + 32) 5)]

/-- The caller of a function that returns a floating-point number finds its own old value
in `s0`. -/
theorem lessStack_loses_float : ∃ (s₀ s : Stack 1) (m : Machine 1), Start board s₀ ∧
    Run.exec (Stack.step board boardConfig smallFrames) s₀ returnFloat = some s ∧
      lessStack board boardConfig s.machine = some m ∧ s.machine.tf.s 0 = 5 ∧ m.tf.s 0 = 0 := by
  obtain ⟨client, hheap, hstart⟩ := boardHeap_start
  have hrun : (boardHeap.bind fun c => (Run.exec (Stack.step board boardConfig smallFrames)
      (boardTask (.default 1) c) returnFloat).bind fun s =>
        (lessStack board boardConfig s.machine).map fun m => (s.machine.tf.s 0, m.tf.s 0)) =
      some (5, 0) := by decide +kernel
  simp only [hheap, Option.bind_some, Option.bind_eq_some_iff, Option.map_eq_some_iff,
    Prod.mk.injEq] at hrun
  obtain ⟨s, hrun, m, hless, hcallee, hcaller⟩ := hrun
  exact ⟨_, s, m, hstart (.default 1), hrun, hless, hcallee, hcaller⟩

-- ---------------------------------------------------------------------------
-- The size of a stacklet
-- ---------------------------------------------------------------------------

/-- The entry has been filled: not both its signature and its multiplier are zero. -/
def StackCtrlBlock.Filled (scb : StackCtrlBlock n) (i : Fin n) : Prop :=
  ¬ (scb.hotSplitCauseSignatures i = 0 ∧ scb.addSizes i = 0)

instance (scb : StackCtrlBlock n) (i : Fin n) : Decidable (scb.Filled i) := inferInstanceAs (Decidable (¬ _))

/-- The next call of `more_stack` is the one that records a hot split. -/
def Machine.Hot (cfg : Config) (m : Machine n) : Prop := m.extendCnt + 1 = BitVec.ofNat 32 cfg.threshold

instance (cfg : Config) (m : Machine n) : Decidable (m.Hot cfg) := inferInstanceAs (Decidable (_ = _))

/-- The cache is not hit at an empty entry, neither the scaled frame nor the stacklet is
too large for a `u32`, and no multiplier wraps around when it is incremented. -/
def Adequate (cfg : Config) (prog : Reg → BitVec 16) (s : Stack n) : Event → Prop
  | .moreStack _ => SizeFits cfg (s.machine.frameSize prog) (s.machine.argSize prog) ∧
      ∀ scb ∈ s.machine.scb,
        (∀ i, scb.lookup (extendSignature scb.callChainSignature s.machine.tf.lr) = some i →
          scb.Filled i ∧
            (getStackFrameSize prog s.machine.tf).toNat * (scb.addSizes i).toNat < 2 ^ 32) ∧
        (s.machine.Hot cfg → ∀ i, scb.lookup scb.callChainSignature = some i →
          (scb.addSizes i).toNat + 1 < 2 ^ 32)
  | _ => True

instance (cfg : Config) (prog : Reg → BitVec 16) (s : Stack n) : (e : Event) → Decidable (Adequate cfg prog s e)
  | .moreStack _ => inferInstanceAs (Decidable (_ ∧ ∀ scb ∈ s.machine.scb, (∀ _, _ → _) ∧ (_ → ∀ _, _ → _)))
  | .heap _ | .move _ | .drops _ _ | .unwinding _ | .lessStack => isTrue trivial

/-- Every filled entry has a multiplier that is not zero. -/
def Multiplies (scb : StackCtrlBlock n) : Prop := ∀ i, scb.Filled i → scb.addSizes i ≠ 0

theorem StackCtrlBlock.record_multiplies {scb scb' : StackCtrlBlock n} {cause : Reg}
    (h : Multiplies scb)
    (hmax : ∀ i, scb.lookup cause = some i → (scb.addSizes i).toNat + 1 < 2 ^ 32)
    (hrecord : scb.record cause = some scb') : Multiplies scb' := by
  intro i hi
  cases StackCtrlBlock.record_cases hrecord with
  | @found j hj =>
    by_cases hij : i = j
    · subst hij
      have := hmax i hj
      simp only [Function.update_self]
      intro h0
      have hzero := congrArg BitVec.toNat h0
      rw [BitVec.toNat_add, show (1 : Reg).toNat = 1 from rfl, show (0 : Reg).toNat = 0 from rfl]
        at hzero
      omega
    · simp only [StackCtrlBlock.Filled, Function.update_of_ne hij] at hi ⊢
      exact h i hi
  | installed _ hindex =>
    by_cases hij : i = ⟨scb.roundRobinIdx, hindex⟩
    · subst hij
      simp
    · simp only [StackCtrlBlock.Filled, Function.update_of_ne hij] at hi ⊢
      exact h i hi

theorem svcMoreStackAntiHotSplit_multiplies {lr frameSize frameSize' extendCnt extendCnt' : Reg}
    {scb scb' : StackCtrlBlock n} (h : Multiplies scb)
    (hmax : extendCnt + 1 = BitVec.ofNat 32 cfg.threshold →
      ∀ i, scb.lookup scb.callChainSignature = some i → (scb.addSizes i).toNat + 1 < 2 ^ 32)
    (hsplit : svcMoreStackAntiHotSplit cfg lr frameSize scb extendCnt =
      some (frameSize', scb', extendCnt')) : Multiplies scb' := by
  simp only [svcMoreStackAntiHotSplit] at hsplit
  split at hsplit
  · simp only [Option.some.injEq, Prod.mk.injEq] at hsplit
    obtain ⟨-, rfl, -⟩ := hsplit
    exact h
  · rename_i hhot
    simp only [Option.map_eq_some_iff, Prod.mk.injEq] at hsplit
    obtain ⟨scb'', hrecord, -, rfl, -⟩ := hsplit
    refine StackCtrlBlock.record_multiplies ?_ ?_ hrecord
    · exact h
    · exact hmax (not_not.mp hhot)

/-- The multiplier of a filled entry does not make a frame smaller. -/
theorem le_scaledFrameSize {scb : StackCtrlBlock n} {lr frameSize : Reg} (h : Multiplies scb)
    (hhit : ∀ i, scb.lookup (extendSignature scb.callChainSignature lr) = some i →
      scb.Filled i ∧ frameSize.toNat * (scb.addSizes i).toNat < 2 ^ 32) :
    frameSize.toNat ≤ (scaledFrameSize scb lr frameSize).toNat := by
  unfold scaledFrameSize
  split
  · rename_i i hi
    obtain ⟨hfilled, hlt⟩ := hhit i hi
    have hpos : (scb.addSizes i).toNat ≠ 0 := fun h0 => h i hfilled (by
      apply BitVec.eq_of_toNat_eq
      simpa using h0)
    rw [BitVec.toNat_mul, Nat.mod_eq_of_lt hlt]
    exact Nat.le_mul_of_pos_right _ (by omega)
  · exact le_rfl

/-- The cache of the task, if it has one, multiplies by zero at no filled entry. -/
def CacheOk (s : Stack n) : Prop := ∀ scb, s.machine.scb = some scb → Multiplies scb

theorem CacheOk.step {e : Event} (h : CacheOk s) (hok : Adequate cfg prog s e)
    (hstep : s.step P cfg prog e = some s') : CacheOk s' := by
  cases e with
  | heap call =>
    simp only [Stack.step] at hstep
    split at hstep
    · obtain ⟨heap, hcall, rfl⟩ := Option.map_eq_some_iff.mp hstep
      exact h
    · exact absurd hstep (by simp)
  | move sp =>
    simp only [Stack.step] at hstep
    split at hstep
    · obtain rfl := Option.some.inj hstep
      exact h
    · exact absurd hstep (by simp)
  | drops nestedDropCnt unwindPending =>
    obtain rfl := Option.some.inj hstep
    exact h
  | unwinding b =>
    obtain rfl := Option.some.inj hstep
    exact h
  | moreStack reason =>
    obtain ⟨o, hmore, rfl⟩ := Option.map_eq_some_iff.mp hstep
    obtain ⟨m, hprep, hout⟩ := moreStack_cases hmore
    have hm : ∀ scb, m.scb = some scb → Multiplies scb := by
      intro scb' hscb'
      have hscb := hprep.scb
      split at hscb
      · exact absurd (hscb'.symm.trans hscb) (by simp)
      · rename_i scb hs
        obtain ⟨scb'', extendCnt', hsplit, heq⟩ := hscb
        obtain rfl := Option.some.inj (hscb'.symm.trans heq)
        have hmul := svcMoreStackAntiHotSplit_multiplies (h scb hs) (hok.2 scb hs).2 hsplit
        exact hmul
    rcases hout with ⟨m', rfl, halloc⟩ | rfl
    · obtain ⟨heap, ptr, -, -, -, rfl⟩ := allocStacklet_cases halloc
      exact hm
    · exact hm
  | lessStack =>
    simp only [Stack.step] at hstep
    split at hstep
    · exact absurd hstep (by simp)
    · obtain ⟨m, hless, rfl⟩ := Option.map_eq_some_iff.mp hstep
      simp only [lessStack] at hless
      split at hless
      · exact absurd hless (by simp)
      · obtain rfl := Option.some.inj hless
        intro scb hscb
        obtain ⟨scb', hs, rfl⟩ := Option.map_eq_some_iff.mp hscb
        exact h scb' hs

/-- The free space of a new stacklet. -/
theorem newStackPointer_sub_bound {frameSize argSize : Reg} {ptr : Nat} :
    newStackPointer cfg ptr frameSize argSize + BitVec.ofNat 32 trapFrameSize -
      stkletPtrToBound ptr = frameSize + BitVec.ofNat 32 cfg.additionAllocSize := by
  rw [newStackPointer, totalSize, stkletPtrToBound, BitVec.ofNat_add]
  grind

/-- In every run from an empty cache whose calls are adequate, the frame size after
hot-split alleviation is at least the one that the function asks for, and so is the free
space of the new stacklet, from the stack pointer of the function down to the boundary. -/
theorem exec_roomy {s₀ : Stack n} {events : List Event}
    (hstart : s₀.machine.scb = some (.default n))
    (hok : Run.Allowed (Stack.step P cfg prog) (Adequate cfg prog) s₀ events)
    (hrun : Run.exec (Stack.step P cfg prog) s₀ events = some s) {reason : MoreStackReason}
    (hlast : Adequate cfg prog s (.moreStack reason)) :
    (∀ scb extendCnt frameSize scb' extendCnt', s.machine.scb = some scb →
      svcMoreStackAntiHotSplit cfg s.machine.tf.lr (getStackFrameSize prog s.machine.tf) scb
        extendCnt = some (frameSize, scb', extendCnt') →
      (getStackFrameSize prog s.machine.tf).toNat ≤ frameSize.toNat) ∧
      ∀ m, moreStack P cfg prog reason s.machine = some (.extended m) →
        (getStackFrameSize prog s.machine.tf).toNat ≤
          (m.ctxt.sp + BitVec.ofNat 32 trapFrameSize - m.ctxt.tls.stkletBound).toNat := by
  have hcache : CacheOk s := by
    refine Run.exec_inv_of_allowed CacheOk (fun h hok hstep => h.step hok hstep) ?_ hok hrun
    intro scb hscb i hfilled
    obtain rfl := Option.some.inj (hstart.symm.trans hscb)
    exact absurd ⟨rfl, rfl⟩ hfilled
  have hle : ∀ scb, s.machine.scb = some scb → (getStackFrameSize prog s.machine.tf).toNat ≤
      (scaledFrameSize scb s.machine.tf.lr (getStackFrameSize prog s.machine.tf)).toNat :=
    fun scb hscb => le_scaledFrameSize (hcache scb hscb) (hlast.2 scb hscb).1
  refine ⟨fun scb extendCnt frameSize scb' extendCnt' hscb hsplit => ?_, fun m hmore => ?_⟩
  · rw [(svcMoreStackAntiHotSplit_eq hsplit).1]
    exact hle scb hscb
  · obtain ⟨m₁, hprep, ⟨m', heq, halloc⟩ | heq⟩ := moreStack_cases hmore
    · obtain rfl := Outcome.extended.inj heq
      obtain ⟨heap, ptr, -, -, -, rfl⟩ := allocStacklet_cases halloc
      have hframe : (getStackFrameSize prog s.machine.tf).toNat ≤ (s.machine.frameSize prog).toNat := by
        unfold Machine.frameSize
        split
        · exact hle _ ‹_›
        · exact le_rfl
      have hfits := hlast.1
      simp only [SizeFits] at hfits
      simp only
      rw [newStackPointer_sub_bound, BitVec.toNat_add, BitVec.toNat_ofNat]
      omega
    · exact absurd heq (by simp)

/-- A function is called, and calls another one four times before it returns. -/
def hotLoop : List Event :=
  [.moreStack .normal] ++ (List.replicate 4 [.moreStack .normal, .lessStack]).flatten ++ [.lessStack]

/-- The loop fills the entry of the cache, and the next call of the function hits it: the frame of 8
bytes gets 16. -/
theorem exec_roomy_board : ∃ (s₀ s : Stack 1) (m : Machine 1),
    s₀.machine.scb = some (.default 1) ∧
      Run.exec (Stack.step board boardConfig smallFrames) s₀ hotLoop = some s ∧
      s.machine.frameSize smallFrames = 16 ∧
      moreStack board boardConfig smallFrames .normal s.machine = some (.extended m) ∧
      8 ≤ (m.ctxt.sp + BitVec.ofNat 32 trapFrameSize - m.ctxt.tls.stkletBound).toNat := by
  obtain ⟨client, hheap, -⟩ := boardHeap_start
  have hrun : (boardHeap.bind fun c => (Run.exec (Stack.step board boardConfig smallFrames)
      (boardTask (.default 1) c) hotLoop).bind fun s =>
        (moreStack board boardConfig smallFrames .normal s.machine).map fun o =>
          (s.machine.frameSize smallFrames, getStackFrameSize smallFrames s.machine.tf, o.isExtended)) =
      some (16, 8, true) := by decide +kernel
  have hok : boardHeap.map (fun c => decide (Run.Allowed (Stack.step board boardConfig smallFrames)
      (Adequate boardConfig smallFrames) (boardTask (.default 1) c) (hotLoop ++ [.moreStack .normal]))) =
        some true := by decide +kernel
  simp only [hheap, Option.bind_some, Option.bind_eq_some_iff, Option.map_eq_some_iff, Prod.mk.injEq] at hrun
  simp only [hheap, Option.map_some, Option.some.injEq, decide_eq_true_eq] at hok
  obtain ⟨s, hrun, o, hmore, hscaled, hframe, hext⟩ := hrun
  obtain ⟨hbefore, hlast⟩ := Run.allowed_append.mp hok
  obtain ⟨m, rfl⟩ : ∃ m, o = .extended m := by
    cases o with
    | extended m => exact ⟨m, rfl⟩
    | diverted m => simp [Outcome.isExtended] at hext
  obtain ⟨-, hroom⟩ := exec_roomy rfl hbefore hrun (hlast s hrun).1
  exact ⟨_, s, m, rfl, hrun, hscaled, hmore, by simpa [hframe] using hroom m hmore⟩

/-- One level of a recursion: the function asks for a stacklet, and then calls itself from
the same place. -/
def recurse (level : Nat) : List Event :=
  [.moreStack .normal, .heap (.write (0x20000240 + 152 * level) (32 + 21) 0x0C)]

/-- A recursion of depth 32 from an empty cache: the signatures of the calls cancel, the
lookup hits the empty entry, and the last stacklet has no room at all. -/
theorem moreStack_leaves_no_room : ∃ (s₀ s : Stack 1) (m : Machine 1), Start board s₀ ∧
    s₀.machine.scb = some (.default 1) ∧
      Run.exec (Stack.step board boardConfig smallFrames) s₀ ((List.range 31).flatMap recurse) =
        some s ∧
      moreStack board boardConfig smallFrames .normal s.machine = some (.extended m) ∧
      getStackFrameSize smallFrames s.machine.tf = 8 ∧ s.machine.frameSize smallFrames = 0 ∧
      m.ctxt.sp + BitVec.ofNat 32 trapFrameSize - m.ctxt.tls.stkletBound = 0 := by
  obtain ⟨client, hheap, hstart⟩ := boardHeap_start
  have hrun : (boardHeap.bind fun c => (Run.exec (Stack.step board boardConfig smallFrames)
      (boardTask (.default 1) c) ((List.range 31).flatMap recurse)).bind fun s =>
        (moreStack board boardConfig smallFrames .normal s.machine).map fun
          | .extended m => (getStackFrameSize smallFrames s.machine.tf,
            s.machine.frameSize smallFrames,
            some (m.ctxt.sp + BitVec.ofNat 32 trapFrameSize - m.ctxt.tls.stkletBound))
          | .diverted _ => (0, 0, none)) = some (8, 0, some 0) := by decide +kernel
  simp only [hheap, Option.bind_some, Option.bind_eq_some_iff, Option.map_eq_some_iff] at hrun
  obtain ⟨s, hrun, o, hmore, heq⟩ := hrun
  cases o with
  | diverted m => simp at heq
  | extended m =>
    simp only [Prod.mk.injEq, Option.some.injEq] at heq
    exact ⟨_, s, m, hstart (.default 1), rfl, hrun, hmore, heq.1, heq.2.1, heq.2.2⟩

end Hopter.Task
