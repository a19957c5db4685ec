-- SUMMARY: The books of a task that panics, lands and panics again: every landing leaves them unbalanced.
import Hopter.Unwind.Crossing
import Mathlib.Data.BitVec

/-!
# Landing

A panic makes a supervisor call for a stacklet of 2048 bytes on which the unwinder runs. The
unwinder goes down the chain of the task, and another supervisor call (`unwind_land`) frees its
stacklet and sends the task to a landing pad. The landing pad ends with `_Unwind_Resume`, which
gets a stacklet for the unwinder again, or catches the panic.

`more_stack` enters the stacklet of the unwinder into the books of the task: the counted size,
the signature of the call chain, and the number of stacklets. `unwind_land` does not take it out.
-/

namespace Hopter.Unwind

open Hopter.Allocator Hopter.Task

variable {n : Nat}

/-- `unwind_land`, with the unwind state that `r0` points to. -/
def unwindLand (P : Platform) (u : UnwindState) (s : Machine n) : Machine n :=
  let unwinderStkletPtr := boundToStkletMeta s.ctxt.tls.stkletBound
  let landAddr := s.tf.r1
  let prevSp := u.regs.gp .sp - BitVec.ofNat 32 trapFrameSize
  let m := setWord s.mem (prevSp.toNat + 28) (s.tf.xpsr &&& ~~~padBit)
  let m := setWord m prevSp.toNat (u.regs.gp .r0)
  let m := setWord m (prevSp.toNat + 24) landAddr
  { s with
    heap :=
      ⟨mcuFree P { s.heap.heap with mem := m } unwinderStkletPtr,
        s.heap.live.filter fun a => a.1 ≠ unwinderStkletPtr⟩
    ctxt := ⟨prevSp, { s.ctxt.tls with stkletBound := u.stkletBoundary }⟩ }

/-- The unwinder at work. -/
structure Unwinder (n : Nat) where
  state : UnwindState
  /-- The stacklet that it started on. -/
  stacklet : Nat × Nat
  /-- Its own calls on further stacklets. -/
  inner : List (OpenCall n)
  /-- The stacklets of the task that it has freed. -/
  freed : Nat
  /-- `ACTIVE_STACKLET_COUNT` when it got its stacklet. -/
  active : Reg
  /-- What the task was charged for its stacklet. -/
  size : Reg

/-- A task that panics and recovers. While the unwinder runs, the machine is on its stacklets. -/
structure Recovery (n : Nat) where
  machine : Machine n
  base : Nat × Nat
  calls : List (OpenCall n)
  unwinder : Option (Unwinder n)
  /-- What the task was charged for stacklets that it did not get or does not have any more. -/
  leaked : Reg

inductive RecoveryEvent where
  /-- A step of the running code: the task, a landing pad, or the unwinder. -/
  | task (e : Event)
  /-- `start_unwind_entry` or `_Unwind_Resume`, which go on with the given unwind state. -/
  | prepare (state : UnwindState)
  | unwind
  | land

/-- What a step charges for a stacklet that is then not allocated. -/
def refusedSize (P : Platform) (cfg : Task.Config) (prog : Reg → BitVec 16) (s : Machine n) : Event → Reg
  | .moreStack reason =>
    match moreStack P cfg prog reason s with
    | some (.diverted _) => s.frameSize prog
    | _ => 0
  | _ => 0

namespace Recovery

/-- The stack that the running code is on. -/
def current (s : Recovery n) : Stack n :=
  match s.unwinder with
  | none => ⟨s.machine, s.base, s.calls⟩
  | some r => ⟨s.machine, r.stacklet, r.inner⟩

/-- The running code has taken a step. -/
def setCurrent (s : Recovery n) (t : Stack n) : Recovery n :=
  match s.unwinder with
  | none => { s with machine := t.machine, calls := t.calls }
  | some r => { s with machine := t.machine, unwinder := some { r with inner := t.calls } }

variable (P : Platform) (cfg : Task.Config) (prog : Reg → BitVec 16)
  (getForPc : Reg → Except String UnwindAbility)

def step (s : Recovery n) : RecoveryEvent → Option (Recovery n)
  | .task e => (s.current.step P cfg prog e).map fun t =>
      { s.setCurrent t with leaked := s.leaked + refusedSize P cfg prog s.machine e }
  | .prepare state =>
    match s.unwinder, moreStack P cfg prog .unwind s.machine with
    | none, some (.extended m) => some
      { s with
        machine := m
        unwinder := some
          { state := state
            stacklet := m.heap.live.headD (0, 0)
            inner := []
            freed := 0
            active := m.activeStackletCount
            size := s.machine.frameSize prog } }
    | _, _ => none
  | .unwind =>
    match s.unwinder with
    | none => none
    | some r => (Walk.step P cfg getForPc ⟨r.state, s.machine, s.base, s.calls⟩ ()).map fun w =>
      { s with
        machine := w.machine
        calls := w.calls
        unwinder := some
          { r with state := w.state, freed := r.freed + (s.calls.length - w.calls.length) } }
  | .land =>
    match s.unwinder with
    | some r =>
      if r.inner = [] then some
        { s with
          machine := unwindLand P r.state s.machine
          unwinder := none
          leaked := s.leaked + r.size }
      else none
    | none => none

end Recovery

/-- The signature of a call chain. -/
def chainSignature (calls : List (OpenCall n)) : Reg :=
  calls.foldr (fun c signature => extendSignature signature c.before.tf.lr) 0

/-- The books agree with the chain of the task, when `freed` stacklets were freed since the
number of stacklets was `active`. The initial stacklet counts for nothing. -/
structure Balanced (m : Machine n) (calls : List (OpenCall n)) (active : Reg) (freed : Nat) : Prop where
  cumulated : ∀ scb, m.scb = some scb →
    scb.cumulatedSize = (calls.map fun c => word m.mem (c.stacklet.1 + 12)).sum
  signature : ∀ scb, m.scb = some scb → scb.callChainSignature = chainSignature calls
  active : m.activeStackletCount.toNat + freed = active.toNat

variable {P : Platform} {cfg : Task.Config} {prog : Reg → BitVec 16}
  {getForPc : Reg → Except String UnwindAbility}

-- ---------------------------------------------------------------------------
-- The number of stacklets
-- ---------------------------------------------------------------------------

/-- A step counts the stacklets that it allocates and frees. -/
theorem step_active {s s' : Stack n} {e : Event} (h : s.step P cfg prog e = some s') {k : Reg}
    (hk : s.machine.activeStackletCount = k + BitVec.ofNat 32 s.calls.length) :
    s'.machine.activeStackletCount = k + BitVec.ofNat 32 s'.calls.length := by
  cases e with
  | heap call =>
    simp only [Stack.step] at h
    split at h
    · obtain ⟨heap, -, rfl⟩ := Option.map_eq_some_iff.mp h
      exact hk
    · cases h
  | move sp =>
    simp only [Stack.step] at h
    split at h
    · obtain rfl := Option.some.inj h
      exact hk
    · cases h
  | drops nestedDropCnt unwindPending =>
    obtain rfl := Option.some.inj h
    exact hk
  | unwinding b =>
    obtain rfl := Option.some.inj h
    exact hk
  | moreStack reason =>
    obtain ⟨o, hmore, rfl⟩ := Option.map_eq_some_iff.mp h
    obtain ⟨m, hprep, ⟨m', rfl, halloc⟩ | rfl⟩ := moreStack_cases hmore
    · obtain ⟨heap, ptr, -, -, -, rfl⟩ := allocStacklet_cases halloc
      simp only [List.length_cons, hprep.active, hk, BitVec.ofNat_add, BitVec.add_assoc]
      rfl
    · exact hprep.active.trans hk
  | lessStack =>
    simp only [Stack.step] at h
    split at h
    · cases h
    · rename_i c rest hcalls
      obtain ⟨m, hless, rfl⟩ := Option.map_eq_some_iff.mp h
      simp only [lessStack] at hless
      split at hless
      · cases hless
      · obtain rfl := Option.some.inj hless
        simp only [hcalls, List.length_cons, BitVec.ofNat_add, ← BitVec.add_assoc] at hk
        simp only [Machine.setMem, hk]
        exact BitVec.add_sub_cancel ..

/-- While the unwinder runs, only its own calls count. -/
def Recovery.Counts (s : Recovery n) : Prop :=
  ∀ r, s.unwinder = some r → s.machine.activeStackletCount = r.active + BitVec.ofNat 32 r.inner.length

theorem Recovery.Counts.step {s s' : Recovery n} {e : RecoveryEvent} (h : s.Counts)
    (hstep : s.step P cfg prog getForPc e = some s') : s'.Counts := by
  cases e with
  | task e =>
    obtain ⟨t, ht, rfl⟩ := Option.map_eq_some_iff.mp hstep
    intro r' hr'
    cases hr : s.unwinder with
    | none => simp [Recovery.setCurrent, hr] at hr'
    | some r =>
      simp only [Recovery.setCurrent, hr, Option.some.injEq] at hr' ⊢
      simp only [Recovery.current, hr] at ht
      subst hr'
      exact step_active ht (h r hr)
  | prepare state =>
    simp only [Recovery.step] at hstep
    split at hstep
    · obtain rfl := Option.some.inj hstep
      rintro r hr
      obtain rfl := Option.some.inj hr
      simp
    · cases hstep
  | unwind =>
    simp only [Recovery.step] at hstep
    split at hstep
    · cases hstep
    · rename_i r hr
      obtain ⟨w, hw, rfl⟩ := Option.map_eq_some_iff.mp hstep
      rintro r' hr'
      obtain rfl := Option.some.inj hr'
      have hactive : w.machine.activeStackletCount = s.machine.activeStackletCount := by
        rcases Walk.step_cases hw with ⟨-, c, rest, -, -, -, hmachine, -⟩ | ⟨-, -, hmachine, -⟩
        · rw [hmachine]
          rfl
        · rw [hmachine]
      exact hactive.trans (h r hr)
  | land =>
    simp only [Recovery.step] at hstep
    split at hstep
    · split at hstep
      · obtain rfl := Option.some.inj hstep
        rintro r hr
        cases hr
      · cases hstep
    · cases hstep

/-- Every landing leaves the books unbalanced. The unwinder has freed its own stacklet, and
maybe some of the task, and the number of stacklets is still that of when it started. -/
theorem land_unbalanced {s₀ s s' : Recovery n} {events : List RecoveryEvent} (hstart : s₀.unwinder = none)
    (hrun : Run.exec (Recovery.step P cfg prog getForPc) s₀ events = some s)
    (hland : s.step P cfg prog getForPc .land = some s') :
    ∃ r, s.unwinder = some r ∧ s'.machine.activeStackletCount = r.active ∧
      ¬ Balanced s'.machine s'.calls r.active (r.freed + 1) := by
  have hcounts : s.Counts := Run.exec_inv Recovery.Counts (fun h hstep => h.step hstep)
    (fun r hr => by simp [hstart] at hr) hrun
  simp only [Recovery.step] at hland
  split at hland
  · rename_i r hr
    split at hland
    · rename_i hinner
      obtain rfl := Option.some.inj hland
      have hactive : (unwindLand P r.state s.machine).activeStackletCount = r.active := by
        have := hcounts r hr
        simpa [unwindLand, hinner] using this
      refine ⟨r, hr, hactive, fun hbalanced => ?_⟩
      have hcount := hbalanced.active
      simp only [hactive] at hcount
      omega
    · cases hland
  · cases hland

/-- The request of `start_unwind_entry`: 512 words, and no arguments. -/
def unwindRequest : Reg → BitVec 16 := fun a => if a = 0x08000500 then 512 else 0

/-- A task on a board that is about to panic on its initial stacklet. -/
def panicking (client : Client) : Recovery 1 :=
  ⟨(boardTask (.default 1) client).machine, (boardTask (.default 1) client).base, [], none, 0⟩

/-- The unwind state when the function that panics has a landing pad. -/
def panickingState : UnwindState :=
  ⟨⟨fun _ => 0x20000168, fun _ => 0⟩, .cantUnwind, stkletPtrToBound 0x20000038, false⟩

/-- The task panics and lands on its initial stacklet. It is back to the chain of a fresh task,
but it is charged for 2048 bytes, and a stacklet more is counted. -/
theorem panicking_lands : ∃ (client : Client) (s s' : Recovery 1) (scb : StackCtrlBlock 1),
    Start board ⟨(panicking client).machine, (panicking client).base, (panicking client).calls⟩ ∧
      Run.exec (Recovery.step board boardConfig unwindRequest fun _ => .ok .cantUnwind) (panicking client)
        [.prepare panickingState] = some s ∧
      s.step board boardConfig unwindRequest (fun _ => .ok .cantUnwind) .land = some s' ∧
      s'.calls = [] ∧ s'.machine.scb = some scb ∧ scb.cumulatedSize = 2048 ∧
      (panicking client).machine.activeStackletCount = 0 ∧ s'.machine.activeStackletCount = 1 := by
  obtain ⟨client, hheap, hstart⟩ := boardHeap_start
  have hlands : (boardHeap.bind fun c =>
      (Run.exec (Recovery.step board boardConfig unwindRequest fun _ => .ok .cantUnwind) (panicking c)
        [.prepare panickingState]).bind fun s =>
          (s.step board boardConfig unwindRequest (fun _ => .ok .cantUnwind) .land).bind fun s' =>
            s'.machine.scb.map fun scb =>
              (s'.calls.length, scb.cumulatedSize, s'.machine.activeStackletCount)) =
      some (0, 2048, 1) := by decide +kernel
  simp only [hheap, Option.bind_some, Option.bind_eq_some_iff, Option.map_eq_some_iff,
    Prod.mk.injEq] at hlands
  obtain ⟨s, hrun, s', hland, scb, hscb, hcalls, hsize, hactive⟩ := hlands
  exact ⟨client, s, s', scb, hstart (.default 1), hrun, hland, List.eq_nil_of_length_eq_zero hcalls, hscb, hsize,
    rfl, hactive⟩

/-- The books of that task at the landing pad do not balance. -/
theorem land_unbalanced_board : ∃ (s s' : Recovery 1) (r : Unwinder 1), s.unwinder = some r ∧
    s.step board boardConfig unwindRequest (fun _ => .ok .cantUnwind) .land = some s' ∧
      ¬ Balanced s'.machine s'.calls r.active (r.freed + 1) := by
  obtain ⟨client, s, s', scb, -, hrun, hland, -⟩ := panicking_lands
  obtain ⟨r, hr, -, hnot⟩ := land_unbalanced (show (panicking client).unwinder = none from rfl) hrun hland
  exact ⟨s, s', r, hr, hland, hnot⟩

/-- A task that panics, lands on its initial stacklet and is restarted there has 2048 bytes less
than a fresh one. -/
theorem land_charges : ∃ (client : Client) (s s' : Recovery 1),
    Start board ⟨(panicking client).machine, (panicking client).base, (panicking client).calls⟩ ∧
      (panicking client).machine.scb = some (.default 1) ∧
      Run.exec (Recovery.step board boardConfig unwindRequest fun _ => .ok .cantUnwind) (panicking client)
        [.prepare panickingState] = some s ∧
      s.step board boardConfig unwindRequest (fun _ => .ok .cantUnwind) .land = some s' ∧ s'.calls = [] ∧
      s'.machine.scb.map StackCtrlBlock.cumulatedSize = some 2048 ∧
      ∀ active freed, ¬ Balanced s'.machine s'.calls active freed := by
  obtain ⟨client, s, s', scb, hstart, hrun, hland, hcalls, hscb, hsize, -⟩ := panicking_lands
  refine ⟨client, s, s', hstart, rfl, hrun, hland, hcalls, ?_, fun active freed hbalanced => ?_⟩
  · rw [hscb, Option.map_some, hsize]
  · have hcount := hbalanced.cumulated scb hscb
    rw [hcalls, hsize, List.map_nil, List.sum_nil] at hcount
    exact absurd hcount (by decide)

-- ---------------------------------------------------------------------------
-- Two stacks on one heap
-- ---------------------------------------------------------------------------

/-- What the running code and the unwinder are promised: the requested sizes do not wrap around,
the unwinder is told the boundary of the stacklet that panicked, what the unwinder writes spares
the chain of the task, and the frame that it lands in has room for a trap frame. -/
def Recovery.Fits (cfg : Task.Config) (prog : Reg → BitVec 16) (s : Recovery n) : RecoveryEvent → Prop
  | .task e => Task.Fits cfg prog s.current e ∧
      ∀ call, e = .heap call → (⟨s.machine, s.base, s.calls⟩ : Stack n).Permits call
  | .prepare state => SizeFits cfg (s.machine.frameSize prog) (s.machine.argSize prog) ∧
      state.stkletBoundary = s.machine.ctxt.tls.stkletBound
  | .unwind => True
  | .land => ∀ r, s.unwinder = some r →
      OnStacklet (currentStacklet s.base s.calls) (r.state.regs.gp .sp - BitVec.ofNat 32 trapFrameSize)

/-- The chain that the unwinder `r` works on. -/
def Recovery.walk (s : Recovery n) (r : Unwinder n) : Walk n := ⟨r.state, s.machine, s.base, s.calls⟩

/-- No stacklet is on both stacks. -/
def Recovery.Disjoint (s : Recovery n) (r : Unwinder n) : Prop :=
  ∀ st ∈ stacklets s.base s.calls, ∀ st' ∈ stacklets r.stacklet r.inner, st.1 ≠ st'.1

/-- The running code is on a chain of stacklets, and the unwinder has another one to unwind. -/
structure Recovery.Chained (P : Platform) (prog : Reg → BitVec 16) (s : Recovery n) : Prop where
  running : Layout P prog s.current
  below : ∀ r, s.unwinder = some r → (s.walk r).Chain P prog ∧ s.Disjoint r

/-- The chain is kept when its stacklets are. -/
theorem layout_framed {s : Stack n} (h : Layout P prog s) {m : Machine n} (hheap : ∃ cs ls, m.heap.Inv P cs ls)
    (hlive : ∀ st ∈ stacklets s.base s.calls, st ∈ m.heap.live)
    (hbytes : ∀ st ∈ stacklets s.base s.calls, ∀ i < st.2, m.mem (st.1 + i) = s.machine.mem (st.1 + i))
    (hbound : m.ctxt.tls.stkletBound = s.machine.ctxt.tls.stkletBound) (hsp : m.ctxt.sp = s.machine.ctxt.sp) :
    Layout P prog { s with machine := m } := by
  refine h.same_calls rfl rfl hheap hlive (fun c hc r hr => h.agree_of_live hc hr hbytes) hbound ?_
  simp only [hsp]
  exact h.sp

/-- The innermost stacklet and the chain below it. -/
theorem layout_split {m : Machine n} {base : Nat × Nat} {c : OpenCall n} {rest : List (OpenCall n)}
    (h : Layout P prog ⟨m, base, c :: rest⟩) :
    Layout P prog ⟨m, c.stacklet, []⟩ ∧
      Layout P prog ⟨resumedAt m c.before.ctxt.tls.stkletBound c.before.ctxt.sp, base, rest⟩ ∧
      ∀ st ∈ stacklets base rest, st.1 ≠ c.stacklet.1 := by
  obtain ⟨hheap, hlive, hdistinct, hlarge, ⟨hbound, hprev, hlinked⟩, hkept, hcur, hsp⟩ := h
  simp only [stacklets_cons, List.mem_cons, forall_eq_or_imp] at hlive hlarge
  obtain ⟨hnot, hnodup⟩ := List.nodup_cons.mp hdistinct
  refine ⟨⟨hheap, ?_, ?_, ?_, trivial, ?_, hcur, hsp⟩,
    ⟨hheap, hlive.2, hnodup, hlarge.2, hlinked, fun d hd => hkept d (List.mem_cons_of_mem _ hd), hbound,
      hprev⟩, fun st hst heq => hnot ?_⟩
  · simpa [stacklets] using hlive.1
  · simp [stacklets]
  · simpa [stacklets] using hlarge.1
  · simp
  · exact heq ▸ List.mem_map_of_mem hst

theorem step_base {s s' : Stack n} {e : Event} (h : s.step P cfg prog e = some s') : s'.base = s.base := by
  cases e with
  | heap call =>
    simp only [Stack.step] at h
    split at h
    · obtain ⟨heap, -, rfl⟩ := Option.map_eq_some_iff.mp h
      rfl
    · cases h
  | move sp =>
    simp only [Stack.step] at h
    split at h
    · obtain rfl := Option.some.inj h
      rfl
    · cases h
  | drops nestedDropCnt unwindPending =>
    obtain rfl := Option.some.inj h
    rfl
  | unwinding b =>
    obtain rfl := Option.some.inj h
    rfl
  | moreStack reason =>
    obtain ⟨o, -, rfl⟩ := Option.map_eq_some_iff.mp h
    cases o <;> rfl
  | lessStack =>
    simp only [Stack.step] at h
    split at h
    · cases h
    · obtain ⟨m, -, rfl⟩ := Option.map_eq_some_iff.mp h
      rfl

/-- A step of the running code keeps the chain that the unwinder works on. -/
theorem Recovery.Chained.task {s : Recovery n} {e : Event} {t : Stack n} {leaked : Reg} (h : s.Chained P prog)
    (hfits : s.Fits cfg prog (.task e)) (hstep : s.current.step P cfg prog e = some t) :
    Recovery.Chained P prog { s.setCurrent t with leaked := leaked } := by
  obtain ⟨hfits, hpermits⟩ := hfits
  have hrunning := h.running.step hfits hstep
  have hbase := step_base hstep
  cases hr : s.unwinder with
  | none =>
    simp only [Recovery.current, hr] at hbase hrunning
    refine ⟨?_, fun r' hr' => by simp [Recovery.setCurrent, hr] at hr'⟩
    simp only [Recovery.setCurrent, Recovery.current, hr, ← hbase]
    exact hrunning
  | some r =>
    obtain ⟨⟨sp, hchain⟩, hdisjoint⟩ := h.below r hr
    have hcurrent : s.current = ⟨s.machine, r.stacklet, r.inner⟩ := by simp only [Recovery.current, hr]
    rw [hcurrent] at hfits hstep hbase
    simp only at hbase
    have hlayout := h.running
    rw [hcurrent] at hlayout
    simp only [Recovery.setCurrent, hr]
    have hbelow : Walk.Chain P prog ⟨r.state, t.machine, s.base, s.calls⟩ ∧
        ∀ st ∈ stacklets s.base s.calls, ∀ st' ∈ stacklets r.stacklet t.calls, st.1 ≠ st'.1 := by
      by_cases hheap : ∃ call, e = .heap call
      · -- The heap call respects both stacks.
        obtain ⟨call, rfl⟩ := hheap
        simp only [Stack.step] at hstep
        split at hstep
        · obtain ⟨heap, hcall, rfl⟩ := Option.map_eq_some_iff.mp hstep
          exact ⟨⟨sp, hchain.heapCall (hpermits call rfl) hcall⟩, hdisjoint⟩
        · cases hstep
      · have hkeeps : ∀ st ∈ stacklets s.base s.calls, _ := fun st hst =>
          hlayout.step_keeps hfits hstep (fun call heq => hheap ⟨call, heq⟩) (hchain.live st hst)
            (hdisjoint st hst)
        refine ⟨⟨sp, ?_⟩, fun st hst => ?_⟩
        · exact layout_framed hchain (m := resumedAt t.machine r.state.stkletBoundary sp) hrunning.heap
            (fun st hst => (hkeeps st hst).1) (fun st hst => (hkeeps st hst).2.1) rfl rfl
        · have := (hkeeps st hst).2.2
          rwa [hbase] at this
    refine ⟨?_, fun r' hr' => ?_⟩
    · simp only [Recovery.current]
      rw [← hbase]
      exact hrunning
    · obtain rfl := Option.some.inj hr'
      exact hbelow

/-- The unwinder gets a stacklet of its own. -/
theorem Recovery.Chained.prepare {s : Recovery n} {state : UnwindState} {m : Machine n} (h : s.Chained P prog)
    (hr : s.unwinder = none) (hfits : s.Fits cfg prog (.prepare state))
    (hmore : moreStack P cfg prog .unwind s.machine = some (.extended m)) {r : Unwinder n}
    (hstate : r.state = state) (hstacklet : r.stacklet = m.heap.live.headD (0, 0)) (hinner : r.inner = []) :
    Recovery.Chained P prog { s with machine := m, unwinder := some r } := by
  obtain ⟨hsize, hboundary⟩ := hfits
  have hlayout := h.running
  simp only [Recovery.current, hr] at hlayout
  obtain ⟨m₁, hprep, ⟨m', heq, halloc⟩ | heq⟩ := moreStack_cases hmore
  · obtain rfl := Outcome.extended.inj heq
    obtain ⟨hown, hbelow, hne⟩ := layout_split (hlayout.allocated hprep hsize halloc)
    refine ⟨?_, fun r' hr' => ?_⟩
    · simp only [Recovery.current, hstacklet, hinner]
      exact hown
    · obtain rfl := Option.some.inj hr'
      refine ⟨⟨s.machine.ctxt.sp, ?_⟩, ?_⟩
      · simp only [Walk.stack, Recovery.walk, hstate, hboundary]
        exact hbelow
      · intro st hst st' hst'
        rw [hinner, hstacklet] at hst'
        simp only [stacklets, List.map_nil, List.nil_append, List.mem_singleton] at hst'
        rw [hst']
        exact hne st hst
  · cases heq

/-- The unwinder frees nothing that it is running on. -/
theorem Recovery.Chained.unwind {s : Recovery n} {r r' : Unwinder n} {w : Walk n} (h : s.Chained P prog)
    (hr : s.unwinder = some r) (hw : (s.walk r).step P cfg getForPc () = some w) (hstate : r'.state = w.state)
    (hstacklet : r'.stacklet = r.stacklet) (hinner : r'.inner = r.inner) :
    Recovery.Chained P prog { s with machine := w.machine, calls := w.calls, unwinder := some r' } := by
  obtain ⟨⟨sp, hchain⟩, hdisjoint⟩ := h.below r hr
  have hlayout := h.running
  simp only [Recovery.current, hr] at hlayout
  rcases Walk.step_cases hw with ⟨-, c, rest, hcalls, -, hrest, hmachine, hbound⟩ |
    ⟨-, hcalls, hmachine, hbound⟩
  · have hchain' := cross_chain hchain hcalls
    have hptr := boundary_eq hchain hcalls
    have hfreed : c.stacklet ∈ stacklets s.base s.calls := by
      have : c ∈ s.calls := by
        rw [show s.calls = c :: rest from hcalls]
        exact List.mem_cons_self ..
      exact OpenCall.mem_stacklets this
    refine ⟨?_, fun r'' hr'' => ?_⟩
    · simp only [Recovery.current, hstacklet, hinner, hmachine]
      obtain ⟨cs, ls, hinv⟩ := hlayout.heap
      obtain ⟨hheap, hbytes⟩ := hinv.mcuFree_spec (List.mem_map_of_mem (hchain.live _ hfreed))
      refine layout_framed hlayout ?_ (fun st hst => ?_) (fun st hst i hi => ?_) rfl rfl
      · simp only [UnwindState.cross, hptr]
        exact hheap
      · simp only [UnwindState.cross, hptr, List.mem_filter, decide_eq_true_eq]
        exact ⟨hlayout.live st hst, (hdisjoint _ hfreed st hst).symm⟩
      · simp only [UnwindState.cross, hptr, Machine.mem]
        exact hbytes st (hlayout.live st hst) (hdisjoint _ hfreed st hst).symm i hi
    · obtain rfl := Option.some.inj hr''
      refine ⟨hchain'.congr rfl hrest hmachine (by rw [Recovery.walk, hstate, hbound]), ?_⟩
      intro st hst st' hst'
      rw [hstacklet, hinner] at hst'
      refine hdisjoint st ?_ st' hst'
      rw [show s.calls = c :: rest from hcalls, stacklets_cons]
      simp only [hrest] at hst
      exact List.mem_cons_of_mem _ hst
  · refine ⟨?_, fun r'' hr'' => ?_⟩
    · simp only [Recovery.current, hstacklet, hinner, hmachine]
      exact hlayout
    · obtain rfl := Option.some.inj hr''
      refine ⟨Walk.Chain.congr (w := s.walk r) ⟨sp, hchain⟩ rfl hcalls hmachine
        (by rw [Recovery.walk, hstate, hbound]), fun st hst st' hst' => ?_⟩
      rw [hstacklet, hinner] at hst'
      refine hdisjoint st ?_ st' hst'
      simp only [hcalls] at hst
      exact hst

/-- The landing pad runs on the chain of the task. -/
theorem Recovery.Chained.land {s : Recovery n} {r : Unwinder n} {leaked : Reg} (h : s.Chained P prog)
    (hr : s.unwinder = some r) (hinner : r.inner = []) (hfits : s.Fits cfg prog .land) :
    Recovery.Chained P prog
      { s with machine := unwindLand P r.state s.machine, unwinder := none, leaked := leaked } := by
  have hsp := hfits r hr
  obtain ⟨⟨sp, hchain⟩, hdisjoint⟩ := h.below r hr
  have hlayout := h.running
  simp only [Recovery.current, hr, hinner] at hlayout
  have hown : r.stacklet ∈ stacklets r.stacklet r.inner := by simp [hinner, stacklets]
  have hlive : r.stacklet ∈ s.machine.heap.live := hlayout.live _ (by simp [stacklets])
  have hptr : boundToStkletMeta s.machine.ctxt.tls.stkletBound = r.stacklet.1 := by
    have hend : r.stacklet.1 + r.stacklet.2 < 2 ^ 32 := hlayout.end_lt hlive
    rw [show s.machine.ctxt.tls.stkletBound = stkletPtrToBound r.stacklet.1 from hlayout.bound]
    exact boundToStkletMeta_stkletPtrToBound (by omega)
  -- The trap frame is built on the stacklet of the landing pad.
  generalize hprevSp : r.state.regs.gp .sp - BitVec.ofNat 32 trapFrameSize = prevSp at hsp
  have hmoved := layout_moved hchain hsp
  obtain ⟨hlo, hhi⟩ := hsp
  simp only [trapFrameSize] at hhi
  have hwritten := hmoved.written (a := prevSp.toNat)
    (m := setWord (setWord (setWord s.machine.mem (prevSp.toNat + 28) (s.machine.tf.xpsr &&& ~~~padBit))
      prevSp.toNat (r.state.regs.gp .r0)) (prevSp.toNat + 24) s.machine.tf.r1) hlo
    (show prevSp.toNat + 32 ≤ _ by simp only [Recovery.walk, Walk.stack]; omega) fun y hy => by
      simp only [Outside] at hy
      rw [setWord_outside (by omega), setWord_outside (by omega), setWord_outside (by omega)]
      rfl
  have hfreed := hwritten.heapCall
    (show Stack.Permits _ (.free r.stacklet.1) from ⟨List.mem_map_of_mem hlive, fun hmem => ?_⟩) rfl
  · refine ⟨?_, fun r' hr' => by cases hr'⟩
    simp only [Recovery.current, unwindLand, hptr, hprevSp]
    exact hfreed
  · obtain ⟨st, hst, heq⟩ := List.mem_map.mp hmem
    exact hdisjoint st hst _ hown heq

theorem Recovery.Chained.step {s s' : Recovery n} {e : RecoveryEvent} (h : s.Chained P prog)
    (hfits : s.Fits cfg prog e) (hstep : s.step P cfg prog getForPc e = some s') : s'.Chained P prog := by
  cases e with
  | task e =>
    obtain ⟨t, ht, rfl⟩ := Option.map_eq_some_iff.mp hstep
    exact h.task hfits ht
  | prepare state =>
    simp only [Recovery.step] at hstep
    split at hstep
    · rename_i hr hmore
      obtain rfl := Option.some.inj hstep
      exact h.prepare hr hfits hmore rfl rfl rfl
    · cases hstep
  | unwind =>
    simp only [Recovery.step] at hstep
    split at hstep
    · cases hstep
    · rename_i r hr
      obtain ⟨w, hw, rfl⟩ := Option.map_eq_some_iff.mp hstep
      exact h.unwind hr hw rfl rfl rfl
  | land =>
    simp only [Recovery.step] at hstep
    split at hstep
    · rename_i r hr
      split at hstep
      · rename_i hinner
        obtain rfl := Option.some.inj hstep
        exact h.land hr hinner hfits
      · cases hstep
    · cases hstep

-- ---------------------------------------------------------------------------
-- The counted size
-- ---------------------------------------------------------------------------

/-- The control block of the task counts the given size. -/
def Charged (m : Machine n) (size : Reg) : Prop := ∀ scb, m.scb = some scb → scb.cumulatedSize = size

/-- What a task is charged for its open calls. -/
def charges (prog : Reg → BitVec 16) (calls : List (OpenCall n)) : Reg :=
  (calls.map fun c => c.before.frameSize prog).sum

theorem Charged.congr {m m' : Machine n} {size size' : Reg} (h : Charged m size) (hscb : m'.scb = m.scb)
    (hsize : size' = size) : Charged m' size' := by
  intro scb hsome
  rw [hsize]
  exact h scb (hscb ▸ hsome)

/-- `more_stack` adds the frame size. -/
theorem Charged.prepared {m m₁ : Machine n} {size : Reg} (h : Charged m size)
    (hprep : Prepared cfg prog m m₁) : Charged m₁ (size + m.frameSize prog) := by
  intro scb hsome
  have hcount := hprep.counters.2
  cases hm : m.scb with
  | none => simp [hm, hsome] at hcount
  | some scb₀ =>
    simp only [hm, hsome, Option.map_some, Option.some.injEq] at hcount
    rw [hcount, h scb₀ hm]

/-- A step charges for the stacklets that it allocates and frees, and for those that it refuses. -/
theorem Charged.step {s s' : Stack n} {e : Event} {k : Reg} (hlayout : Layout P prog s)
    (h : Charged s.machine (charges prog s.calls + k)) (hstep : s.step P cfg prog e = some s') :
    Charged s'.machine (charges prog s'.calls + (k + refusedSize P cfg prog s.machine e)) := by
  cases e with
  | heap call =>
    simp only [Stack.step] at hstep
    split at hstep
    · obtain ⟨heap, -, rfl⟩ := Option.map_eq_some_iff.mp hstep
      exact h.congr rfl (by simp [refusedSize])
    · cases hstep
  | move sp =>
    simp only [Stack.step] at hstep
    split at hstep
    · obtain rfl := Option.some.inj hstep
      exact h.congr rfl (by simp [refusedSize])
    · cases hstep
  | drops nestedDropCnt unwindPending =>
    obtain rfl := Option.some.inj hstep
    exact h.congr rfl (by simp [refusedSize])
  | unwinding b =>
    obtain rfl := Option.some.inj hstep
    exact h.congr rfl (by simp [refusedSize])
  | moreStack reason =>
    obtain ⟨o, hmore, rfl⟩ := Option.map_eq_some_iff.mp hstep
    obtain ⟨m, hprep, ⟨m', rfl, halloc⟩ | rfl⟩ := moreStack_cases hmore
    · obtain ⟨heap, ptr, -, -, -, rfl⟩ := allocStacklet_cases halloc
      refine (h.prepared hprep).congr rfl ?_
      simp only [refusedSize, hmore, charges, List.map_cons, List.sum_cons]
      ac_rfl
    · refine (h.prepared hprep).congr rfl ?_
      simp only [refusedSize, hmore]
      ac_rfl
  | lessStack =>
    simp only [Stack.step] at hstep
    split at hstep
    · cases hstep
    · rename_i c rest hcalls
      obtain ⟨m, hless, rfl⟩ := Option.map_eq_some_iff.mp hstep
      have hret := lessStack_returned (hlayout.switched hcalls) hless
      have hkept := hlayout.kept c (by simp [hcalls])
      intro scb hsome
      simp only [hret.scb, Option.map_eq_some_iff] at hsome
      obtain ⟨scb₀, hscb, rfl⟩ := hsome
      have hcount := h scb₀ hscb
      simp only [hcalls, charges, List.map_cons, List.sum_cons] at hcount
      simp only [refusedSize, hcount, hkept.countSize, charges]
      rw [BitVec.add_assoc, BitVec.add_comm, BitVec.add_sub_cancel]
      ac_rfl

/-- What the task is charged for the unwinder. -/
def Recovery.unwinding (prog : Reg → BitVec 16) (s : Recovery n) : Reg :=
  match s.unwinder with
  | none => 0
  | some r => charges prog r.inner + r.size

/-- The counted size is that of the two chains, and what has leaked. -/
structure Recovery.Booked (P : Platform) (prog : Reg → BitVec 16) (s : Recovery n) : Prop where
  chained : s.Chained P prog
  charged : Charged s.machine (charges prog s.calls + (s.unwinding prog + s.leaked))

/-- Crossing takes out what the stacklet was charged. -/
theorem Charged.cross {w : Walk n} {sp : Reg} {c : OpenCall n} {rest : List (OpenCall n)} {k : Reg}
    (h : Charged w.machine (charges prog w.calls + k)) (hlayout : Layout P prog (w.stack sp))
    (hcalls : w.calls = c :: rest) :
    Charged (w.state.cross P w.machine).2 (charges prog rest + k) := by
  have hptr := boundary_eq hlayout hcalls
  have hkept := hlayout.kept c (by simp [Walk.stack, hcalls])
  have hcount : word w.machine.mem (c.stacklet.1 + 12) = c.before.frameSize prog := hkept.countSize
  intro scb hsome
  simp only [UnwindState.cross, hptr, Option.map_eq_some_iff] at hsome
  obtain ⟨scb₀, hscb, rfl⟩ := hsome
  have hsize := h scb₀ hscb
  simp only [hcalls, charges, List.map_cons, List.sum_cons] at hsize
  simp only [hsize, hcount, charges]
  rw [BitVec.add_assoc, BitVec.add_comm, BitVec.add_sub_cancel]

theorem Recovery.Booked.step {s s' : Recovery n} {e : RecoveryEvent} (h : s.Booked P prog)
    (hfits : s.Fits cfg prog e) (hstep : s.step P cfg prog getForPc e = some s') : s'.Booked P prog := by
  refine ⟨h.chained.step hfits hstep, ?_⟩
  have hcharged := h.charged
  cases e with
  | task e =>
    obtain ⟨t, ht, rfl⟩ := Option.map_eq_some_iff.mp hstep
    have hrunning := h.chained.running
    cases hr : s.unwinder with
    | none =>
      simp only [Recovery.current, hr] at ht hrunning
      simp only [Recovery.unwinding, Recovery.setCurrent, hr] at hcharged ⊢
      refine (Charged.step hrunning hcharged ht).congr rfl ?_
      ac_rfl
    | some r =>
      simp only [Recovery.current, hr] at ht hrunning
      simp only [Recovery.unwinding, Recovery.setCurrent, hr] at hcharged ⊢
      have hinner : Charged s.machine (charges prog r.inner + (charges prog s.calls + (r.size + s.leaked))) :=
        hcharged.congr rfl (by ac_rfl)
      refine (Charged.step hrunning hinner ht).congr rfl ?_
      ac_rfl
  | prepare state =>
    simp only [Recovery.step] at hstep
    split at hstep
    · rename_i hr hmore
      obtain rfl := Option.some.inj hstep
      simp only [Recovery.unwinding, hr] at hcharged ⊢
      obtain ⟨m₁, hprep, ⟨m', heq, halloc⟩ | heq⟩ := moreStack_cases hmore
      · obtain rfl := Outcome.extended.inj heq
        obtain ⟨heap, ptr, -, -, -, rfl⟩ := allocStacklet_cases halloc
        refine (hcharged.prepared hprep).congr rfl ?_
        simp only [charges, List.map_nil, List.sum_nil]
        ac_rfl
      · cases heq
    · cases hstep
  | unwind =>
    simp only [Recovery.step] at hstep
    split at hstep
    · cases hstep
    · rename_i r hr
      obtain ⟨w, hw, rfl⟩ := Option.map_eq_some_iff.mp hstep
      obtain ⟨⟨sp, hchain⟩, -⟩ := h.chained.below r hr
      simp only [Recovery.unwinding, hr] at hcharged ⊢
      rcases Walk.step_cases hw with ⟨-, c, rest, hcalls, -, hrest, hmachine, -⟩ | ⟨-, hcalls, hmachine, -⟩
      · simp only [hrest, hmachine]
        exact Charged.cross (w := s.walk r) hcharged hchain hcalls
      · simp only [hcalls, hmachine]
        exact hcharged
  | land =>
    simp only [Recovery.step] at hstep
    split at hstep
    · rename_i r hr
      split at hstep
      · rename_i hinner
        obtain rfl := Option.some.inj hstep
        simp only [Recovery.unwinding, hr, hinner, charges, List.map_nil, List.sum_nil] at hcharged ⊢
        exact hcharged.congr rfl (by ac_rfl)
      · cases hstep
    · cases hstep

/-- In every run, when the unwinder does not run, the task is charged for the stacklets that it
has, for those that it was refused, and for all those that the unwinder has ever started on. -/
theorem exec_leaked {s₀ s : Recovery n} {events : List RecoveryEvent}
    (hstart : Start P ⟨s₀.machine, s₀.base, s₀.calls⟩) (hnone : s₀.unwinder = none)
    (hfresh : Charged s₀.machine s₀.leaked)
    (hok : Run.Allowed (Recovery.step P cfg prog getForPc) (Recovery.Fits cfg prog) s₀ events)
    (hrun : Run.exec (Recovery.step P cfg prog getForPc) s₀ events = some s) (hend : s.unwinder = none) :
    Charged s.machine ((s.calls.map fun c => word s.machine.mem (c.stacklet.1 + 12)).sum + s.leaked) := by
  have hbooked : s.Booked P prog := by
    refine Run.exec_inv_of_allowed (Recovery.Booked P prog) (fun h hok hstep => h.step hok hstep) ?_ hok hrun
    refine ⟨⟨?_, fun r hr => by simp [hnone] at hr⟩, ?_⟩
    · simp only [Recovery.current, hnone]
      exact hstart.layout
    · have hcalls : s₀.calls = [] := hstart.calls
      refine hfresh.congr rfl ?_
      simp [Recovery.unwinding, hnone, hcalls, charges]
  have hlayout := hbooked.chained.running
  simp only [Recovery.current, hend] at hlayout
  have hsum : (s.calls.map fun c => word s.machine.mem (c.stacklet.1 + 12)).sum = charges prog s.calls := by
    rw [charges, List.map_congr_left fun c hc => (hlayout.kept c hc).countSize]
  refine hbooked.charged.congr rfl ?_
  rw [hsum, Recovery.unwinding, hend]
  ac_rfl

end Hopter.Unwind
