-- SUMMARY: Unwinding across stacklets agrees with returning across them, for chains of any depth.
import Hopter.Unwind.Step
import Hopter.Task.StackSafety
import Hopter.Base.Run

/-!
# Crossing stacklets

The unwinder walks down the chain of stacklets of a task. It runs on a stacklet of its own, so
the chain that it works on is described by its own boundary and not by the context of the task.
Crossing a boundary is compared with `less_stack` and the exception return, from the state in
which the task runs on the stacklet that is crossed.
-/

namespace Hopter.Unwind

open Hopter.Allocator Hopter.Task

variable {n : Nat}

/-- The machine if the task was on the stacklet with the given boundary, with the trap frame of
a supervisor call at `sp`. -/
def resumedAt (m : Machine n) (bound sp : Reg) : Machine n :=
  { m with ctxt := ⟨sp, { m.ctxt.tls with stkletBound := bound }⟩ }

/-- The stack pointer after the exception return. -/
def returnSp (m : Machine n) : Reg := m.ctxt.sp + BitVec.ofNat 32 (tfSizeAt m.mem m.ctxt.sp.toNat)

/-- The unwinder at work, with the calls that it has not unwound yet. -/
structure Walk (n : Nat) where
  state : UnwindState
  machine : Machine n
  base : Nat × Nat
  calls : List (OpenCall n)

namespace Walk

/-- The task on the stacklet that is being unwound. -/
def stack (w : Walk n) (sp : Reg) : Stack n := ⟨resumedAt w.machine w.state.stkletBoundary sp, w.base, w.calls⟩

/-- The calls and the memory are a chain of stacklets. -/
def Chain (P : Platform) (prog : Reg → BitVec 16) (w : Walk n) : Prop := ∃ sp, Layout P prog (w.stack sp)

/-- The program counter that the next step restores. -/
def restoredPc (w : Walk n) : Option Reg :=
  if w.state.hasFinished = true then none
  else
    match w.state.unwAbility with
    | .cantUnwind => none
    | .canUnwind iter =>
      match applyInstrs w.machine.mem iter.toList (w.state.regs.setGp .pc (~~~0)) with
      | some (regs, _, .ok ()) => some (if regs.gp .pc = ~~~0 then regs.gp .lr else regs.gp .pc)
      | _ => none

/-- The next step restores the address of `svc_less_stack`. -/
def crosses (cfg : Task.Config) (w : Walk n) : Bool :=
  match w.restoredPc with
  | some pc => pc ≠ 0 ∧ pc = cfg.svcLessStack
  | none => false

variable (P : Platform) (cfg : Task.Config) (getForPc : Reg → Except String UnwindAbility)

/-- A step of the unwinder, with the call that it takes off the chain. An error is the end of
the system. Nothing returns from the initial stacklet. -/
def step (w : Walk n) (_ : Unit) : Option (Walk n) :=
  match w.state.step P cfg getForPc w.machine with
  | some (u, m, .ok ()) =>
    if w.crosses cfg = true then
      match w.calls with
      | [] => none
      | _ :: rest => some { w with state := u, machine := m, calls := rest }
    else some { w with state := u, machine := m }
  | _ => none

end Walk

/-- The unwinder at `u` with the machine `m` has crossed to where the task is in `m'`, right
before the exception return. The stacklet `st` was freed. -/
structure Agrees (before m m' : Machine n) (st : Nat × Nat) (u : UnwindState) : Prop where
  sp : u.regs.gp .sp = returnSp m'
  pc : u.regs.gp .pc = m'.tf.pc - 2
  bound : u.stkletBoundary = m'.ctxt.tls.stkletBound
  cumulated : m.scb.map StackCtrlBlock.cumulatedSize = m'.scb.map StackCtrlBlock.cumulatedSize
  live : m.heap.live = m'.heap.live
  freed : m.heap.live = before.heap.live.filter fun a => a.1 ≠ st.1

-- ---------------------------------------------------------------------------
-- One crossing
-- ---------------------------------------------------------------------------

variable {P : Platform} {cfg : Task.Config} {prog : Reg → BitVec 16}
  {getForPc : Reg → Except String UnwindAbility} {w w' : Walk n} {c : OpenCall n} {rest : List (OpenCall n)}
  {sp : Reg}

/-- The chain does not depend on where the trap frame is. -/
theorem layout_moved (h : Layout P prog (w.stack sp)) {sp' : Reg}
    (hsp : OnStacklet (currentStacklet w.base w.calls) sp') : Layout P prog (w.stack sp') :=
  ⟨h.heap, h.live, h.distinct, h.large, h.linked, h.kept, h.bound, hsp⟩

theorem boundary_eq (h : Layout P prog (w.stack sp)) (hcalls : w.calls = c :: rest) :
    boundToStkletMeta w.state.stkletBoundary = c.stacklet.1 := by
  have hmem : c.stacklet ∈ stacklets w.base w.calls := OpenCall.mem_stacklets (by simp [hcalls])
  have hlt : c.stacklet.1 + c.stacklet.2 < 2 ^ 32 := h.end_lt (h.live _ hmem)
  have hbound : w.state.stkletBoundary = stkletPtrToBound (currentStacklet w.base w.calls).1 := h.bound
  have hcur : currentStacklet w.base w.calls = c.stacklet := by rw [hcalls, currentStacklet]
  rw [hbound, hcur]
  exact boundToStkletMeta_stkletPtrToBound (by omega)

/-- Crossing agrees with `less_stack`. -/
theorem cross_agrees (hallow : cfg.allowDynamicStack = true) (h : Layout P prog (w.stack sp))
    (hcalls : w.calls = c :: rest) :
    ∃ m, lessStack P cfg (resumedAt w.machine w.state.stkletBoundary sp) = some m ∧
      Agrees w.machine (w.state.cross P w.machine).2 m c.stacklet (w.state.cross P w.machine).1 := by
  obtain ⟨m, hless⟩ : ∃ m, lessStack P cfg (resumedAt w.machine w.state.stkletBoundary sp) = some m := by
    simp [lessStack, hallow]
  have hret := lessStack_returned (h.switched hcalls) hless
  have hptr := boundary_eq h hcalls
  obtain ⟨-, hlive, -, hsp, htls, hscb, -, hframe⟩ := hret
  have hmem : (w.stack sp).machine.mem = w.machine.mem := rfl
  rw [hmem] at hsp htls hscb hframe
  refine ⟨m, hless, ?_, ?_, ?_, ?_, ?_, ?_⟩
  · -- The padding bit of the trap frame is not touched by `less_stack`.
    have hsize : tfSizeAt m.mem m.ctxt.sp.toNat = tfSizeAt w.machine.mem m.ctxt.sp.toNat := by
      have hxpsr : m.tf.xpsr = (TrapFrame.load w.machine.mem m.ctxt.sp.toNat).xpsr := by rw [hframe]
      simp only [Machine.tf] at hxpsr
      simp only [tfSizeAt, hxpsr]
    rw [returnSp, hsize, hsp]
    simp only [UnwindState.cross, Regs.setGp_gp_same, hptr]
  · have hpc : m.tf.pc = word w.machine.mem (m.ctxt.sp.toNat + 20) := by rw [hframe]
    rw [hpc, hsp]
    simp only [UnwindState.cross, Regs.setGp_gp_ne (show ARMGPReg.pc ≠ .sp by decide), Regs.setGp_gp_same,
      hptr]
    rfl
  · rw [htls]
    simp only [UnwindState.cross, hptr]
  · rw [hscb]
    simp only [UnwindState.cross, hptr, Option.map_map]
    rfl
  · rw [hlive]
    simp only [UnwindState.cross, hptr]
    rfl
  · simp only [UnwindState.cross, hptr]

/-- The chain below the stacklet that was crossed. -/
theorem cross_chain (h : Layout P prog (w.stack sp)) (hcalls : w.calls = c :: rest) :
    Walk.Chain P prog ⟨(w.state.cross P w.machine).1, (w.state.cross P w.machine).2, w.base, rest⟩ := by
  have hptr := boundary_eq h hcalls
  have hmem : c.stacklet ∈ stacklets w.base w.calls := OpenCall.mem_stacklets (by simp [hcalls])
  obtain ⟨cs, ls, hinv⟩ := h.heap
  obtain ⟨hfreed, hbytes⟩ := hinv.mcuFree_spec (List.mem_map_of_mem (h.live _ hmem))
  refine ⟨word w.machine.mem (c.stacklet.1 + 4), h.popped hcalls ?_ ?_ ?_ rfl ?_⟩
  · simp only [resumedAt, UnwindState.cross, hptr]
    exact hfreed
  · simp only [resumedAt, UnwindState.cross, hptr]
    rfl
  · intro a ha hne i hi _
    simp only [resumedAt, Machine.mem, UnwindState.cross, hptr]
    exact hbytes a ha hne i hi
  · simp only [resumedAt, UnwindState.cross, hptr]
    rfl

-- ---------------------------------------------------------------------------
-- Steps of the unwinder
-- ---------------------------------------------------------------------------

/-- What crossing sets depends only on the boundary. -/
theorem cross_congr {u u' : UnwindState} {m : Machine n} (h : u'.stkletBoundary = u.stkletBoundary) :
    (u'.cross P m).2 = (u.cross P m).2 ∧ (u'.cross P m).1.stkletBoundary = (u.cross P m).1.stkletBoundary ∧
      (u'.cross P m).1.regs.gp .sp = (u.cross P m).1.regs.gp .sp ∧
      (u'.cross P m).1.regs.gp .pc = (u.cross P m).1.regs.gp .pc := by
  have hne : ARMGPReg.pc ≠ .sp := by decide
  simp only [UnwindState.cross, h, Regs.setGp_gp_same, Regs.setGp_gp_ne hne, and_self]

theorem lookup_eq (getForPc : Reg → Except String UnwindAbility) (u : UnwindState) :
    (u.lookup getForPc).1.regs = u.regs ∧ (u.lookup getForPc).1.stkletBoundary = u.stkletBoundary := by
  unfold UnwindState.lookup
  split <;> exact ⟨rfl, rfl⟩

/-- The registers when the program counter is restored from the link register. -/
def withPc (regs : Regs) : Regs := if regs.gp .pc = ~~~0 then regs.setGp .pc (regs.gp .lr) else regs

theorem withPc_pc (regs : Regs) :
    (withPc regs).gp .pc = if regs.gp .pc = ~~~0 then regs.gp .lr else regs.gp .pc := by
  unfold withPc
  split
  · exact Regs.setGp_gp_same
  · rfl

/-- When a step restores a program counter, it has applied the instructions. -/
theorem step_of_restoredPc (P : Platform) (cfg : Task.Config) (getForPc : Reg → Except String UnwindAbility) {pc : Reg}
    (h : w.restoredPc = some pc) :
    ∃ u : UnwindState, u.stkletBoundary = w.state.stkletBoundary ∧ (withPc u.regs).gp .pc = pc ∧
      w.state.step P cfg getForPc w.machine = some (u.afterRestore P cfg getForPc w.machine) := by
  unfold Walk.restoredPc at h
  split at h
  · cases h
  rename_i hfin
  split at h
  · cases h
  rename_i iter hability
  split at h
  · rename_i regs rest happly
    obtain rfl := Option.some.inj h
    refine ⟨⟨regs, .canUnwind { iter with pos := iter.bytes.length - rest.length }, w.state.stkletBoundary,
      w.state.isInitial⟩, rfl, withPc_pc regs, ?_⟩
    rw [UnwindState.step, if_neg hfin, hability]
    simp only [happly, Option.map_some]
  · cases h

theorem afterRestore_cross {u : UnwindState} {m : Machine n} (hne : (withPc u.regs).gp .pc ≠ 0)
    (heq : (withPc u.regs).gp .pc = cfg.svcLessStack) :
    u.afterRestore P cfg getForPc m =
      ((((({ u with regs := withPc u.regs } : UnwindState).cross P m).1).lookup getForPc).1,
        (({ u with regs := withPc u.regs } : UnwindState).cross P m).2,
        (((({ u with regs := withPc u.regs } : UnwindState).cross P m).1).lookup getForPc).2) := by
  unfold withPc at hne heq ⊢
  simp only [UnwindState.afterRestore, if_neg hne, if_pos heq]

theorem afterRestore_stay (P : Platform) (getForPc : Reg → Except String UnwindAbility) {u : UnwindState}
    {m : Machine n}
    (h : ¬ ((withPc u.regs).gp .pc ≠ 0 ∧ (withPc u.regs).gp .pc = cfg.svcLessStack)) :
    (u.afterRestore P cfg getForPc m).1.stkletBoundary = u.stkletBoundary ∧
      (u.afterRestore P cfg getForPc m).2.1 = m := by
  unfold withPc at h
  by_cases hzero : (if u.regs.gp .pc = ~~~0 then u.regs.setGp .pc (u.regs.gp .lr) else u.regs).gp .pc = 0
  · simp only [UnwindState.afterRestore, if_pos hzero, and_self]
  · have hne : ¬ (if u.regs.gp .pc = ~~~0 then u.regs.setGp .pc (u.regs.gp .lr) else u.regs).gp .pc =
        cfg.svcLessStack := fun heq => h ⟨hzero, heq⟩
    simp only [UnwindState.afterRestore, if_neg hzero, if_neg hne, (lookup_eq getForPc _).2, and_self]

theorem step_of_crosses (P : Platform) (getForPc : Reg → Except String UnwindAbility) (h : w.crosses cfg = true) :
    ∃ u r, w.state.step P cfg getForPc w.machine = some (u, (w.state.cross P w.machine).2, r) ∧
      u.stkletBoundary = (w.state.cross P w.machine).1.stkletBoundary ∧
      u.regs.gp .sp = (w.state.cross P w.machine).1.regs.gp .sp ∧
      u.regs.gp .pc = (w.state.cross P w.machine).1.regs.gp .pc := by
  unfold Walk.crosses at h
  split at h
  · rename_i pc hpc
    obtain ⟨hne, heq⟩ := of_decide_eq_true h
    obtain ⟨u, hbound, hrestored, hstep⟩ := step_of_restoredPc P cfg getForPc hpc
    rw [← hrestored] at hne heq
    rw [hstep, afterRestore_cross hne heq]
    generalize hv : ({ u with regs := withPc u.regs } : UnwindState) = v
    have hbound : v.stkletBoundary = w.state.stkletBoundary := by rw [← hv, ← hbound]
    obtain ⟨hmachine, hboundary, hsp, hpc'⟩ := cross_congr (P := P) (m := w.machine) hbound
    obtain ⟨hregs, hlookup⟩ := lookup_eq getForPc (v.cross P w.machine).1
    refine ⟨_, _, by rw [hmachine], hlookup.trans hboundary, ?_, ?_⟩
    · rw [hregs, hsp]
    · rw [hregs, hpc']
  · cases h

theorem restoredPc_of_step {u : UnwindState} {m : Machine n}
    (h : w.state.step P cfg getForPc w.machine = some (u, m, .ok ())) : ∃ pc, w.restoredPc = some pc := by
  unfold UnwindState.step at h
  unfold Walk.restoredPc
  split at h
  · simp at h
  rename_i hfin
  rw [if_neg hfin]
  cases hability : w.state.unwAbility with
  | cantUnwind => simp [hability] at h
  | canUnwind iter =>
    simp only [hability] at h
    obtain ⟨⟨regs, rest, r⟩, happly, h⟩ := Option.map_eq_some_iff.mp h
    simp only [happly]
    cases r with
    | error e => simp at h
    | ok => exact ⟨_, rfl⟩

/-- A step that does not cross stays on its stacklet. -/
theorem step_of_not_crosses {u : UnwindState} {m : Machine n} (h : ¬ w.crosses cfg = true)
    (hstep : w.state.step P cfg getForPc w.machine = some (u, m, .ok ())) :
    u.stkletBoundary = w.state.stkletBoundary ∧ m = w.machine := by
  unfold Walk.crosses at h
  split at h
  · rename_i pc hpc
    obtain ⟨v, hbound, hrestored, hstep'⟩ := step_of_restoredPc P cfg getForPc hpc
    rw [← hrestored, decide_eq_true_eq] at h
    obtain ⟨hboundary, hmachine⟩ := afterRestore_stay P getForPc h
    have heq := Option.some.inj (hstep.symm.trans hstep')
    rw [← heq] at hboundary hmachine
    exact ⟨hboundary.trans hbound, hmachine⟩
  · rename_i hpc
    obtain ⟨pc, hsome⟩ := restoredPc_of_step hstep
    simp [hsome] at hpc

-- ---------------------------------------------------------------------------
-- Walks
-- ---------------------------------------------------------------------------

theorem Walk.step_cases (h : w.step P cfg getForPc () = some w') :
    (w.crosses cfg = true ∧ ∃ c rest, w.calls = c :: rest ∧ w'.base = w.base ∧ w'.calls = rest ∧
        w'.machine = (w.state.cross P w.machine).2 ∧
        w'.state.stkletBoundary = (w.state.cross P w.machine).1.stkletBoundary) ∨
      (w'.base = w.base ∧ w'.calls = w.calls ∧ w'.machine = w.machine ∧
        w'.state.stkletBoundary = w.state.stkletBoundary) := by
  unfold Walk.step at h
  split at h
  · rename_i u m hstep
    split at h
    · rename_i hcrosses
      obtain ⟨u', r, hstep', hbound, -, -⟩ := step_of_crosses P getForPc hcrosses
      simp only [hstep, Option.some.injEq, Prod.mk.injEq] at hstep'
      obtain ⟨rfl, rfl, -⟩ := hstep'
      split at h
      · cases h
      · rename_i c rest hcalls
        obtain rfl := Option.some.inj h
        exact .inl ⟨hcrosses, c, rest, hcalls, rfl, rfl, rfl, hbound⟩
    · rename_i hcrosses
      obtain ⟨hbound, rfl⟩ := step_of_not_crosses hcrosses hstep
      obtain rfl := Option.some.inj h
      exact .inr ⟨rfl, rfl, rfl, hbound⟩
  · cases h

/-- The chain depends on the boundary and the memory. -/
theorem Walk.Chain.congr (h : w.Chain P prog) (hbase : w'.base = w.base) (hcalls : w'.calls = w.calls)
    (hmachine : w'.machine = w.machine) (hbound : w'.state.stkletBoundary = w.state.stkletBoundary) :
    w'.Chain P prog := by
  obtain ⟨sp, hlayout⟩ := h
  refine ⟨sp, ?_⟩
  rw [Walk.stack, hbase, hcalls, hmachine, hbound]
  exact hlayout

/-- The walk `w'` is `w` after the innermost stacklets up to one of them were crossed. -/
structure Below (P : Platform) (prog : Reg → BitVec 16) (w w' : Walk n) (j : Nat) : Prop where
  chain : w'.Chain P prog
  le : j ≤ w.calls.length
  calls : w'.calls = w.calls.drop j
  live : w'.machine.heap.live =
    w.machine.heap.live.filter fun a => a.1 ∉ (w.calls.take j).map fun c => c.stacklet.1

theorem Below.step {w₁ : Walk n} {j : Nat} (h : Below P prog w w₁ j)
    (hstep : w₁.step P cfg getForPc () = some w') : ∃ j', Below P prog w w' j' := by
  obtain ⟨⟨sp, hlayout⟩, hle, hcalls, hlive⟩ := h
  obtain ⟨-, c, rest, hcons, hbase, hrest, hmachine, hbound⟩ | ⟨hbase, hsame, hmachine, hbound⟩ :=
    Walk.step_cases hstep
  · have hdrop : w.calls.drop j = c :: rest := hcalls.symm.trans hcons
    have hlt : j < w.calls.length := by
      by_contra hge
      rw [List.drop_eq_nil_of_le (by omega)] at hdrop
      cases hdrop
    have hget : w.calls[j]? = some c := by
      have := congrArg List.head? hdrop
      rwa [List.head?_drop] at this
    refine ⟨j + 1, (cross_chain hlayout hcons).congr hbase hrest hmachine hbound, hlt, ?_, ?_⟩
    · rw [hrest, ← List.drop_drop, hdrop, List.drop_one, List.tail_cons]
    · have hcross : w'.machine.heap.live = w₁.machine.heap.live.filter fun a => a.1 ≠ c.stacklet.1 := by
        rw [hmachine]
        simp only [UnwindState.cross, boundary_eq hlayout hcons]
      rw [hcross, hlive, List.filter_filter, List.take_add_one, hget]
      refine List.filter_congr fun a _ => ?_
      simp only [Option.toList_some, List.map_append, List.map_cons, List.map_nil, List.mem_append,
        List.mem_singleton, not_or, Bool.decide_and]
      exact Bool.and_comm _ _
  · refine ⟨j, (show w₁.Chain P prog from ⟨sp, hlayout⟩).congr hbase hsame hmachine hbound, hle,
      hsame.trans hcalls, ?_⟩
    rw [hmachine, hlive]

theorem Below.run {w₁ : Walk n} {j k : Nat} (h : Below P prog w w₁ j)
    (hrun : Run.exec (Walk.step P cfg getForPc) w₁ (List.replicate k ()) = some w') :
    ∃ j', Below P prog w w' j' :=
  Run.exec_inv (fun w' => ∃ j, Below P prog w w' j) (fun ⟨_, h⟩ hstep => h.step hstep) ⟨j, h⟩ hrun

/-- The unwinder goes down a chain of stacklets of any depth as returns do. After any number of
steps it has freed the innermost stacklets, one after the other. When the next step restores the
address of `svc_less_stack`, it leaves the stack pointer, the boundary, the counted size and the
stacklets as `less_stack` and the exception return would, and it goes on at the return address. -/
theorem walk_agrees {k : Nat} (hallow : cfg.allowDynamicStack = true) (hchain : w.Chain P prog)
    (hrun : Run.exec (Walk.step P cfg getForPc) w (List.replicate k ()) = some w') :
    (∃ j ≤ w.calls.length, w'.calls = w.calls.drop j ∧
      w'.machine.heap.live =
        w.machine.heap.live.filter fun a => a.1 ∉ (w.calls.take j).map fun c => c.stacklet.1) ∧
    ∀ c rest, w'.calls = c :: rest → w'.crosses cfg = true → ∀ sp, OnStacklet c.stacklet sp →
      ∃ u m r m', w'.state.step P cfg getForPc w'.machine = some (u, m, r) ∧
        lessStack P cfg (resumedAt w'.machine w'.state.stkletBoundary sp) = some m' ∧
        Agrees w'.machine m m' c.stacklet u := by
  have hstart : Below P prog w w 0 := ⟨hchain, Nat.zero_le _, rfl, by simp⟩
  obtain ⟨j, ⟨sp₀, hlayout⟩, hle, hcalls, hlive⟩ := hstart.run hrun
  refine ⟨⟨j, hle, hcalls, hlive⟩, ?_⟩
  intro c rest hcons hcrosses sp hsp
  have hlayout := layout_moved hlayout (by rw [hcons]; exact hsp)
  obtain ⟨m', hless, hagrees⟩ := cross_agrees hallow hlayout hcons
  obtain ⟨u, r, hstep, hbound, husp, hpc⟩ := step_of_crosses P getForPc hcrosses
  refine ⟨u, _, r, m', hstep, hless, ?_, ?_, ?_, hagrees.cumulated, hagrees.live, hagrees.freed⟩
  · rw [husp, hagrees.sp]
  · rw [hpc, hagrees.pc]
  · rw [hbound, hagrees.bound]

/-- A word of the stacklet at `ptr`, written byte by byte. -/
def writeWord (ptr i : Nat) (bytes : List UInt8) : List Event :=
  bytes.zipIdx.map fun (b, k) => .heap (.write ptr (i + k) b)

/-- A function on a stacklet of its own pushes `r7` and `lr`, and calls another one, which gets a
stacklet too and pushes its registers. -/
def twoFrames : List Event :=
  [.moreStack .normal] ++ writeWord 0x20000240 132 [0x01, 0x01, 0x00, 0x08] ++ [.move 0x20000258] ++
    writeWord 0x20000240 44 [0x01, 0x0c, 0x00, 0x08] ++ [.moreStack .normal] ++
    writeWord 0x200002d8 132 [0x01, 0x01, 0x00, 0x08]

/-- `pop {r7, lr}`. -/
def popFrame (_ : Reg) : Except String UnwindAbility := .ok (.canUnwind ⟨[0xb0, 0x08, 0x84, 0x80], 1, rfl⟩)

/-- The unwinder in a function without a frame that was called on the last stacklet. -/
def leafPanic (s : Stack 1) : Walk 1 where
  state :=
    { regs := ⟨fun r => if r = .lr then 0x08000a01 else if r = .sp then 0x20000358 else 1, fun _ => 0⟩
      unwAbility := .canUnwind ⟨[0xb0, 0xb0, 0xb0, 0x80], 1, rfl⟩
      stkletBoundary := s.machine.ctxt.tls.stkletBound
      isInitial := false }
  machine := s.machine
  base := s.base
  calls := s.calls

/-- A leaf and two functions on stacklets of their own are unwound on a board: the second step has
crossed one stacklet, and the third one crosses the other. -/
theorem walk_agrees_board : ∃ (w w' : Walk 1) (c : OpenCall 1) (u : UnwindState) (m : Machine 1)
    (r : Except String Unit) (m' : Machine 1), w.calls.length = 2 ∧
      Run.exec (Walk.step board boardConfig popFrame) w (List.replicate 2 ()) = some w' ∧ w'.calls = [c] ∧
      w'.state.step board boardConfig popFrame w'.machine = some (u, m, r) ∧
      lessStack board boardConfig (resumedAt w'.machine w'.state.stkletBoundary 0x20000258) = some m' ∧
      Agrees w'.machine m m' c.stacklet u := by
  obtain ⟨client, hheap, hstart⟩ := boardHeap_start
  have hrun : (boardHeap.bind fun c => (Run.exec (Stack.step board boardConfig smallFrames)
      (boardTask (.default 1) c) twoFrames).bind fun s =>
        (Run.exec (Walk.step board boardConfig popFrame) (leafPanic s) (List.replicate 2 ())).map fun w =>
          (s.calls.length, w.calls.map OpenCall.stacklet, w.crosses boardConfig)) =
      some (2, [(0x20000240, 144)], true) := by decide +kernel
  have hok : boardHeap.map (fun c => decide (Run.Allowed (Stack.step board boardConfig smallFrames)
      (Succeeds board boardConfig smallFrames) (boardTask (.default 1) c) twoFrames)) = some true := by
    decide +kernel
  simp only [hheap, Option.bind_some, Option.bind_eq_some_iff, Option.map_eq_some_iff, Prod.mk.injEq] at hrun
  simp only [hheap, Option.map_some, Option.some.injEq, decide_eq_true_eq] at hok
  obtain ⟨s, hrun, w, hwalk, hlength, hstacklets, hcrosses⟩ := hrun
  obtain ⟨c, hcalls, hstacklet⟩ := List.map_eq_singleton_iff.mp hstacklets
  have hlayout : Layout board smallFrames s :=
    Run.exec_inv_of_allowed (Layout board smallFrames) (fun h hok hstep => h.step hok.fits hstep)
      (hstart (.default 1)).layout hok hrun
  have hchain : (leafPanic s).Chain board smallFrames := ⟨s.machine.ctxt.sp, hlayout⟩
  obtain ⟨-, hcross⟩ := walk_agrees (show boardConfig.allowDynamicStack = true from rfl) hchain hwalk
  have hsp : OnStacklet c.stacklet 0x20000258 := by
    rw [hstacklet]
    decide
  obtain ⟨u, m, r, m', hstep, hless, hagrees⟩ := hcross c [] hcalls hcrosses 0x20000258 hsp
  exact ⟨leafPanic s, w, c, u, m, r, m', hlength, hwalk, hcalls, hstep, hless, hagrees⟩

end Hopter.Unwind
