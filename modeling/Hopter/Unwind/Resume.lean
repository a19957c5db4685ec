-- SUMMARY: The unwinder visits the landing pads of a call stack one after the other, innermost first.
import Hopter.Unwind.Lsda
import Hopter.Unwind.Prologue
import Hopter.Unwind.Crossing

/-!
# Resuming the unwinder

`resume_unwind` in `src/unwind/unwind.rs` goes from one stack frame to the next until a frame has a
landing pad. The landing pad runs the destructors of the frame and ends with `_Unwind_Resume`, which
calls `resume_unwind` again with the state that was left there.

A call stack is a list of activations, innermost first. Some of them run on a stacklet of their
own, and then the unwinder crosses to the stacklet below when it leaves them. The list ends with the
frame of `catch_unwind` that catches the panic: its landing pad does not resume, so the functions
that have called it, down to the one that returns to `svc_destroy_current_task`, are not unwound.
-/

namespace Hopter.Unwind

open Hopter.Allocator Hopter.Task

-- ---------------------------------------------------------------------------
-- The loop
-- ---------------------------------------------------------------------------

/-- `LandInfo`, with the registers that its pointers point to. -/
structure LandInfo where
  statePtr : Reg
  landAddr : Reg
  regs : Regs

section

variable {R : Type} [Reader R] {n : Nat} (P : Platform) (cfg : Task.Config)
  (getForPc : Reg → Except String (UnwindAbility × Option (LSDA R))) (fuel : Nat) (unwStatePtr : Reg)

/-- The loop of `resume_unwind`, with fuel for the frames and for each table of call sites. `none`
is the end of the system, or a loop that did not end. -/
def UnwindFrame.resumeUnwind :
    Nat → UnwindFrame R → Machine n → Option (LandInfo × UnwindFrame R × Machine n)
  | 0, _, _ => none
  | frames + 1, f, s =>
    (f.unwindNextFunction P cfg getForPc fuel unwStatePtr s).bind fun (land, f, s) =>
      match land with
      | some landAddr => some (⟨unwStatePtr, landAddr, f.regs⟩, f, s)
      | none => UnwindFrame.resumeUnwind frames f s

end

-- ---------------------------------------------------------------------------
-- Activations
-- ---------------------------------------------------------------------------

/-- A function that was called and has not returned. -/
structure Activation (n : Nat) where
  prologue : List PrologueInstr
  /-- The unwind program of its table entry. -/
  program : List Byte
  callSites : List CallSiteTableEntry
  /-- The call that gave it a stacklet of its own. -/
  extension : Option (OpenCall n)
  /-- The registers when it was called. The link register has the return address. -/
  entry : Regs
  /-- The registers at the call that it waits for. -/
  regs : Regs

namespace Activation

variable {n : Nat}

def words (a : Activation n) : List (Nat × Reg) := pushedWords a.prologue a.entry

/-- Where the activation lands. -/
def landing (a : Activation n) : Option Reg := Unwind.landing a.callSites (a.regs.gp .pc)

/-- Where the caller goes on. -/
def returnAddress (a : Activation n) : Reg :=
  match a.extension with
  | none => a.entry.gp .lr
  | some c => c.before.tf.lr

/-- The stack pointer of the caller. -/
def callerSp (a : Activation n) : Reg :=
  match a.extension with
  | none => a.entry.gp .sp
  | some c => returnSp c.before

/-- The unwind program undoes the prologue, the return address was saved, and the words that were
pushed are intact on the stacklet `st`. -/
structure Intact (m : Mem) (st : Nat × Nat) (a : Activation n) : Prop where
  valid : Valid a.prologue
  program : Program a.prologue a.program
  lr : .lr ∈ a.prologue.flatMap PrologueInstr.savedGp
  body : InBody a.prologue a.entry m a.regs
  inside : ∀ w ∈ a.words, st.1 ≤ w.1 ∧ w.1 + 4 ≤ st.1 + st.2
  running : a.regs.gp .pc ≠ 0

/-- The activation `a` was called by `b`. The caller keeps its registers across the call. -/
structure CalledBy (cfg : Task.Config) (a b : Activation n) : Prop where
  callee : ∀ r, b.regs.gp (calleeReg r) = a.entry.gp (calleeReg r)
  dpfp : b.regs.dpfp = a.entry.dpfp
  sp : b.regs.gp .sp = a.callerSp
  pc : b.regs.gp .pc = a.returnAddress - 2
  lr : a.entry.gp .lr ≠ 0
  less : a.entry.gp .lr = cfg.svcLessStack ↔ a.extension.isSome = true

end Activation

/-- The calls that extended the stack. -/
def extensions {n : Nat} (acts : List (Activation n)) : List (OpenCall n) := acts.filterMap Activation.extension

/-- A call stack, innermost first, down to the function that catches the panic. The stacklet `base` is
the one below those of the calls that extended the stack. -/
inductive Frames {n : Nat} (cfg : Task.Config) (m : Mem) (base : Nat × Nat) : List (Activation n) → Prop
  | catching {a : Activation n} (h : a.Intact m (currentStacklet base (extensions [a])))
      (hland : a.landing.isSome = true) : Frames cfg m base [a]
  | call {a b : Activation n} {acts : List (Activation n)}
      (h : a.Intact m (currentStacklet base (extensions (a :: b :: acts)))) (hcall : a.CalledBy cfg b)
      (hrest : Frames cfg m base (b :: acts)) : Frames cfg m base (a :: b :: acts)

/-- The registers of the unwinder are those of a function at its call, as far as it keeps them. -/
structure AtCall (regs u : Regs) : Prop where
  callee : ∀ r, u.gp (calleeReg r) = regs.gp (calleeReg r)
  dpfp : u.dpfp = regs.dpfp
  sp : u.gp .sp = regs.gp .sp
  pc : u.gp .pc = regs.gp .pc

section

variable {R : Type} [Reader R] {n : Nat} (slice : R → Slice Byte) (P : Platform) (cfg : Task.Config)
  (prog : Reg → BitVec 16)

/-- What the tables say about an activation. -/
structure Describes (a : Activation n) (ability : UnwindAbility) (lsda : Option (LSDA R)) : Prop where
  ability : ∃ iter k, ability = .canUnwind iter ∧ iter.toList = a.program ++ List.replicate k 0xb0
  entries : HasEntries slice lsda a.callSites

/-- The unwinder is at the innermost of some activations. -/
structure UnwindFrame.At (base : Nat × Nat) (f : UnwindFrame R) (s : Machine n) (a : Activation n)
    (acts : List (Activation n)) : Prop where
  frames : Frames cfg s.mem base (a :: acts)
  chain : Walk.Chain P prog ⟨f.toUnwindState, s, base, extensions (a :: acts)⟩
  regs : AtCall a.regs f.regs
  tables : Describes slice a f.unwAbility f.lsda

end

-- ---------------------------------------------------------------------------
-- What a stack relies on
-- ---------------------------------------------------------------------------

section Keep

variable {n : Nat} {cfg : Task.Config} {m m' : Mem} {st base : Nat × Nat} {a b : Activation n}
  {acts : List (Activation n)} {p : List PrologueInstr} {caller regs u : Regs}

theorem preserved_cases : ∀ r ∈ preserved, r = .lr ∨ ∃ i, calleeReg i = r := by decide

/-- A function that saved its return address is in its body whatever the link register holds. -/
theorem InBody.atCall (hbody : InBody p caller m regs) (hlr : .lr ∈ p.flatMap PrologueInstr.savedGp)
    (h : AtCall regs u) : InBody p caller m u := by
  obtain ⟨hwords, hgp, hfp, hdpfp, hsp⟩ := hbody
  refine ⟨hwords, ?_, ?_, ?_, ?_⟩
  · intro r hr hnot
    rcases preserved_cases r hr with rfl | ⟨i, rfl⟩
    · exact absurd hlr hnot
    · rw [h.callee, hgp _ hr hnot]
  · intro r offset hmem
    rw [h.callee, hfp r offset hmem]
  · intro d hnot
    rw [h.dpfp, hdpfp d hnot]
  · intro hneeds
    rw [h.sp, hsp hneeds]

theorem Activation.Intact.keep (h : a.Intact m st) (hwords : ∀ w ∈ a.words, word m' w.1 = word m w.1) :
    a.Intact m' st :=
  ⟨h.valid, h.program, h.lr, { h.body with words := fun w hw => (hwords w hw).trans (h.body.words w hw) },
    h.inside, h.running⟩

/-- A stack is intact as long as the words that its functions have pushed are. -/
theorem Frames.keep (h : Frames cfg m base acts)
    (hwords : ∀ a ∈ acts, ∀ w ∈ a.words, word m' w.1 = word m w.1) : Frames cfg m' base acts := by
  induction h with
  | catching h hland => exact .catching (h.keep (hwords _ List.mem_cons_self)) hland
  | call h hcall _ ih =>
    exact .call (h.keep (hwords _ List.mem_cons_self)) hcall
      (ih fun a ha => hwords a (List.mem_cons_of_mem _ ha))

theorem Frames.intact (h : Frames cfg m base (a :: acts)) :
    a.Intact m (currentStacklet base (extensions (a :: acts))) := by
  cases h with
  | catching h => exact h
  | call h => exact h

@[simp] theorem extensions_none (h : a.extension = none) : extensions (a :: acts) = extensions acts := by
  simp [extensions, h]

@[simp] theorem extensions_some {c : OpenCall n} (h : a.extension = some c) :
    extensions (a :: acts) = c :: extensions acts := by
  simp [extensions, h]

/-- The words that a stack relies on are on its stacklets. -/
theorem Frames.word_inside (h : Frames cfg m base acts) :
    ∀ a ∈ acts, ∀ w ∈ a.words, ∃ st ∈ stacklets base (extensions acts), st.1 ≤ w.1 ∧ w.1 + 4 ≤ st.1 + st.2 := by
  induction h with
  | @catching a h =>
    intro a' ha w hw
    obtain rfl := List.mem_singleton.mp ha
    exact ⟨_, currentStacklet_mem _ _, h.inside w hw⟩
  | @call a b acts h _ _ ih =>
    intro a' ha w hw
    rcases List.mem_cons.mp ha with rfl | ha
    · exact ⟨_, currentStacklet_mem _ _, h.inside w hw⟩
    · obtain ⟨st, hst, hinside⟩ := ih a' ha w hw
      refine ⟨st, ?_, hinside⟩
      cases hext : a.extension with
      | none => rwa [extensions_none hext]
      | some c =>
        rw [extensions_some hext, stacklets_cons]
        exact List.mem_cons_of_mem _ hst

/-- Memory that keeps the stacklets keeps the stack. -/
theorem Frames.congr (h : Frames cfg m base acts)
    (hbytes : ∀ st ∈ stacklets base (extensions acts), ∀ i < st.2, m' (st.1 + i) = m (st.1 + i)) :
    Frames cfg m' base acts := by
  refine h.keep fun a ha w hw => ?_
  obtain ⟨st, hst, hlo, hhi⟩ := h.word_inside a ha w hw
  refine word_congr fun y hy hy' => ?_
  have := hbytes st hst (y - st.1) (by omega)
  rwa [show st.1 + (y - st.1) = y by omega] at this

end Keep

-- ---------------------------------------------------------------------------
-- From a frame to that of its caller
-- ---------------------------------------------------------------------------

section Step

variable {R : Type} [Reader R] {n : Nat} {slice : R → Slice Byte} {P : Platform} {cfg : Task.Config}
  {prog : Reg → BitVec 16} {getForPc : Reg → Except String UnwindAbility}
  {tables : Reg → Except String (UnwindAbility × Option (LSDA R))} {base : Nat × Nat}
  {p : List PrologueInstr} {bytes : List Byte} {iter : UnwindByteIter} {caller : Regs} {k : Nat}
  {u : UnwindState} {f : UnwindFrame R} {s : Machine n} {a b : Activation n} {acts : List (Activation n)}

/-- The registers when the unwind program was applied: those of the caller, and no program counter
yet. -/
structure Undid (caller : Regs) (u v : UnwindState) : Prop where
  callee : ∀ r, v.regs.gp (calleeReg r) = caller.gp (calleeReg r)
  dpfp : v.regs.dpfp = caller.dpfp
  sp : v.regs.gp .sp = caller.gp .sp
  lr : v.regs.gp .lr = caller.gp .lr
  pc : v.regs.gp .pc = ~~~0
  bound : v.stkletBoundary = u.stkletBoundary
  initial : v.isInitial = u.isInitial

variable (P cfg getForPc) in
theorem step_undid (hvalid : Valid p) (hprog : Program p bytes) (hentry : u.unwAbility = .canUnwind iter)
    (hiter : iter.toList = bytes ++ List.replicate k 0xb0) (hbody : InBody p caller s.mem u.regs)
    (hrunning : u.regs.gp .pc ≠ 0) :
    ∃ v, u.step P cfg getForPc s = some (v.afterRestore P cfg getForPc s) ∧ Undid caller u v ∧
      ∃ iter', v.unwAbility = .canUnwind iter' := by
  have hfin : ¬ u.hasFinished = true := by simpa [UnwindState.hasFinished] using hrunning
  obtain ⟨regs, happly, hcaller, hpc⟩ := hbody.setPc.undo_all hvalid hprog
  rw [Regs.setGp_gp_same] at hpc
  obtain ⟨hgp, hdpfp, hsp⟩ := hcaller.entry
  have happly : applyInstrs s.mem iter.toList (u.regs.setGp .pc (~~~0)) = some (regs, [], .ok ()) := by
    rw [hiter, happly, applyInstrs_padding]
  rw [UnwindState.step, if_neg hfin, hentry]
  simp only [happly, Option.map_some]
  exact ⟨_, rfl, ⟨fun r => hgp _ (calleeReg_mem_preserved r), hdpfp, hsp, hgp _ (by decide), hpc, rfl, rfl⟩, _, rfl⟩

theorem withPc_eq {v : UnwindState} (h : Undid caller u v) : withPc v.regs = v.regs.setGp .pc (caller.gp .lr) := by
  rw [withPc, if_pos h.pc, h.lr]

omit [Reader R] in
/-- What a step looks up for the frame that it gets to. -/
theorem lookup_of_ok {pc : Reg} {ability : UnwindAbility} {lsda : Option (LSDA R)} (hpc : u.regs.gp .pc = pc)
    (h : tables pc = .ok (ability, lsda)) :
    u.lookup (fun pc => (tables pc).map Prod.fst) = ({ u with unwAbility := ability }, .ok ()) := by
  rw [UnwindState.lookup, hpc, h]
  rfl

/-- Crossing goes to where the call that extended the stack was made. -/
theorem cross_before {w : Walk n} {c : OpenCall n} {rest : List (OpenCall n)} {sp : Reg}
    (h : Layout P prog (w.stack sp)) (hcalls : w.calls = c :: rest) :
    (w.state.cross P w.machine).1.regs.gp .sp = returnSp c.before ∧
      (w.state.cross P w.machine).1.regs.gp .pc = c.before.tf.lr - 2 ∧
      (w.state.cross P w.machine).2.heap.live = w.machine.heap.live.filter (fun st => st.1 ≠ c.stacklet.1) ∧
      ∀ st ∈ stacklets w.base rest, ∀ i < st.2,
        (w.state.cross P w.machine).2.mem (st.1 + i) = w.machine.mem (st.1 + i) := by
  have hptr := boundary_eq h hcalls
  have hkept : c.Kept prog w.machine.mem := h.kept c (by simp [Walk.stack, hcalls])
  have hframe : TrapFrame.load w.machine.mem c.before.ctxt.sp.toNat = c.before.tf :=
    TrapFrame.load_congr hkept.frame
  have hmem : c.stacklet ∈ stacklets w.base w.calls := OpenCall.mem_stacklets (by simp [hcalls])
  obtain ⟨cs, ls, hinv⟩ := h.heap
  obtain ⟨-, hbytes⟩ := hinv.mcuFree_spec (List.mem_map_of_mem (h.live _ hmem))
  refine ⟨?_, ?_, ?_, ?_⟩
  · simp only [UnwindState.cross, hptr, hkept.sp, Regs.setGp_gp_same, tfSizeAt, hframe]
    rfl
  · simp only [UnwindState.cross, hptr, hkept.sp, Regs.setGp_gp_ne (show ARMGPReg.pc ≠ .sp by decide),
      Regs.setGp_gp_same, hframe]
  · simp only [UnwindState.cross, hptr]
  · intro st hst i hi
    have hdistinct := h.distinct
    have hlive := h.live st
    simp only [Walk.stack, hcalls, stacklets_cons, List.map_cons, List.nodup_cons] at hdistinct hlive
    have hne : st.1 ≠ c.stacklet.1 := fun heq => hdistinct.1 (heq ▸ List.mem_map_of_mem hst)
    simp only [UnwindState.cross, hptr]
    exact hbytes st (hlive (List.mem_cons_of_mem _ hst)) hne i hi

omit [Reader R] in
/-- A step to the caller on the same stacklet. -/
theorem afterRestore_called {v : UnwindState} {ability : UnwindAbility} {lsda : Option (LSDA R)}
    (h : Undid a.entry u v) (hcall : a.CalledBy cfg b) (hext : a.extension = none)
    (htable : tables (b.regs.gp .pc) = .ok (ability, lsda)) :
    ∃ u', v.afterRestore P cfg (fun pc => (tables pc).map Prod.fst) s = (u', s, .ok ()) ∧ AtCall b.regs u'.regs ∧
      u'.unwAbility = ability ∧ u'.stkletBoundary = u.stkletBoundary ∧ u'.isInitial = u.isInitial := by
  have hpc : b.regs.gp .pc = a.entry.gp .lr - 2 := by rw [hcall.pc, Activation.returnAddress, hext]
  have hsp : b.regs.gp .sp = a.entry.gp .sp := by rw [hcall.sp, Activation.callerSp, hext]
  have hless : a.entry.gp .lr ≠ cfg.svcLessStack := by
    intro heq
    have hsome := hcall.less.mp heq
    simp [hext] at hsome
  have hrestore := withPc_eq h
  simp only [withPc] at hrestore
  simp only [UnwindState.afterRestore, hrestore, Regs.setGp_gp_same, if_neg hcall.lr, if_neg hless,
    Regs.setGp_setGp]
  rw [lookup_of_ok (u := { v with regs := v.regs.setGp .pc (a.entry.gp .lr - 2) })
    (hpc ▸ Regs.setGp_gp_same) htable]
  refine ⟨_, rfl, ⟨fun r => ?_, h.dpfp.trans hcall.dpfp.symm, ?_, ?_⟩, rfl, h.bound, h.initial⟩
  · rw [Regs.setGp_gp_ne (calleeReg_ne_pc r), h.callee, hcall.callee]
  · rw [Regs.setGp_gp_ne (by decide), h.sp, hsp]
  · rw [Regs.setGp_gp_same, hpc]

omit [Reader R] in
/-- A step to the caller on the stacklet below. -/
theorem afterRestore_extended {v : UnwindState} {ability : UnwindAbility} {lsda : Option (LSDA R)}
    {c : OpenCall n} {rest : List (OpenCall n)} {sp : Reg} (h : Undid a.entry u v) (hcall : a.CalledBy cfg b)
    (hext : a.extension = some c) (hlayout : Layout P prog (Walk.stack ⟨u, s, base, c :: rest⟩ sp))
    (htable : tables (b.regs.gp .pc) = .ok (ability, lsda)) :
    ∃ u', v.afterRestore P cfg (fun pc => (tables pc).map Prod.fst) s = (u', (u.cross P s).2, .ok ()) ∧
      AtCall b.regs u'.regs ∧ u'.unwAbility = ability ∧ u'.stkletBoundary = (u.cross P s).1.stkletBoundary ∧
      u'.isInitial = u.isInitial := by
  obtain ⟨hcrossSp, hcrossPc, -, -⟩ := cross_before hlayout rfl
  have hpc : b.regs.gp .pc = c.before.tf.lr - 2 := by rw [hcall.pc, Activation.returnAddress, hext]
  have hsp : b.regs.gp .sp = returnSp c.before := by rw [hcall.sp, Activation.callerSp, hext]
  have hless : a.entry.gp .lr = cfg.svcLessStack := hcall.less.mpr (by simp [hext])
  have hrestored : (withPc v.regs).gp .pc = a.entry.gp .lr := by rw [withPc_eq h, Regs.setGp_gp_same]
  rw [afterRestore_cross (hrestored ▸ hcall.lr) (hrestored.trans hless)]
  let w : UnwindState := { v with regs := withPc v.regs }
  have hw : w.stkletBoundary = u.stkletBoundary := h.bound
  obtain ⟨hmachine, hbound, hcongrSp, hcongrPc⟩ := cross_congr (P := P) (m := s) hw
  have hpc' := hcongrPc.trans (hcrossPc.trans hpc.symm)
  rw [lookup_of_ok hpc' htable, hmachine]
  refine ⟨_, rfl, ⟨fun r => ?_, ?_, hcongrSp.trans (hcrossSp.trans hsp.symm), hpc'⟩, rfl, hbound, h.initial⟩
  · rw [hcall.callee, ← h.callee r]
    simp only [UnwindState.cross, w, withPc_eq h]
    rw [Regs.setGp_gp_ne (calleeReg_ne_sp r), Regs.setGp_gp_ne (calleeReg_ne_pc r),
      Regs.setGp_gp_ne (calleeReg_ne_pc r)]
  · rw [hcall.dpfp, ← h.dpfp]
    simp only [UnwindState.cross, w, withPc_eq h, Regs.setGp_dpfp]

/-- The stacklets of the functions that extended the stack. -/
def stackletsOf (acts : List (Activation n)) : List Nat := (extensions acts).map fun c => c.stacklet.1

theorem filter_stackletsOf (a : Activation n) {l : List (Nat × Nat)} :
    (l.filter fun st => st.1 ∉ stackletsOf [a]).filter (fun st => st.1 ∉ stackletsOf acts) =
      l.filter fun st => st.1 ∉ stackletsOf (a :: acts) := by
  cases hext : a.extension with
  | none =>
    have hcons : ∀ bs, stackletsOf (a :: bs) = stackletsOf bs := by
      intro bs
      rw [stackletsOf, extensions_none hext]
      rfl
    rw [hcons, hcons]
    simp [stackletsOf, extensions]
  | some c =>
    have hcons : ∀ bs, stackletsOf (a :: bs) = c.stacklet.1 :: stackletsOf bs := fun bs => by
      rw [stackletsOf, extensions_some hext]; rfl
    rw [hcons, hcons, List.filter_filter]
    refine List.filter_congr fun st _ => ?_
    rw [Bool.eq_iff_iff]
    simp only [Bool.and_eq_true, decide_eq_true_eq, List.mem_cons, not_or]
    simp [stackletsOf, extensions, and_comm]

/-- What the tables say about the functions of a stack. -/
def Described (slice : R → Slice Byte) (tables : Reg → Except String (UnwindAbility × Option (LSDA R)))
    (acts : List (Activation n)) : Prop :=
  ∀ a ∈ acts, ∃ ability lsda, tables (a.regs.gp .pc) = .ok (ability, lsda) ∧ Describes slice a ability lsda

omit [Reader R] in
/-- The unwinder steps from a function to the one that called it, and frees the stacklet that was
left. -/
theorem UnwindFrame.At.step (h : f.At slice P cfg prog base s a (b :: acts))
    (hdesc : Described slice tables (b :: acts)) :
    ∃ f' s', f.step P cfg tables s = some (f', s', .ok ()) ∧ f'.At slice P cfg prog base s' b acts ∧
      f'.isInitial = f.isInitial ∧
      s'.heap.live = s.heap.live.filter (fun st => st.1 ∉ stackletsOf [a]) := by
  obtain ⟨hframes, ⟨sp, hlayout⟩, hregs, ⟨iter, k, hability, hiter⟩, -⟩ := h
  obtain ⟨ability, lsda, htable, hdescribes⟩ := hdesc b List.mem_cons_self
  have hintact := hframes.intact
  have hpc : f.regs.gp .pc ≠ 0 := hregs.pc ▸ hintact.running
  obtain ⟨v, hstep, hundid, -⟩ := step_undid P cfg
    (fun pc => (tables pc).map Prod.fst) hintact.valid hintact.program hability hiter
    (hintact.body.atCall hintact.lr hregs) hpc
  cases hframes with
  | call _ hcall hrest =>
    have hrunning : b.regs.gp .pc ≠ 0 := hrest.intact.running
    have hlsda : ∀ u' : UnwindState, AtCall b.regs u'.regs → f.lsdaAfter tables u' (.ok ()) = lsda := by
      intro u' hat
      have hfin : ¬ u'.hasFinished = true := by simpa [UnwindState.hasFinished, hat.pc] using hrunning
      simp only [UnwindFrame.lsdaAfter, if_neg hfin, hat.pc, htable]
    cases hext : a.extension with
    | none =>
      obtain ⟨u', hrestore, hat, hability', hbound, hinitial⟩ :=
        afterRestore_called (s := s) (P := P) hundid hcall hext htable
      rw [extensions_none hext] at hlayout
      refine ⟨⟨u', lsda⟩, s, ?_, ⟨hrest, ?_, hat, hability' ▸ hdescribes⟩, hinitial, ?_⟩
      · rw [UnwindFrame.step, hstep, hrestore]
        simp only [Option.map_some, hlsda u' hat]
      · exact Walk.Chain.congr (w := ⟨f.toUnwindState, s, base, extensions (b :: acts)⟩) ⟨sp, hlayout⟩ rfl rfl rfl
          hbound
      · simp [stackletsOf, extensions, hext]
    | some c =>
      rw [extensions_some hext] at hlayout
      obtain ⟨u', hrestore, hat, hability', hbound, hinitial⟩ :=
        afterRestore_extended (s := s) hundid hcall hext hlayout htable
      obtain ⟨-, -, hlive, hbytes⟩ := cross_before hlayout rfl
      refine ⟨⟨u', lsda⟩, _, ?_, ⟨hrest.congr hbytes, ?_, hat, hability' ▸ hdescribes⟩, hinitial, ?_⟩
      · rw [UnwindFrame.step, hstep, hrestore]
        simp only [Option.map_some, hlsda u' hat]
      · exact (cross_chain hlayout rfl).congr rfl rfl rfl hbound
      · rw [hlive]
        simp [stackletsOf, extensions, hext]

-- ---------------------------------------------------------------------------
-- The next landing pad
-- ---------------------------------------------------------------------------

variable {fuel frames : Nat} {unwStatePtr : Reg} {g : UnwindFrame R} {s' : Machine n}

variable (unwStatePtr) in
/-- What is found in the table of the frame that the unwinder gets to. -/
theorem unwindNextFunction_eq (hR : LawfulReader slice) {es : List CallSiteTableEntry}
    (hadvance : f.advance P cfg tables s = some (g, s', .ok ())) (hability : g.unwAbility = .canUnwind iter)
    (hes : HasEntries slice g.lsda es) (hfuel : es.length < fuel) :
    f.unwindNextFunction P cfg tables fuel unwStatePtr s =
      some ((g.landed unwStatePtr es).1, (g.landed unwStatePtr es).2, s') := by
  rw [UnwindFrame.unwindNextFunction, hadvance, Option.bind_some]
  simp only [hability]
  generalize hlsda : g.lsda = l at hes
  cases hes with
  | noLsda => rfl
  | lsda h hslice =>
    simp only [callSiteTableEntryForAddress_eq hR h hslice hfuel, Option.map_some, land_eq]

omit [Reader R] in
theorem AtCall.saveUnwStatePtr {regs : Regs} (h : AtCall regs f.regs) :
    AtCall regs (f.saveUnwStatePtr unwStatePtr).regs := by
  refine ⟨fun r => ?_, h.dpfp, ?_, ?_⟩
  · have hne : calleeReg r ≠ .r0 := by
      revert r
      decide
    exact (Regs.setGp_gp_ne hne).trans (h.callee r)
  · exact (Regs.setGp_gp_ne (by decide)).trans h.sp
  · exact (Regs.setGp_gp_ne (by decide)).trans h.pc

omit [Reader R] in
theorem UnwindFrame.At.saveUnwStatePtr (h : f.At slice P cfg prog base s a acts) :
    (f.saveUnwStatePtr unwStatePtr).At slice P cfg prog base s a acts :=
  ⟨h.frames, h.chain.congr rfl rfl rfl rfl, h.regs.saveUnwStatePtr, h.tables⟩

/-- The unwinder, told to land, has stopped at `b` with the registers of `b`. -/
structure Lands (slice : R → Slice Byte) (P : Platform) (cfg : Task.Config) (prog : Reg → BitVec 16)
    (base : Nat × Nat) (unwStatePtr : Reg) (b : Activation n) (acts : List (Activation n)) (info : LandInfo)
    (f : UnwindFrame R) (s : Machine n) : Prop where
  here : f.At slice P cfg prog base s b acts
  initial : f.isInitial = false
  statePtr : info.statePtr = unwStatePtr
  landAddr : b.landing = some info.landAddr
  regs : AtCall b.regs info.regs
  r0 : info.regs.gp .r0 = unwStatePtr

variable (unwStatePtr frames) in
/-- At a frame that the unwinder got to, it lands or goes on. -/
theorem resumeUnwind_arrived (hR : LawfulReader slice)
    (hadvance : f.advance P cfg tables s = some (g, s', .ok ())) (h : g.At slice P cfg prog base s' a acts)
    (hinitial : g.isInitial = false) (hfuel : a.callSites.length < fuel) :
    (a.landing = none ∧ f.resumeUnwind P cfg tables fuel unwStatePtr (frames + 1) s =
        g.resumeUnwind P cfg tables fuel unwStatePtr frames s') ∨
      ∃ info f', f.resumeUnwind P cfg tables fuel unwStatePtr (frames + 1) s = some (info, f', s') ∧
        Lands slice P cfg prog base unwStatePtr a acts info f' s' := by
  obtain ⟨⟨iter, k, hability, -⟩, hes⟩ := h.tables
  have hnext := unwindNextFunction_eq unwStatePtr hR hadvance hability hes hfuel
  have hlanding : Unwind.landing a.callSites (g.regs.gp .pc) = a.landing := by
    rw [Activation.landing, h.regs.pc]
  rw [UnwindFrame.resumeUnwind, hnext, Option.bind_some]
  simp only [UnwindFrame.landed, hlanding]
  cases hland : a.landing with
  | none => exact .inl ⟨rfl, rfl⟩
  | some addr =>
    exact .inr ⟨_, _, rfl, h.saveUnwStatePtr, hinitial, rfl, hland, h.regs.saveUnwStatePtr, Regs.setGp_gp_same⟩

omit [Reader R] in
theorem advance_of_not_initial (h : f.isInitial = false) : f.advance P cfg tables s = f.step P cfg tables s := by
  rw [UnwindFrame.advance, if_neg (by simp [h])]

/-- A function without a landing pad is not the one that catches the panic. -/
theorem Frames.exists_caller {m : Mem} (h : Frames cfg m base (a :: acts)) (hland : a.landing = none) :
    ∃ b rest, acts = b :: rest ∧ Frames cfg m base (b :: rest) := by
  cases h with
  | catching _ hsome => simp [hland] at hsome
  | call _ _ hrest => exact ⟨_, _, rfl, hrest⟩

variable (unwStatePtr) in
/-- From a frame that was left, the unwinder goes to the next one that has a landing pad. -/
theorem resumeUnwind_next (hR : LawfulReader slice) (h : f.At slice P cfg prog base s a (b :: acts))
    (hinitial : f.isInitial = false) (hdesc : Described slice tables (b :: acts))
    (hfuel : ∀ x ∈ a :: b :: acts, x.callSites.length < fuel) (hframes : acts.length + 1 < frames) :
    ∃ left c rest info f' s', b :: acts = left ++ c :: rest ∧ (∀ x ∈ left, x.landing = none) ∧
      f.resumeUnwind P cfg tables fuel unwStatePtr frames s = some (info, f', s') ∧
      Lands slice P cfg prog base unwStatePtr c rest info f' s' ∧
      s'.heap.live = s.heap.live.filter (fun st => st.1 ∉ stackletsOf (a :: left)) := by
  induction frames generalizing f s a b acts with
  | zero => cases hframes
  | succ frames ih =>
    obtain ⟨g, s₁, hstep, hat, hsame, hlive⟩ := h.step hdesc
    have hadvance := (advance_of_not_initial hinitial).trans hstep
    have hfuel := fun x hx => hfuel x (List.mem_cons_of_mem _ hx)
    rcases resumeUnwind_arrived frames unwStatePtr hR hadvance hat
      (hsame.trans hinitial) (hfuel b List.mem_cons_self) with ⟨hnone, heq⟩ | ⟨info, f', heq, hlands⟩
    · obtain ⟨c, acts, rfl, -⟩ := hat.frames.exists_caller hnone
      obtain ⟨left, d, rest, info, f', s', hsplit, hleft, hres, hlands, hlive'⟩ :=
        ih hat (hsame.trans hinitial) (fun x hx => hdesc x (List.mem_cons_of_mem _ hx)) hfuel
          (Nat.lt_of_succ_lt_succ hframes)
      refine ⟨b :: left, d, rest, info, f', s', congrArg _ hsplit, List.forall_mem_cons.mpr ⟨hnone, hleft⟩,
        heq.trans hres, hlands, ?_⟩
      rw [hlive', hlive, filter_stackletsOf]
    · exact ⟨[], b, acts, info, f', s₁, rfl, by simp, heq, hlands, hlive⟩

end Step

-- ---------------------------------------------------------------------------
-- Runs of landing pads
-- ---------------------------------------------------------------------------

/-- A task whose stack is being unwound, with the functions on it that are left. -/
structure Unwinding (R : Type) (n : Nat) where
  frame : UnwindFrame R
  machine : Machine n
  stack : List (Activation n)
  landed : List LandInfo

inductive UnwindingEvent (n : Nat) where
  /-- `start_unwind_entry` the first time, and then `_Unwind_Resume`. -/
  | resume
  /-- The landing pad has run, and it has left the machine like this. -/
  | cleanup (machine : Machine n)

section Runs

variable {R : Type} [Reader R] {n : Nat} (slice : R → Slice Byte) (P : Platform) (cfg : Task.Config)
  (prog : Reg → BitVec 16) (tables : Reg → Except String (UnwindAbility × Option (LSDA R))) (fuel : Nat)
  (unwStatePtr : Reg) (frames : Nat) (base : Nat × Nat)

/-- The functions from the next one on that the unwinder lands in. -/
def nextStack (initial : Bool) (stack : List (Activation n)) : List (Activation n) :=
  (if initial = true then stack else stack.tail).dropWhile fun a => a.landing.isNone

/-- The functions that are to come. -/
def Unwinding.ahead (w : Unwinding R n) : List (Activation n) :=
  if w.frame.isInitial = true then w.stack else w.stack.tail

/-- The unwinder has landed in the last function, which catches the panic. -/
def Unwinding.caught (w : Unwinding R n) : Bool := w.ahead.isEmpty

/-- The landing pad that catches the panic does not resume. -/
def Unwinding.step (w : Unwinding R n) : UnwindingEvent n → Option (Unwinding R n)
  | .resume =>
    if w.caught = true then none
    else (w.frame.resumeUnwind P cfg tables fuel unwStatePtr frames w.machine).map fun (info, f, s) =>
      { frame := f
        machine := s
        stack := nextStack w.frame.isInitial w.stack
        landed := w.landed ++ [info] }
  | .cleanup s => if w.landed = [] then none else some { w with machine := s }

/-- What a landing pad may do: it keeps the heap, the stacklets of the stack, and what the
functions on the stack have saved. -/
structure Spares (w : Unwinding R n) (s : Machine n) : Prop where
  heap : ∃ cs ls, s.heap.Inv P cs ls
  live : ∀ st ∈ stacklets base (extensions w.stack), st ∈ s.heap.live
  ranges : ∀ c ∈ extensions w.stack, ∀ r ∈ c.ranges, w.machine.mem.AgreeOn s.mem r.1 (r.1 + r.2)
  words : ∀ a ∈ w.stack, ∀ x ∈ a.words, word s.mem x.1 = word w.machine.mem x.1

def Unwinding.Fits (w : Unwinding R n) : UnwindingEvent n → Prop
  | .resume => True
  | .cleanup s => Spares P base w s

/-- The functions of a stack that have a landing pad. -/
def pads (acts : List (Activation n)) : List (Activation n) := acts.filter fun a => a.landing.isSome

/-- The unwinder has landed in `a`. -/
structure LandedIn (info : LandInfo) (a : Activation n) : Prop where
  statePtr : info.statePtr = unwStatePtr
  landAddr : a.landing = some info.landAddr
  regs : AtCall a.regs info.regs
  r0 : info.regs.gp .r0 = unwStatePtr

/-- A stack that is about to be unwound. -/
structure Unwinding.Starts (w : Unwinding R n) (a : Activation n) (acts : List (Activation n)) : Prop where
  here : w.frame.At slice P cfg prog base w.machine a acts
  initial : w.frame.isInitial = true
  stack : w.stack = a :: acts
  landed : w.landed = []

/-- The landing pads of the whole stack are those that were visited and those ahead. -/
structure Unwinding.Inv (all : List (Activation n)) (w : Unwinding R n) : Prop where
  here : ∃ a acts, w.stack = a :: acts ∧ w.frame.At slice P cfg prog base w.machine a acts
  stack : w.stack <:+ all
  start : w.frame.isInitial = true → w.landed = []
  visited : ∃ done, List.Forall₂ (LandedIn unwStatePtr) w.landed done ∧ pads all = done ++ pads w.ahead

variable {slice P cfg prog tables fuel unwStatePtr frames base} {w w' : Unwinding R n} {s : Machine n}
  {a : Activation n} {acts all : List (Activation n)}

omit [Reader R] in
theorem UnwindFrame.At.spared {f : UnwindFrame R} (h : f.At slice P cfg prog base w.machine a acts)
    (hstack : w.stack = a :: acts) (hspares : Spares P base w s) : f.At slice P cfg prog base s a acts := by
  obtain ⟨hframes, ⟨sp, hlayout⟩, hregs, htables⟩ := h
  obtain ⟨hheap, hlive, hranges, hwords⟩ := hspares
  rw [hstack] at hlive hranges hwords
  exact ⟨hframes.keep hwords, ⟨sp, hlayout.same_calls rfl rfl hheap hlive hranges rfl hlayout.sp⟩, hregs, htables⟩

theorem pads_append (left : List (Activation n)) : pads (left ++ acts) = pads left ++ pads acts :=
  List.filter_append ..

theorem pads_eq_nil (h : ∀ x ∈ acts, x.landing = none) : pads acts = [] := by
  rw [pads, List.filter_eq_nil_iff]
  intro x hx
  simp [h x hx]

theorem pads_cons {addr : Reg} (h : a.landing = some addr) : pads (a :: acts) = a :: pads acts := by
  simp [pads, h]

omit [Reader R] in
theorem nextStack_eq {left : List (Activation n)} {b : Activation n} {rest : List (Activation n)} {addr : Reg}
    (hahead : w.ahead = left ++ b :: rest) (hleft : ∀ x ∈ left, x.landing = none) (hb : b.landing = some addr) :
    nextStack w.frame.isInitial w.stack = b :: rest := by
  rw [nextStack, ← Unwinding.ahead, hahead]
  rw [List.dropWhile_append_of_pos fun x hx => by simp [hleft x hx], List.dropWhile_cons_of_neg (by simp [hb])]

omit [Reader R] in
theorem ahead_suffix (w : Unwinding R n) : w.ahead <:+ w.stack := by
  unfold Unwinding.ahead
  split
  · exact List.suffix_rfl
  · exact List.tail_suffix _

omit [Reader R] in
/-- As long as there are functions ahead, the last of them catches the panic. -/
theorem UnwindFrame.At.pads_eq_nil_iff (hstack : w.stack = a :: acts)
    (h : w.frame.At slice P cfg prog base w.machine a acts) : pads w.ahead = [] ↔ w.caught = true := by
  have hpads : ∀ {acts : List (Activation n)}, Frames cfg w.machine.mem base acts → pads acts ≠ [] := by
    intro acts hframes
    induction hframes with
    | catching _ hland => simp [pads, hland]
    | call _ _ _ ih => exact fun hnil => ih (List.filter_eq_nil_iff.mpr fun x hx =>
        List.filter_eq_nil_iff.mp hnil x (List.mem_cons_of_mem _ hx))
  have hframes : w.ahead = [] ∨ Frames cfg w.machine.mem base w.ahead := by
    rw [Unwinding.ahead, hstack]
    split
    · exact .inr h.frames
    · cases h.frames with
      | catching => exact .inl rfl
      | call _ _ hrest => exact .inr hrest
  rcases hframes with hnil | hframes
  · simp [Unwinding.caught, hnil, pads]
  · have hne : w.ahead ≠ [] := by
      intro hnil
      rw [hnil] at hframes
      cases hframes
    simp [Unwinding.caught, hpads hframes, hne]

variable (unwStatePtr) in
/-- The loop goes to the first landing pad ahead. -/
theorem resumeUnwind_ahead (hR : LawfulReader slice) (hdesc : Described slice tables w.stack)
    (hfuel : ∀ b ∈ w.stack, b.callSites.length < fuel) (hframes : w.stack.length < frames)
    (hstack : w.stack = a :: acts) (h : w.frame.At slice P cfg prog base w.machine a acts)
    (hcaught : ¬ w.caught = true) :
    ∃ left b rest info f s, w.ahead = left ++ b :: rest ∧ (∀ x ∈ left, x.landing = none) ∧
      w.frame.resumeUnwind P cfg tables fuel unwStatePtr frames w.machine = some (info, f, s) ∧
      Lands slice P cfg prog base unwStatePtr b rest info f s := by
  rw [hstack] at hdesc hfuel hframes
  have hdesc' : Described slice tables acts := fun x hx => hdesc x (List.mem_cons_of_mem _ hx)
  rw [List.length_cons] at hframes
  cases hinitial : w.frame.isInitial with
  | false =>
    have hahead : w.ahead = acts := by simp [Unwinding.ahead, hinitial, hstack]
    rw [Unwinding.caught, hahead] at hcaught
    cases acts with
    | nil => simp at hcaught
    | cons b acts =>
      obtain ⟨left, c, rest, info, f, s, heq, hleft, hres, hlands, -⟩ :=
        resumeUnwind_next unwStatePtr hR h hinitial hdesc' hfuel (Nat.lt_of_succ_lt hframes)
      exact ⟨left, c, rest, info, f, s, hahead.trans heq, hleft, hres, hlands⟩
  | true =>
    have hahead : w.ahead = a :: acts := by simp [Unwinding.ahead, hinitial, hstack]
    rw [hahead]
    obtain ⟨frames, rfl⟩ := Nat.exists_eq_succ_of_ne_zero (Nat.ne_zero_of_lt hframes)
    -- The first frame is looked at as it is.
    let g : UnwindFrame R := { w.frame with isInitial := false }
    have hadvance : w.frame.advance P cfg tables w.machine = some (g, w.machine, .ok ()) := by
      rw [UnwindFrame.advance, if_pos hinitial]
    have hat : g.At slice P cfg prog base w.machine a acts :=
      ⟨h.frames, h.chain.congr rfl rfl rfl rfl, h.regs, h.tables⟩
    rcases resumeUnwind_arrived frames unwStatePtr hR hadvance hat rfl
      (hfuel a List.mem_cons_self) with ⟨hnone, heq⟩ | ⟨info, f, heq, hlands⟩
    · obtain ⟨b, acts, rfl, -⟩ := hat.frames.exists_caller hnone
      obtain ⟨left, c, rest, info, f, s, hsplit, hleft, hres, hlands, -⟩ :=
        resumeUnwind_next unwStatePtr hR hat rfl hdesc' hfuel (Nat.lt_of_succ_lt_succ hframes)
      exact ⟨a :: left, c, rest, info, f, s, congrArg _ hsplit, List.forall_mem_cons.mpr ⟨hnone, hleft⟩,
        heq.trans hres, hlands⟩
    · exact ⟨[], a, acts, info, f, w.machine, rfl, by simp, heq, hlands⟩

/-- Resuming goes to the next landing pad ahead, until the panic is caught. -/
theorem Unwinding.resume_cases (hR : LawfulReader slice) (hdesc : Described slice tables all)
    (hfuel : ∀ b ∈ all, b.callSites.length < fuel) (hframes : all.length < frames)
    (h : w.Inv slice P cfg prog unwStatePtr base all) :
    (w.caught = true ∧ w.step P cfg tables fuel unwStatePtr frames .resume = none) ∨
      ∃ b rest info f s, pads w.ahead = b :: pads rest ∧ b :: rest <:+ w.ahead ∧
        w.step P cfg tables fuel unwStatePtr frames .resume = some ⟨f, s, b :: rest, w.landed ++ [info]⟩ ∧
        Lands slice P cfg prog base unwStatePtr b rest info f s := by
  obtain ⟨a, acts, hstack, hat⟩ := h.here
  have hsub : ∀ x ∈ w.stack, x ∈ all := fun x hx => h.stack.subset hx
  have hlength := h.stack.length_le
  by_cases hcaught : w.caught = true
  · exact .inl ⟨hcaught, by rw [Unwinding.step, if_pos hcaught]⟩
  · obtain ⟨left, b, rest, info, f, s, hahead, hleft, hres, hlands⟩ := resumeUnwind_ahead unwStatePtr hR
      (fun x hx => hdesc x (hsub x hx)) (fun x hx => hfuel x (hsub x hx)) (Nat.lt_of_le_of_lt hlength hframes) hstack
      hat hcaught
    refine .inr ⟨b, rest, info, f, s, ?_, hahead ▸ List.suffix_append _ _, ?_, hlands⟩
    · rw [hahead, pads_append, pads_eq_nil hleft, List.nil_append, pads_cons hlands.landAddr]
    · rw [Unwinding.step, if_neg hcaught, hres, Option.map_some, nextStack_eq hahead hleft hlands.landAddr]

theorem Unwinding.Inv.step {e : UnwindingEvent n} (hR : LawfulReader slice) (hdesc : Described slice tables all)
    (hfuel : ∀ b ∈ all, b.callSites.length < fuel) (hframes : all.length < frames)
    (h : w.Inv slice P cfg prog unwStatePtr base all) (hfits : w.Fits P base e)
    (hstep : w.step P cfg tables fuel unwStatePtr frames e = some w') :
    w'.Inv slice P cfg prog unwStatePtr base all := by
  cases e with
  | resume =>
    rcases Unwinding.resume_cases hR hdesc hfuel hframes h with
      ⟨-, hend⟩ | ⟨b, rest, info, f, s, hpads, hsuffix, hsome, hlands⟩
    · simp [hend] at hstep
    · obtain rfl := Option.some.inj (hsome.symm.trans hstep)
      obtain ⟨done, hvisited, hall⟩ := h.visited
      refine ⟨⟨b, rest, rfl, hlands.here⟩, (hsuffix.trans (ahead_suffix w)).trans h.stack, ?_, done ++ [b], ?_, ?_⟩
      · intro hinitial
        exact absurd (hlands.initial.symm.trans hinitial) Bool.false_ne_true
      · exact List.rel_append hvisited (.cons ⟨hlands.statePtr, hlands.landAddr, hlands.regs, hlands.r0⟩ .nil)
      · rw [hall, hpads, Unwinding.ahead, if_neg (by simp [hlands.initial])]
        simp
  | cleanup s =>
    rw [Unwinding.step] at hstep
    split at hstep
    · cases hstep
    · obtain rfl := Option.some.inj hstep
      obtain ⟨a, acts, hstack, hat⟩ := h.here
      exact ⟨⟨a, acts, hstack, hat.spared hstack hfits⟩, h.stack, h.start, h.visited⟩

/-- Unwinding visits the landing pads of a call stack of any depth, on any number of stacklets, one
after the other and innermost first. However the landing pads use the heap and the memory in between,
those that were visited are the first ones of the stack, none was skipped or visited twice, and each
was entered with the registers, the stack pointer and the unwind state of its own function. The panic
is caught when all of them were visited, and until then the unwinder gets to the next one. -/
theorem unwinding_visits (hR : LawfulReader slice) {w₀ : Unwinding R n} {events : List (UnwindingEvent n)}
    (hstart : w₀.Starts slice P cfg prog base a acts) (hdesc : Described slice tables (a :: acts))
    (hfuel : ∀ b ∈ a :: acts, b.callSites.length < fuel) (hframes : (a :: acts).length < frames)
    (hfits : Run.Allowed (Unwinding.step P cfg tables fuel unwStatePtr frames) (Unwinding.Fits P base) w₀ events)
    (hrun : Run.exec (Unwinding.step P cfg tables fuel unwStatePtr frames) w₀ events = some w) :
    ∃ done rest, pads (a :: acts) = done ++ rest ∧ List.Forall₂ (LandedIn unwStatePtr) w.landed done ∧
      (w.caught = true ↔ rest = []) ∧
      ((w.step P cfg tables fuel unwStatePtr frames .resume).isSome = true ↔ rest ≠ []) := by
  have hinv : w.Inv slice P cfg prog unwStatePtr base (a :: acts) := by
    refine Run.exec_inv_of_allowed _ (fun h => h.step hR hdesc hfuel hframes) ?_ hfits hrun
    refine ⟨⟨a, acts, hstart.stack, hstart.here⟩, hstart.stack ▸ List.suffix_rfl, fun _ => hstart.landed, [], ?_, ?_⟩
    · rw [hstart.landed]
      exact .nil
    · rw [Unwinding.ahead, if_pos hstart.initial, hstart.stack]
      rfl
  obtain ⟨done, hvisited, hall⟩ := hinv.visited
  obtain ⟨b, bs, hstack, hat⟩ := hinv.here
  have hcaught := hat.pads_eq_nil_iff hstack
  refine ⟨done, pads w.ahead, hall, hvisited, hcaught.symm, ?_⟩
  rcases Unwinding.resume_cases hR hdesc hfuel hframes hinv with
    ⟨hend, hnone⟩ | ⟨b, rest, info, f, s, hpads, -, hsome, -⟩
  · simp [hcaught.mpr hend, hnone]
  · simp [hpads, hsome]

end Runs

-- ---------------------------------------------------------------------------
-- A stack of two functions
-- ---------------------------------------------------------------------------

/-- The LSDA of a function that has a landing pad for its second call site. -/
def padLsda (start : Reg) : LSDA U8Slice := { sampleLsda with functionStartAddress := start }

def padEntries (start : Reg) : List CallSiteTableEntry := [⟨0, 4, 0, 0, start⟩, ⟨4, 8, 0x20, 0, start⟩]

theorem padLsda_entries {start : Reg} (h : start.toNat + 0x20 < 2 ^ 32) :
    HasEntries U8Slice.slice (some (padLsda start)) (padEntries start) := by
  have h₁ : EncodesEntry .uleb128 start ([0x00] ++ ([0x04] ++ ([0x00] ++ [0x00]))) ⟨0, 4, 0, 0, start⟩ :=
    .mk rfl (uleb128_byte 0 (by decide)) (uleb128_byte 4 (by decide)) (uleb128_byte 0 (by decide))
      (uleb128_byte 0 (by decide)) (by simp; omega) (by simp; omega)
  have h₂ : EncodesEntry .uleb128 start ([0x04] ++ ([0x08] ++ ([0x20] ++ [0x00]))) ⟨4, 8, 0x20, 0, start⟩ :=
    .mk rfl (uleb128_byte 4 (by decide)) (uleb128_byte 8 (by decide)) (uleb128_byte 0x20 (by decide))
      (uleb128_byte 0 (by decide)) (by simp; omega) (by simp; omega)
  have hlsda : EncodesLsda start
      ([0xff] ++ ([0xff] ++ (0x01 :: ([0x08] ++ [0x00, 0x04, 0x00, 0x00, 0x04, 0x08, 0x20, 0x00]))))
      (padEntries start) :=
    .mk .omitted .omitted (.inl rfl) (uleb128_byte 8 (by decide)) (.cons h₁ (.cons h₂ .nil))
  have hslice : U8Slice.slice (padLsda start).reader =
      ⟨0x08001000, [0xff, 0xff, 0x01, 0x08, 0x00, 0x04, 0x00, 0x00, 0x04, 0x08, 0x20, 0x00] ++ [0xaa]⟩ := rfl
  exact .lsda hlsda hslice

/-- The memory with the return address of the outer function, which is in the trampoline of the task. -/
def padMem : Mem := setWord boardMem 0x20000138 0x080000a1

def padHeap : Option Client :=
  (Client.init board padMem 0x20000030).bind fun client => Run.exec (Client.step board) client [.malloc 512]

def outerEntry : Regs :=
  ⟨fun r => if r = .sp then 0x2000013c else if r = .lr then 0x080000a1 else 0, fun _ => 0⟩

/-- The function at `0x08000bf8`, which catches the panic. It saves the return address and has a frame
of 32 bytes. -/
def outer : Activation 1 where
  prologue := [.push 0 true, .sub 0x20]
  program := [0x07, 0x84, 0x00]
  callSites := padEntries 0x08000bf8
  extension := none
  entry := outerEntry
  regs := ⟨fun r => if r = .sp then 0x20000118 else if r = .pc then 0x08000bff else 0, fun _ => 0⟩

def innerEntry : Regs := ⟨fun r => if r = .sp then 0x20000118 else if r = .lr then 0x08000c01 else 0, fun _ => 0⟩

/-- The function at `0x08000200` that it has called. -/
def inner : Activation 1 where
  prologue := [.push 0 true]
  program := [0x84, 0x00]
  callSites := padEntries 0x08000200
  extension := none
  entry := innerEntry
  regs := ⟨fun r => if r = .sp then 0x20000114 else if r = .pc then 0x08000206 else 0, fun _ => 0⟩

/-- The table entries of the two functions. -/
def padTables (pc : Reg) : Except String (UnwindAbility × Option (LSDA U8Slice)) :=
  if pc = 0x08000206 then .ok (.canUnwind ⟨[0xb0, 0x00, 0x84, 0x80], 1, rfl⟩, some (padLsda 0x08000200))
  else .ok (.canUnwind ⟨[0x00, 0x84, 0x07, 0x80], 1, rfl⟩, some (padLsda 0x08000bf8))

def padUnwinding (client : Client) : Unwinding U8Slice 1 where
  frame :=
    { regs := inner.regs
      unwAbility := .canUnwind ⟨[0xb0, 0x00, 0x84, 0x80], 1, rfl⟩
      stkletBoundary := stkletPtrToBound 0x20000038
      isInitial := true
      lsda := some (padLsda 0x08000200) }
  machine := (boardTask (.default 1) client).machine
  stack := [inner, outer]
  landed := []

def padEvents (client : Client) : List (UnwindingEvent 1) :=
  [.resume, .cleanup (boardTask (.default 1) client).machine, .resume]

theorem inner_intact {m : Mem} (h : word m 0x20000114 = 0x08000c01) : inner.Intact m (0x20000038, 512) := by
  refine ⟨?_, .concat .nil (.pushMask 0 true (.inr rfl)), by decide, ⟨?_, by decide, ?_, ?_, ?_⟩, by decide,
    by decide⟩
  · intro q r offset q' hq
    rcases q with _ | ⟨i, q⟩ <;> simp [inner] at hq
  · simpa [Holds, show pushedWords inner.prologue inner.entry = [(0x20000114, 0x08000c01)] by decide] using h
  · intro r offset hmem
    simp [inner] at hmem
  · intro d _
    rfl
  · intro _
    decide

theorem outer_intact {m : Mem} (h : word m 0x20000138 = 0x080000a1) : outer.Intact m (0x20000038, 512) := by
  have hprog : Program outer.prologue outer.program :=
    (Program.nil.concat (.pushMask 0 true (.inr rfl))).concat (i := .sub 0x20) (.sub (.short 7 (by decide) .nil))
  refine ⟨?_, hprog, by decide, ⟨?_, by decide, ?_, ?_, ?_⟩, by decide, by decide⟩
  · intro q r offset q' hq
    rcases q with _ | ⟨i₁, _ | ⟨i₂, q⟩⟩ <;> simp [outer] at hq
  · simpa [Holds, show pushedWords outer.prologue outer.entry = [(0x20000138, 0x080000a1)] by decide] using h
  · intro r offset hmem
    simp [outer] at hmem
  · intro d _
    rfl
  · intro _
    decide

theorem outer_called : inner.CalledBy boardConfig outer := by
  refine ⟨by decide, rfl, by decide, by decide, by decide, by decide⟩

theorem unwinding_visits_pads : ∃ (client : Client) (w : Unwinding U8Slice 1) (done rest : List (Activation 1)),
    Run.exec (Unwinding.step board boardConfig padTables 3 0x20000400 3) (padUnwinding client) (padEvents client) =
        some w ∧
      w.landed.map LandInfo.landAddr = [0x08000221, 0x08000c19] ∧ pads [inner, outer] = done ++ rest ∧
      List.Forall₂ (LandedIn 0x20000400) w.landed done ∧ (w.caught = true ↔ rest = []) ∧
      ((w.step board boardConfig padTables 3 0x20000400 3 .resume).isSome = true ↔ rest ≠ []) := by
  obtain ⟨client, hheap, hstart⟩ := boardTask_start padMem
  have hwords : padHeap.map (fun c => (c.live, word c.heap.mem 0x20000114, word c.heap.mem 0x20000138)) =
      some ([(0x20000038, 512)], 0x08000c01, 0x080000a1) := by decide +kernel
  have hrun : (padHeap.bind fun c => Run.exec (Unwinding.step board boardConfig padTables 3 0x20000400 3)
      (padUnwinding c) (padEvents c)).map (fun w => w.landed.map LandInfo.landAddr) =
      some [0x08000221, 0x08000c19] := by decide +kernel
  simp only [padHeap, hheap, Option.map_some, Option.some.injEq, Prod.mk.injEq] at hwords
  rw [padHeap, hheap] at hrun
  simp only [Option.bind_some, Option.map_eq_some_iff] at hrun
  obtain ⟨hlive, hinner, houter⟩ := hwords
  obtain ⟨w, hrun, haddrs⟩ := hrun
  have hlayout : Layout board smallFrames (boardTask (.default 1) client) := (hstart hlive (.default 1)).layout
  have hbase : (boardTask (.default 1) client).base = (0x20000038, 512) := by simp [boardTask, hlive]
  have hspares : ∀ u : Unwinding U8Slice 1, u.machine = (boardTask (.default 1) client).machine →
      extensions u.stack = [] → Spares board (0x20000038, 512) u (boardTask (.default 1) client).machine := by
    intro u hmachine hext
    refine ⟨hlayout.heap, ?_, ?_, ?_⟩
    · rw [hext, ← hbase]
      exact hlayout.live
    · simp [hext]
    · simp [hmachine]
  have hframes : Frames boardConfig client.heap.mem (0x20000038, 512) [inner, outer] :=
    .call (inner_intact hinner) outer_called (.catching (outer_intact houter) (by decide))
  have hstarts : (padUnwinding client).Starts U8Slice.slice board boardConfig smallFrames (0x20000038, 512)
      inner [outer] := by
    refine ⟨⟨hframes, ⟨0x20000100, ?_⟩, ⟨fun r => rfl, rfl, rfl, rfl⟩, ⟨_, 1, rfl, by decide⟩, ?_⟩, rfl, rfl, rfl⟩
    · have hstack : Walk.stack ⟨(padUnwinding client).frame.toUnwindState, (padUnwinding client).machine,
          (0x20000038, 512), extensions [inner, outer]⟩ 0x20000100 = boardTask (.default 1) client := by
        simp only [Walk.stack, resumedAt, boardTask, hlive, padUnwinding]
        rfl
      exact hstack ▸ hlayout
    · exact padLsda_entries (by decide)
  have hdesc : Described U8Slice.slice padTables [inner, outer] := by
    intro a ha
    simp only [List.mem_cons, List.not_mem_nil, or_false] at ha
    rcases ha with rfl | rfl
    · exact ⟨_, _, rfl, ⟨_, 1, rfl, by decide⟩, padLsda_entries (by decide)⟩
    · exact ⟨_, _, rfl, ⟨_, 0, rfl, by decide⟩, padLsda_entries (by decide)⟩
  have hfits : Run.Allowed (Unwinding.step board boardConfig padTables 3 0x20000400 3)
      (Unwinding.Fits board (0x20000038, 512)) (padUnwinding client) (padEvents client) := by
    refine ⟨trivial, fun w₁ hresume => ⟨?_, fun _ _ => ⟨trivial, fun _ _ => trivial⟩⟩⟩
    -- The first frame lands at once.
    have hfirst : ((padUnwinding client).step board boardConfig padTables 3 0x20000400 3 .resume).map
        (fun w => (w.machine, extensions w.stack)) = some ((boardTask (.default 1) client).machine, []) := rfl
    simp only [hresume, Option.map_some, Option.some.injEq, Prod.mk.injEq] at hfirst
    exact hspares w₁ hfirst.1 hfirst.2
  obtain ⟨done, rest, hpads, hlanded, hnext⟩ := unwinding_visits U8Slice.lawful hstarts hdesc (by decide) (by decide)
    hfits hrun
  exact ⟨client, w, done, rest, hrun, haddrs, hpads, hlanded, hnext⟩

end Hopter.Unwind
