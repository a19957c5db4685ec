-- SUMMARY: The PendSV entry sequences: every task gets its registers and its local storage back.
import Hopter.Base.Run
import Hopter.Interrupt.Thumb

/-!
# Context switches

`src/interrupt/context_switch.rs` and the layout of `TaskCtxt` in `src/task/task_struct.rs`,
for both architectures. The hardware has pushed the registers that a caller saves on the
stack of the task before the entry sequence runs, and pops them after it, so the context
here is what remains: the other registers, the stack pointer, and the task local storage.
-/

namespace Hopter.Interrupt

open Hopter.Task

inductive Arch where
  | armv7em
  | armv6m

/-- The number of floating point registers that a callee saves. -/
def Arch.fpRegs : Arch → Nat
  | .armv7em => 16
  | .armv6m => 0

structure CalleeSavedGPRegs where
  r4 : Reg
  r5 : Reg
  r6 : Reg
  r7 : Reg
  r8 : Reg
  r9 : Reg
  r10 : Reg
  r11 : Reg

structure TaskCtxt (A : Arch) where
  tls : TaskLocalStorage
  sp : Reg
  gpRegs : CalleeSavedGPRegs
  /-- `CalleeSavedFPRegs`: `s16` to `s31`. -/
  fpRegs : Fin A.fpRegs → Reg

/-- The size of `TaskCtxt` in bytes. -/
def TaskCtxt.size (A : Arch) : Nat := 48 + 4 * A.fpRegs

def TaskLocalStorage.load (m : Mem) (a : Nat) : TaskLocalStorage where
  stkletBound := word m a
  nestedDropCnt := word m (a + 4)
  unwindPending := word m (a + 8)

/-- The object at an address: `repr(C)` keeps the order of the fields, and they are words. -/
def TaskCtxt.load (A : Arch) (m : Mem) (a : Nat) : TaskCtxt A where
  tls := TaskLocalStorage.load m a
  sp := word m (a + 12)
  gpRegs :=
    { r4 := word m (a + 16)
      r5 := word m (a + 20)
      r6 := word m (a + 24)
      r7 := word m (a + 28)
      r8 := word m (a + 32)
      r9 := word m (a + 36)
      r10 := word m (a + 40)
      r11 := word m (a + 44) }
  fpRegs i := word m (a + (48 + 4 * i))

/-- The words of the object. -/
def TaskCtxt.words {A : Arch} (t : TaskCtxt A) : List Reg :=
  [t.tls.stkletBound, t.tls.nestedDropCnt, t.tls.unwindPending, t.sp, t.gpRegs.r4, t.gpRegs.r5,
    t.gpRegs.r6, t.gpRegs.r7, t.gpRegs.r8, t.gpRegs.r9, t.gpRegs.r10, t.gpRegs.r11] ++ List.ofFn t.fpRegs

/-- `__TLS_MEM_ADDR`. -/
def tlsMemAddr : Reg := 0x20000000

theorem Arch.fpRegs_le (A : Arch) : A.fpRegs ≤ 16 := by
  cases A <;> simp [Arch.fpRegs]

/-- The `s`-register with the given number in `CalleeSavedFPRegs`. -/
def fpReg {A : Arch} (i : Fin A.fpRegs) : Fin 32 :=
  ⟨16 + i, by have := A.fpRegs_le; omega⟩

/-- The context that the code of a task sees. -/
def TaskCtxt.ofCpu (A : Arch) (c : Cpu) : TaskCtxt A where
  tls := TaskLocalStorage.load c.mem tlsMemAddr.toNat
  sp := c.psp
  gpRegs :=
    { r4 := c.reg .r4
      r5 := c.reg .r5
      r6 := c.reg .r6
      r7 := c.reg .r7
      r8 := c.reg .r8
      r9 := c.reg .r9
      r10 := c.reg .r10
      r11 := c.reg .r11 }
  fpRegs i := c.fp (fpReg i)

-- ---------------------------------------------------------------------------
-- The entry sequences
-- ---------------------------------------------------------------------------

/-- The constants of the sequences. -/
structure Config where
  /-- The address of `CUR_TASK_CTXT_PTR`. -/
  curTask : Reg
  /-- `__CONTIGUOUS_STACK_BOUNDARY`. -/
  kernStkBoundary : Reg
  /-- `_CONTIGUOUS_STACK_BOTTOM`. -/
  kernStkBottom : Reg

/-- `s16` to `s31`. -/
def s16s31 : List (Fin 32) := [16, 17, 18, 19, 20, 21, 22, 23, 24, 25, 26, 27, 28, 29, 30, 31]

/-- `pendsv_entry` up to the call of the handler. -/
def pendsvEntrySave (k : Config) : Arch → List Instr
  | .armv7em =>
    [.const .r12 tlsMemAddr,
     .ldmia .r12 false [.r0, .r1, .r2],
     .mrsPsp .r3,
     .movw .r12 (k.curTask.extractLsb' 0 16),
     .movt .r12 (k.curTask.extractLsb' 16 16),
     .ldr .r12 .r12,
     .stmia .r12 true [.r0, .r1, .r2, .r3, .r4, .r5, .r6, .r7, .r8, .r9, .r10, .r11],
     .vstmia .r12 s16s31,
     .const .r0 k.kernStkBoundary,
     .const .r1 0,
     .const .r2 0,
     .const .r12 tlsMemAddr,
     .stmia .r12 false [.r0, .r1, .r2],
     .mov .r0 .lr]
  | .armv6m =>
    [.mov .r12 .r4,
     .const .r4 tlsMemAddr,
     .ldmia .r4 true [.r0, .r1, .r2],
     .mrsPsp .r3,
     .const .r4 k.curTask,
     .ldr .r4 .r4,
     .stmia .r4 true [.r0, .r1, .r2, .r3],
     .mov .r0 .r4,
     .mov .r4 .r12,
     .stmia .r0 true [.r4, .r5, .r6, .r7],
     .mov .r4 .r8,
     .mov .r5 .r9,
     .mov .r6 .r10,
     .mov .r7 .r11,
     .stmia .r0 true [.r4, .r5, .r6, .r7],
     .const .r0 k.kernStkBoundary,
     .const .r1 0,
     .const .r2 0,
     .const .r3 tlsMemAddr,
     .stmia .r3 true [.r0, .r1, .r2],
     .mov .r0 .lr]

/-- `pendsv_entry` from the return of the handler to the check of the kernel stack. -/
def pendsvEntryRestore (k : Config) : Arch → List Instr
  | .armv7em =>
    [.movw .r12 (k.curTask.extractLsb' 0 16),
     .movt .r12 (k.curTask.extractLsb' 16 16),
     .ldr .r12 .r12,
     .ldmia .r12 true [.r0, .r1, .r2, .r3, .r4, .r5, .r6, .r7, .r8, .r9, .r10, .r11],
     .msrPsp .r3,
     .const .r3 tlsMemAddr,
     .stmia .r3 false [.r0, .r1, .r2],
     .vldmia .r12 s16s31,
     .mrsMsp .r3,
     .const .r2 k.kernStkBottom,
     .cmp .r2 .r3]
  | .armv6m =>
    [.const .r4 k.curTask,
     .ldr .r4 .r4,
     .ldmia .r4 true [.r0, .r1, .r2, .r3],
     .msrPsp .r3,
     .const .r3 tlsMemAddr,
     .stmia .r3 true [.r0, .r1, .r2],
     .mov .r0 .r4,
     .ldmia .r0 true [.r4, .r5, .r6, .r7],
     .ldmia .r0 true [.r2, .r3],
     .mov .r8 .r2,
     .mov .r9 .r3,
     .ldmia .r0 true [.r2, .r3],
     .mov .r10 .r2,
     .mov .r11 .r3,
     .mrsMsp .r3,
     .const .r2 k.kernStkBottom,
     .cmp .r2 .r3]

/-- The register and the pattern with which `pendsv_entry` returns from the exception. -/
def exReturn : Arch → Core × Reg
  | .armv7em => (.lr, 0xffffffed)
  | .armv6m => (.r0, 0xfffffffd)

/-- `pendsv_entry` from the return of the handler on. When the kernel stack pointer is not at
the bottom, `unrecoverable::die` is called, which does not return. -/
def pendsvEntryReturn (k : Config) (A : Arch) (c : Cpu) : Option Cpu :=
  let c' := c.execAll (pendsvEntryRestore k A)
  if c'.zero then some (c'.exec (.const (exReturn A).1 (exReturn A).2)) else none

-- ---------------------------------------------------------------------------
-- Saving
-- ---------------------------------------------------------------------------

/-- Two ranges of bytes have nothing in common. -/
def Apart (a n b l : Nat) : Prop := a + n ≤ b ∨ b + l ≤ a

theorem TaskCtxt.length_words {A : Arch} (t : TaskCtxt A) : 4 * t.words.length = TaskCtxt.size A := by
  simp [TaskCtxt.words, TaskCtxt.size]
  omega

theorem TaskCtxt.load_storeWords {A : Arch} {m : Mem} {a : Nat} (t : TaskCtxt A) :
    TaskCtxt.load A (storeWords m a t.words) a = t := by
  have hword : ∀ i v, t.words[i]? = some v → word (storeWords m a t.words) (a + 4 * i) = v :=
    fun i v h => word_storeWords h
  have hfp : ∀ i : Fin A.fpRegs, word (storeWords m a t.words) (a + (48 + 4 * i)) = t.fpRegs i := by
    intro i
    have := hword (12 + i) (t.fpRegs i) (by
      rw [TaskCtxt.words, List.getElem?_append_right (by simp)]
      simp)
    rwa [show 4 * (12 + i.val) = 48 + 4 * i by omega] at this
  obtain ⟨⟨_, _, _⟩, _, ⟨_, _, _, _, _, _, _, _⟩, _⟩ := t
  simp only [TaskCtxt.load, TaskLocalStorage.load, TaskCtxt.mk.injEq, TaskLocalStorage.mk.injEq,
    CalleeSavedGPRegs.mk.injEq]
  refine ⟨⟨hword 0 _ rfl, hword 1 _ rfl, hword 2 _ rfl⟩, hword 3 _ rfl, ⟨hword 4 _ rfl, hword 5 _ rfl,
    hword 6 _ rfl, hword 7 _ rfl, hword 8 _ rfl, hword 9 _ rfl, hword 10 _ rfl, hword 11 _ rfl⟩, ?_⟩
  funext i
  exact hfp i

theorem TaskLocalStorage.load_congr {m m' : Mem} {a : Nat} (h : m.AgreeOn m' a (a + 12)) :
    TaskLocalStorage.load m' a = TaskLocalStorage.load m a := by
  have hword : ∀ b, a ≤ b → b + 4 ≤ a + 12 → word m' b = word m b := fun b hb hb' =>
    word_congr (h.mono hb hb')
  simp only [TaskLocalStorage.load, TaskLocalStorage.mk.injEq]
  refine ⟨hword _ ?_ ?_, hword _ ?_ ?_, hword _ ?_ ?_⟩ <;> omega

theorem TaskCtxt.load_congr {A : Arch} {m m' : Mem} {a : Nat} (h : m.AgreeOn m' a (a + TaskCtxt.size A)) :
    TaskCtxt.load A m' a = TaskCtxt.load A m a := by
  have hword : ∀ b, a ≤ b → b + 4 ≤ a + TaskCtxt.size A → word m' b = word m b := fun b hb hb' =>
    word_congr (h.mono hb hb')
  unfold TaskCtxt.size at h hword
  simp only [TaskCtxt.load, TaskCtxt.mk.injEq, CalleeSavedGPRegs.mk.injEq]
  refine ⟨TaskLocalStorage.load_congr (h.mono (by omega) (by omega)), hword _ ?_ ?_, ⟨hword _ ?_ ?_,
    hword _ ?_ ?_, hword _ ?_ ?_, hword _ ?_ ?_, hword _ ?_ ?_, hword _ ?_ ?_, hword _ ?_ ?_,
    hword _ ?_ ?_⟩, ?_⟩
  on_goal 19 => funext i; exact hword _ (by omega) (by omega)
  all_goals omega

/-- The words of the task local storage while the kernel runs. -/
def Config.kernelTls (k : Config) : List Reg := [k.kernStkBoundary, 0, 0]

variable {k : Config} {c : Cpu}

/-- What the first half of the sequence writes: the context of the task, and the task local
storage of the kernel. -/
theorem save_mem (A : Arch) (h : (word c.mem k.curTask.toNat).toNat + TaskCtxt.size A ≤ 2 ^ 32) :
    (c.execAll (pendsvEntrySave k A)).mem =
      storeWords (storeWords c.mem (word c.mem k.curTask.toNat).toNat (TaskCtxt.ofCpu A c).words)
        tlsMemAddr.toNat k.kernelTls := by
  cases A with
  | armv7em =>
    have hfp : List.ofFn (TaskCtxt.ofCpu .armv7em c).fpRegs = s16s31.map c.fp := rfl
    have hfits : ((word c.mem k.curTask.toNat).toNat + 48) % 4294967296 =
        (word c.mem k.curTask.toNat).toNat + 48 := by
      simp only [TaskCtxt.size, Arch.fpRegs] at h
      omega
    rw [TaskCtxt.words, hfp, storeWords_append]
    simp [pendsvEntrySave, Cpu.exec, setAll, loadWords, writeback, append_extractLsb', Config.kernelTls,
      TaskCtxt.ofCpu, TaskLocalStorage.load, hfits]
  | armv6m =>
    have hfp : List.ofFn (TaskCtxt.ofCpu .armv6m c).fpRegs = [] := rfl
    have hfits : ∀ n < 48, ((word c.mem k.curTask.toNat).toNat + n) % 4294967296 =
        (word c.mem k.curTask.toNat).toNat + n := by
      simp only [TaskCtxt.size, Arch.fpRegs] at h
      omega
    rw [TaskCtxt.words, hfp]
    simp [pendsvEntrySave, Cpu.exec, setAll, loadWords, writeback, Config.kernelTls,
      TaskCtxt.ofCpu, TaskLocalStorage.load, hfits, Nat.add_assoc, storeWords]

-- ---------------------------------------------------------------------------
-- Restoring
-- ---------------------------------------------------------------------------

/-- The second half of the sequence writes the task local storage only. -/
theorem restore_mem (A : Arch) : ∃ vs : List Reg, vs.length = 3 ∧
    (c.execAll (pendsvEntryRestore k A)).mem = storeWords c.mem tlsMemAddr.toNat vs := by
  cases A <;> exact ⟨_, rfl, by simp [pendsvEntryRestore, Cpu.exec, setAll, loadWords, writeback]; rfl⟩

/-- The check of the kernel stack pointer. -/
theorem restore_zero (A : Arch) :
    (c.execAll (pendsvEntryRestore k A)).zero = (k.kernStkBottom == c.msp) := by
  cases A <;> simp [pendsvEntryRestore, Cpu.exec, writeback]

theorem restore_msp (A : Arch) : (c.execAll (pendsvEntryRestore k A)).msp = c.msp := by
  cases A <;> simp [pendsvEntryRestore, Cpu.exec]

/-- The second half of the sequence installs the context that `CUR_TASK_CTXT_PTR` points to. -/
theorem restore_ctxt (A : Arch) (h : (word c.mem k.curTask.toNat).toNat + TaskCtxt.size A ≤ 2 ^ 32)
    (htls : Apart (word c.mem k.curTask.toNat).toNat (TaskCtxt.size A) tlsMemAddr.toNat 12) :
    TaskCtxt.ofCpu A (c.execAll (pendsvEntryRestore k A)) =
      TaskCtxt.load A c.mem (word c.mem k.curTask.toNat).toNat := by
  have htls0 : ∀ x y z, word (storeWords c.mem tlsMemAddr.toNat [x, y, z]) tlsMemAddr.toNat = x :=
    fun x y z => word_storeWords (i := 0) rfl
  have htls1 : ∀ x y z, word (storeWords c.mem tlsMemAddr.toNat [x, y, z]) (tlsMemAddr.toNat + 4) = y :=
    fun x y z => word_storeWords (i := 1) rfl
  have htls2 : ∀ x y z, word (storeWords c.mem tlsMemAddr.toNat [x, y, z]) (tlsMemAddr.toNat + 8) = z :=
    fun x y z => word_storeWords (i := 2) rfl
  -- The context is read partly after the task local storage was written.
  have hkeep : ∀ x y z n, n + 4 ≤ TaskCtxt.size A →
      word (storeWords c.mem tlsMemAddr.toNat [x, y, z]) ((word c.mem k.curTask.toNat).toNat + n) =
        word c.mem ((word c.mem k.curTask.toNat).toNat + n) := by
    intro x y z n hn
    unfold Apart at htls
    apply word_storeWords_disjoint
    simp only [List.length_cons, List.length_nil]
    omega
  have hfits : ∀ n < TaskCtxt.size A, ((word c.mem k.curTask.toNat).toNat + n) % 4294967296 =
      (word c.mem k.curTask.toNat).toNat + n := by
    intro n hn
    omega
  cases A with
  | armv7em =>
    have hfp : ∀ x y z (i : Fin Arch.armv7em.fpRegs), setAll c.fp s16s31 (loadWords
        (storeWords c.mem tlsMemAddr.toNat [x, y, z]) ((word c.mem k.curTask.toNat).toNat + 48)
        s16s31.length) (fpReg i) = word c.mem ((word c.mem k.curTask.toNat).toNat + (48 + 4 * i)) := by
      intro x y z i
      have hi := i.isLt
      simp only [Arch.fpRegs] at hi
      rw [← hkeep x y z _ (by simp only [TaskCtxt.size, Arch.fpRegs]; omega)]
      refine setAll_of_getElem? (i := i) (by decide) (by revert i; decide) ?_
      rw [show s16s31.length = 16 from rfl, loadWords_getElem? hi, Nat.add_assoc]
    simp only [TaskCtxt.size, Arch.fpRegs] at hfits
    simp [pendsvEntryRestore, Cpu.exec, setAll, loadWords, writeback, append_extractLsb',
      TaskCtxt.ofCpu, TaskLocalStorage.load, TaskCtxt.load, Nat.add_assoc, htls0, htls1, htls2, hfits, hfp]
  | armv6m =>
    simp only [TaskCtxt.size, Arch.fpRegs] at hfits hkeep
    simp [pendsvEntryRestore, Cpu.exec, setAll, loadWords, writeback, TaskCtxt.ofCpu,
      TaskLocalStorage.load, TaskCtxt.load, Nat.add_assoc, htls0, htls1, htls2, hfits, hkeep]
    funext i
    exact i.elim0

-- ---------------------------------------------------------------------------
-- The system
-- ---------------------------------------------------------------------------

/-- Where the objects are: the contexts of the tasks, the task local storage, and the pointer
to the current context have nothing in common. -/
structure Layout (τ : Type) (A : Arch) extends Config where
  ctxt : τ → Reg
  fits : ∀ t, (ctxt t).toNat + TaskCtxt.size A ≤ 2 ^ 32
  apart : ∀ t u, t ≠ u → Apart (ctxt t).toNat (TaskCtxt.size A) (ctxt u).toNat (TaskCtxt.size A)
  tls : ∀ t, Apart (ctxt t).toNat (TaskCtxt.size A) tlsMemAddr.toNat 12
  curTaskCtxt : ∀ t, Apart (ctxt t).toNat (TaskCtxt.size A) curTask.toNat 4
  curTaskTls : Apart curTask.toNat 4 tlsMemAddr.toNat 12

/-- `pendsv_handler`: the states of the CPU while it runs, and when it returns. -/
structure Handler where
  during : Cpu → List Cpu
  ret : Cpu → Cpu

/-- `pendsv_entry`. -/
def pendsvEntry (k : Config) (A : Arch) (h : Handler) (c : Cpu) : Option Cpu :=
  pendsvEntryReturn k A (h.ret (c.execAll (pendsvEntrySave k A)))

structure System (τ : Type) (A : Arch) where
  cpu : Cpu
  /-- History: the task that runs. -/
  cur : τ
  /-- History: the context that each task had when it was switched out. At first, its initial
  context. -/
  out : τ → TaskCtxt A

inductive Action (τ : Type) where
  /-- The current task runs, and so do interrupts that do not switch, until the CPU is in the
  given state. -/
  | run (cpu : Cpu)
  /-- PendSV, where the handler chooses the given task. -/
  | pendSv (handler : Handler) (next : τ)

variable {τ : Type} [DecidableEq τ] {A : Arch}

def step (L : Layout τ A) (s : System τ A) : Action τ → Option (System τ A)
  | .run cpu => some { s with cpu := cpu }
  | .pendSv handler next => (pendsvEntry L.toConfig A handler s.cpu).map fun cpu =>
    { cpu := cpu, cur := next, out := Function.update s.out s.cur (TaskCtxt.ofCpu A s.cpu) }

/-- The contexts are left alone. -/
def Layout.KeepsCtxts (L : Layout τ A) (m m' : Mem) : Prop :=
  ∀ t, m.AgreeOn m' (L.ctxt t).toNat ((L.ctxt t).toNat + TaskCtxt.size A)

/-- The handler sets the pointer to the current context. It leaves the contexts and the task
local storage alone, and it returns with the kernel stack as it was. The other registers that
a callee saves do not matter, because the sequence loads them. -/
structure Handler.Ok (L : Layout τ A) (h : Handler) (c : Cpu) (next : τ) : Prop where
  ctxts : L.KeepsCtxts c.mem (h.ret c).mem
  tls : ∀ d ∈ h.during c, c.mem.AgreeOn d.mem tlsMemAddr.toNat (tlsMemAddr.toNat + 12)
  next : word (h.ret c).mem L.curTask.toNat = L.ctxt next
  msp : (h.ret c).msp = c.msp

/-- What tasks and handlers may do. A task does not know the contexts nor the pointer to its
own one, and while it runs the kernel stack is empty. -/
def ok (L : Layout τ A) (s : System τ A) : Action τ → Prop
  | .run cpu => L.KeepsCtxts s.cpu.mem cpu.mem ∧
    s.cpu.mem.AgreeOn cpu.mem L.curTask.toNat (L.curTask.toNat + 4) ∧ cpu.msp = L.kernStkBottom
  | .pendSv handler next => handler.Ok L (s.cpu.execAll (pendsvEntrySave L.toConfig A)) next

structure Inv (L : Layout τ A) (s : System τ A) : Prop where
  curTask : word s.cpu.mem L.curTask.toNat = L.ctxt s.cur
  msp : s.cpu.msp = L.kernStkBottom
  ctxt : ∀ t, t ≠ s.cur → TaskCtxt.load A s.cpu.mem (L.ctxt t).toNat = s.out t

/-- A task is switched in by the handler `h`, in the state `s`. -/
structure Restored (L : Layout τ A) (s : System τ A) (h : Handler) (s' : System τ A) : Prop where
  /-- The task finds what it had when it was switched out. -/
  ctxt : TaskCtxt.ofCpu A s'.cpu = s'.out s'.cur
  /-- The kernel boundary and zeros while the handler runs. -/
  kernelTls : ∀ c ∈ h.during (s.cpu.execAll (pendsvEntrySave L.toConfig A)),
    TaskLocalStorage.load c.mem tlsMemAddr.toNat = ⟨L.kernStkBoundary, 0, 0⟩

variable {L : Layout τ A} {s : System τ A}

omit [DecidableEq τ] in
/-- Writes to the task local storage do not change a context. -/
theorem Layout.load_tls (L : Layout τ A) {m : Mem} {vs : List Reg} (hvs : vs.length = 3) (t : τ) :
    TaskCtxt.load A (storeWords m tlsMemAddr.toNat vs) (L.ctxt t).toNat =
      TaskCtxt.load A m (L.ctxt t).toNat := by
  have htls := L.tls t
  unfold Apart at htls
  exact TaskCtxt.load_congr (agreeOn_storeWords (by omega))

omit [DecidableEq τ] in
/-- Nor the pointer to the current one. -/
theorem Layout.word_tls (L : Layout τ A) {m : Mem} {vs : List Reg} (hvs : vs.length = 3) :
    word (storeWords m tlsMemAddr.toNat vs) L.curTask.toNat = word m L.curTask.toNat := by
  have htls := L.curTaskTls
  unfold Apart at htls
  exact word_storeWords_disjoint (by omega)

theorem save_msp (k : Config) (A : Arch) (c : Cpu) : (c.execAll (pendsvEntrySave k A)).msp = c.msp := by
  cases A <;> simp [pendsvEntrySave, Cpu.exec]

/-- The return pattern is not loaded to a register of the context. -/
theorem ofCpu_exReturn (A : Arch) (c : Cpu) :
    TaskCtxt.ofCpu A (c.exec (.const (exReturn A).1 (exReturn A).2)) = TaskCtxt.ofCpu A c := by
  cases A <;> simp [TaskCtxt.ofCpu, Cpu.exec, exReturn]

/-- When the handler is called, every task has its context in memory. -/
theorem Inv.save (h : Inv L s) (t : τ) :
    TaskCtxt.load A (s.cpu.execAll (pendsvEntrySave L.toConfig A)).mem (L.ctxt t).toNat =
      Function.update s.out s.cur (TaskCtxt.ofCpu A s.cpu) t := by
  rw [save_mem A (by rw [h.curTask]; exact L.fits s.cur), h.curTask, L.load_tls rfl]
  by_cases ht : t = s.cur
  · subst ht
    rw [TaskCtxt.load_storeWords, Function.update_self]
  · have hapart := L.apart t s.cur ht
    have hlen := (TaskCtxt.ofCpu A s.cpu).length_words
    unfold Apart at hapart
    rw [Function.update_of_ne ht, ← h.ctxt t ht]
    exact TaskCtxt.load_congr (agreeOn_storeWords (by omega))

omit [DecidableEq τ] in
/-- When the handler is called, the task local storage is that of the kernel. -/
theorem Inv.kernelTls (h : Inv L s) :
    TaskLocalStorage.load (s.cpu.execAll (pendsvEntrySave L.toConfig A)).mem tlsMemAddr.toNat =
      ⟨L.kernStkBoundary, 0, 0⟩ := by
  rw [save_mem A (by rw [h.curTask]; exact L.fits s.cur)]
  simp only [TaskLocalStorage.load, TaskLocalStorage.mk.injEq]
  exact ⟨word_storeWords (i := 0) rfl, word_storeWords (i := 1) rfl, word_storeWords (i := 2) rfl⟩

theorem Inv.pendSv {handler : Handler} {next : τ} (h : Inv L s) (hok : ok L s (.pendSv handler next)) :
    ∃ s', step L s (.pendSv handler next) = some s' ∧ Inv L s' ∧ s'.cur = next ∧ Restored L s handler s' := by
  obtain ⟨hctxts, htls, hnext, hmsp⟩ := hok
  let ret := handler.ret (s.cpu.execAll (pendsvEntrySave L.toConfig A))
  obtain ⟨vs, hvs, hmem⟩ := restore_mem (c := ret) (k := L.toConfig) A
  have hret : ∀ t, TaskCtxt.load A ret.mem (L.ctxt t).toNat =
      Function.update s.out s.cur (TaskCtxt.ofCpu A s.cpu) t := fun t => by
    rw [← h.save t]
    exact TaskCtxt.load_congr (hctxts t)
  have hrestore : TaskCtxt.ofCpu A (ret.execAll (pendsvEntryRestore L.toConfig A)) =
      Function.update s.out s.cur (TaskCtxt.ofCpu A s.cpu) next := by
    rw [restore_ctxt A (by rw [hnext]; exact L.fits next) (by rw [hnext]; exact L.tls next), hnext]
    exact hret next
  have hmsp' : ret.msp = L.kernStkBottom := by rw [hmsp, save_msp, h.msp]
  refine ⟨⟨(ret.execAll (pendsvEntryRestore L.toConfig A)).exec (.const (exReturn A).1 (exReturn A).2), next,
    Function.update s.out s.cur (TaskCtxt.ofCpu A s.cpu)⟩, ?_, ⟨?_, ?_, fun t _ => ?_⟩, rfl, ?_, fun c hc => ?_⟩
  · have hzero := restore_zero (c := ret) (k := L.toConfig) A
    rw [hmsp', beq_self_eq_true] at hzero
    simp only [step, pendsvEntry, pendsvEntryReturn]
    rw [if_pos hzero]
    rfl
  · change word (ret.execAll (pendsvEntryRestore L.toConfig A)).mem L.curTask.toNat = L.ctxt next
    rw [hmem, L.word_tls hvs, hnext]
  · exact (restore_msp A).trans hmsp'
  · change TaskCtxt.load A (ret.execAll (pendsvEntryRestore L.toConfig A)).mem (L.ctxt t).toNat = _
    rw [hmem, L.load_tls hvs]
    exact hret t
  · exact (ofCpu_exReturn A _).trans hrestore
  · rw [TaskLocalStorage.load_congr (htls c hc)]
    exact h.kernelTls

theorem inv_step {a : Action τ} (h : Inv L s) (hok : ok L s a) : ∃ s', step L s a = some s' ∧ Inv L s' := by
  cases a with
  | run cpu =>
    obtain ⟨hctxts, hcur, hmsp⟩ := hok
    refine ⟨_, rfl, ⟨?_, hmsp, fun t ht => ?_⟩⟩
    · exact (word_congr hcur).trans h.curTask
    · exact (TaskCtxt.load_congr (hctxts t)).trans (h.ctxt t ht)
  | pendSv handler next =>
    obtain ⟨s', hstep, hinv, -⟩ := h.pendSv hok
    exact ⟨s', hstep, hinv⟩

/-- The system at start: one task runs, and every task has some initial context. -/
structure Init (L : Layout τ A) (s : System τ A) : Prop where
  curTask : word s.cpu.mem L.curTask.toNat = L.ctxt s.cur
  msp : s.cpu.msp = L.kernStkBottom
  out : ∀ t, s.out t = TaskCtxt.load A s.cpu.mem (L.ctxt t).toNat

/-- In every run, every switch returns to the chosen task, and that task finds its registers,
its stack pointer and its local storage as they were when it was switched out. -/
theorem exec_restored {as : List (Action τ)} {handler : Handler} {next : τ} (hinit : Init L s)
    (hok : Run.Allowed (step L) (ok L) s (as ++ [.pendSv handler next])) :
    ∃ t t', Run.exec (step L) s as = some t ∧ step L t (.pendSv handler next) = some t' ∧
      t'.cur = next ∧ Restored L t handler t' := by
  rw [Run.allowed_append] at hok
  have hinv : Inv L s := ⟨hinit.curTask, hinit.msp, fun t _ => (hinit.out t).symm⟩
  obtain ⟨t, hrun, ht⟩ := Run.exec_total (Inv L) inv_step hinv hok.1
  obtain ⟨t', hstep, -, hcur, hrestored⟩ := ht.pendSv (hok.2 t hrun).1
  exact ⟨t, t', hrun, hstep, hcur, hrestored⟩

/-- A handler that does nothing but choose a task. -/
def Handler.choose (L : Layout τ A) (next : τ) : Handler where
  during c := [c]
  ret c := { c with mem := setWord c.mem L.curTask.toNat (L.ctxt next) }

omit [DecidableEq τ] in
theorem Handler.choose_ok (L : Layout τ A) (c : Cpu) (next : τ) : (Handler.choose L next).Ok L c next where
  ctxts t := by
    have hapart := L.curTaskCtxt t
    unfold Apart at hapart
    exact Mem.agreeOn_store32 (by omega)
  tls d hd := by
    rw [List.mem_singleton.mp hd]
    exact Mem.AgreeOn.refl
  next := word_setWord_same
  msp := rfl

/-- Two tasks. -/
def twoTasks : Layout Bool .armv7em where
  curTask := 0x20020000
  kernStkBoundary := 0x20000020
  kernStkBottom := 0x20001000
  ctxt t := if t then 0x20010000 else 0x20011000
  fits := by decide
  apart := by unfold Apart; decide
  tls := by unfold Apart; decide
  curTaskCtxt := by unfold Apart; decide
  curTaskTls := by unfold Apart; decide

/-- The first of two tasks runs, with a seven in `r4`, and the second one has a context of
zeros. -/
def twoTasksInit : System Bool .armv7em :=
  let cpu : Cpu :=
    { reg := fun r => if r = .r4 then 7 else 0
      fp := fun _ => 0
      psp := 0x20015000
      msp := twoTasks.kernStkBottom
      zero := false
      mem := setWord (fun _ => 0) twoTasks.curTask.toNat (twoTasks.ctxt true) }
  { cpu := cpu, cur := true, out := fun t => TaskCtxt.load _ cpu.mem (twoTasks.ctxt t).toNat }

/-- The first task is switched out and in again. -/
theorem exec_restored_twoTasks : ∃ t t',
    Run.exec (step twoTasks) twoTasksInit [.pendSv (.choose twoTasks false) false] = some t ∧
      step twoTasks t (.pendSv (.choose twoTasks true) true) = some t' ∧ t'.cur = true ∧
      Restored twoTasks t (.choose twoTasks true) t' := by
  refine exec_restored ⟨word_setWord_same, rfl, fun _ => rfl⟩ ⟨Handler.choose_ok _ _ _, fun s _ => ?_⟩
  exact ⟨Handler.choose_ok _ _ _, fun _ _ => trivial⟩

end Hopter.Interrupt
