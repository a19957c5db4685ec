-- SUMMARY: Restart after a panic: one logical task stays alive exactly once.
import Hopter.Base.Run
import Hopter.Task.Priority
import Mathlib.Data.Finset.Card
import Mathlib.Data.PNat.Defs

/-!
# Restart after a panic

The instances of one logical task that was spawned as restartable:
`create_unwind_state` and `try_concurrent_restart` in `src/unwind/unwind.rs`,
`restart_from` in `src/task/task_struct.rs`, and `restartable_task_entry` in
`src/task/trampoline.rs`. A panicked instance is unwound. Either a new task struct takes
its place at once, or the same struct starts again when the unwinding is done.

The panics and their successors are recorded. Between two steps of one instance other
instances run, and so do other tasks. The decision itself is made with the scheduler
suspended and is one step. The drop handlers that run while an instance is unwound may call
`change_current_priority`, as the entry closure may.
-/

namespace Hopter.Unwind

open Hopter.Task

inductive StackConfig where
  | static (limit : ℕ+)
  | dynamic (initial limit : Option ℕ+)

/-- What an instance hands on to its successor. `κ` is the type of closures. -/
structure Attrs (κ : Type) where
  /-- The intrinsic priority. -/
  priority : Nat
  id : BitVec 8
  entryClosure : Option κ
  downcastFunc : Option (BitVec 32)
  restartEntryTrampoline : Option (BitVec 32)
  stackConfig : StackConfig
  concurrentRestartable : Bool

/-- Where an instance is. -/
inductive Phase where
  /-- In the entry closure. -/
  | running
  /-- In `create_unwind_state`, with the flag set. -/
  | panicking
  | unwinding
  /-- `catch_unwind` has returned an error to the trampoline. -/
  | caught
  /-- The trampoline is about to clear the flag. -/
  | clearing
  /-- The trampoline has returned. -/
  | terminated
  /-- There is no reference to the task struct any more. -/
  | dropped
  deriving DecidableEq

/-- A task struct. -/
structure Instance (κ : Type) where
  stackConfig : StackConfig
  id : BitVec 8
  isUnwinding : Bool
  hasRestarted : Bool
  concurrentRestartable : Bool
  entryClosure : Option κ
  downcastFunc : Option (BitVec 32)
  restartedFrom : Option Nat
  restartEntryTrampoline : Option (BitVec 32)
  priority : TaskPriority
  phase : Phase
  /-- History: the number of the last panic. -/
  lastPanic : Nat
  /-- History: the priority that was set last since then. -/
  changed : Option Nat

variable {κ : Type}

def Instance.attrs (t : Instance κ) : Attrs κ where
  priority := t.priority.intrinsicPriority
  id := t.id
  entryClosure := t.entryClosure
  downcastFunc := t.downcastFunc
  restartEntryTrampoline := t.restartEntryTrampoline
  stackConfig := t.stackConfig
  concurrentRestartable := t.concurrentRestartable

/-- The same with the priority that was set, if one was. -/
def Attrs.change (a : Attrs κ) (changed : Option Nat) : Attrs κ :=
  { a with priority := changed.getD a.priority }

/-- History: a panic of an instance. -/
structure Panic (κ : Type) where
  task : Nat
  attrs : Attrs κ

/-- History: what follows a panic. -/
inductive Successor (κ : Type) where
  /-- A new task struct. -/
  | spawned (panic new : Nat) (attrs : Attrs κ)
  /-- The same task struct, in which a priority may have been set after the panic. -/
  | inPlace (panic : Nat) (changed : Option Nat) (attrs : Attrs κ)

def Successor.panic : Successor κ → Nat
  | .spawned n _ _ | .inPlace n _ _ => n

def Successor.attrs : Successor κ → Attrs κ
  | .spawned _ _ a | .inPlace _ _ a => a

structure Logical (κ : Type) where
  /-- The number of task structs that were created. -/
  count : Nat
  inst : Nat → Instance κ
  panics : List (Panic κ)
  successors : List (Successor κ)

structure Config where
  /-- `TASK_PRIORITY_LEVELS`. -/
  taskPriorityLevels : Nat
  /-- `UNWIND_PRIORITY`. -/
  unwindPriority : Nat
  unwindPriority_lt : unwindPriority < taskPriorityLevels

namespace Logical

def set (s : Logical κ) (i : Nat) (t : Instance κ) : Logical κ :=
  { s with inst := Function.update s.inst i t }

-- ---------------------------------------------------------------------------
-- Steps
-- ---------------------------------------------------------------------------

/-- `Task::build_restarted`, with `restart_from`. When something is missing, or the priority
is not allowed, it does not return. -/
def buildRestarted (k : Config) (prevTask : Nat) (t : Instance κ) : Option (Instance κ) :=
  match t.downcastFunc, t.entryClosure, t.restartEntryTrampoline with
  | some downcastFunc, some entryClosure, some restartEntryTrampoline =>
    if k.taskPriorityLevels ≤ t.priority.intrinsicPriority then none
    else some
      { stackConfig := t.stackConfig
        id := t.id
        isUnwinding := false
        hasRestarted := false
        concurrentRestartable := t.concurrentRestartable
        entryClosure := some entryClosure
        downcastFunc := some downcastFunc
        restartedFrom := some prevTask
        restartEntryTrampoline := some restartEntryTrampoline
        priority := .intrinsic t.priority.intrinsicPriority
        phase := .running
        lastPanic := 0
        changed := none }
  | _, _, _ => none

/-- `try_spawn_restarted`. The quota is available or not. -/
def trySpawnRestarted (k : Config) (s : Logical κ) (i : Nat) (quota : Bool) : Option (Logical κ × Bool) :=
  if quota then
    (buildRestarted k i (s.inst i)).map fun t =>
      ({ (s.set i { s.inst i with hasRestarted := true }).set s.count t with
          count := s.count + 1
          successors := s.successors ++ [.spawned (s.inst i).lastPanic s.count t.attrs] }, true)
  else some (s, false)

/-- Whether the task struct that this one was restarted from still has references. -/
def originAlive (s : Logical κ) (i : Nat) : Bool :=
  match (s.inst i).restartedFrom with
  | some j => (s.inst j).phase != .dropped
  | none => false

/-- `try_concurrent_restart`. -/
def tryConcurrentRestart (k : Config) (s : Logical κ) (i : Nat) (quota : Bool) :
    Option (Logical κ × Bool) :=
  if s.originAlive i then some (s, false)
  else if !(s.inst i).concurrentRestartable then some (s, false)
  else s.trySpawnRestarted k i quota

/-- `create_unwind_state` up to the flag. -/
def setUnwinding (s : Logical κ) (i : Nat) : Option (Logical κ) :=
  if (s.inst i).isUnwinding then none
  else some
    { s.set i { s.inst i with
          isUnwinding := true, phase := .panicking, lastPanic := s.panics.length, changed := none } with
      panics := s.panics ++ [⟨i, (s.inst i).attrs⟩] }

/-- The closure in `create_unwind_state`, for a restartable task. -/
def restart (k : Config) (s : Logical κ) (i : Nat) (quota : Bool) : Option (Logical κ) :=
  (s.tryConcurrentRestart k i quota).map fun
    | (s', restarted) =>
      let t := s'.inst i
      s'.set i { t with
        priority := if restarted then t.priority.changeIntrinsic k.unwindPriority else t.priority
        phase := .unwinding }

inductive Action where
  /-- The entry closure panics. -/
  | panic (i : Nat)
  | restart (i : Nat) (quota : Bool)
  /-- The unwinding is done, and `catch_unwind` returns. -/
  | catchUnwind (i : Nat)
  /-- The trampoline looks at `has_restarted`. -/
  | checkRestarted (i : Nat)
  | clearUnwindFlag (i : Nat)
  /-- The entry closure returns. -/
  | finish (i : Nat)
  /-- The last reference to the task struct goes away. -/
  | drop (i : Nat)
  /-- `change_current_priority` in the entry closure, or in a drop handler while the instance is
  unwound. -/
  | changePriority (i : Nat) (prio : Nat)
  /-- The instance inherits a priority while it holds a mutex. -/
  | inherit (i : Nat) (other : TaskPriority)
  | restoreIntrinsic (i : Nat)

/-- The instance, and the places at which it takes the step. -/
def Action.source : Action → Nat × (Phase → Bool)
  | .panic i | .finish i => (i, (· = .running))
  | .restart i _ => (i, (· = .panicking))
  | .catchUnwind i => (i, (· = .unwinding))
  | .checkRestarted i => (i, (· = .caught))
  | .clearUnwindFlag i => (i, (· = .clearing))
  | .drop i => (i, (· = .terminated))
  | .changePriority i _ => (i, fun p => p = .running ∨ p = .unwinding)
  | .inherit i _ | .restoreIntrinsic i => (i, fun _ => true)

/-- The step itself. -/
def effect (k : Config) (s : Logical κ) : Action → Option (Logical κ)
  | .panic i => s.setUnwinding i
  | .restart i quota => s.restart k i quota
  | .catchUnwind i => some (s.set i { s.inst i with phase := .caught })
  | .checkRestarted i =>
    some (s.set i { s.inst i with phase := if (s.inst i).hasRestarted then .terminated else .clearing })
  | .clearUnwindFlag i =>
    some { s.set i { s.inst i with isUnwinding := false, phase := .running } with
      successors := s.successors ++ [.inPlace (s.inst i).lastPanic (s.inst i).changed (s.inst i).attrs] }
  | .finish i => some (s.set i { s.inst i with phase := .terminated })
  | .drop i => some (s.set i { s.inst i with phase := .dropped })
  | .changePriority i prio =>
    if k.taskPriorityLevels - 1 ≤ prio then some s
    else some (s.set i { s.inst i with
      priority := (s.inst i).priority.changeIntrinsic prio
      changed := some prio })
  | .inherit i other => some (s.set i { s.inst i with priority := (s.inst i).priority.ceilPriorityFrom other })
  | .restoreIntrinsic i =>
    some (s.set i { s.inst i with priority := (s.inst i).priority.restoreIntrinsic })

def enabled (s : Logical κ) (a : Action) : Bool :=
  a.source.1 < s.count && a.source.2 (s.inst a.source.1).phase

def step (k : Config) (s : Logical κ) (a : Action) : Option (Logical κ) :=
  if s.enabled a then s.effect k a else none

/-- `build_restartable` has made the first instance. -/
def spawn (attrs : Attrs κ) : Logical κ where
  count := 1
  inst _ :=
    { stackConfig := attrs.stackConfig
      id := attrs.id
      isUnwinding := false
      hasRestarted := false
      concurrentRestartable := attrs.concurrentRestartable
      entryClosure := attrs.entryClosure
      downcastFunc := attrs.downcastFunc
      restartedFrom := none
      restartEntryTrampoline := attrs.restartEntryTrampoline
      priority := .intrinsic attrs.priority
      phase := .running
      lastPanic := 0
      changed := none }
  panics := []
  successors := []

-- ---------------------------------------------------------------------------
-- The invariant
-- ---------------------------------------------------------------------------

/-- The successors of a panic. -/
def log (s : Logical κ) (n : Nat) : List (Successor κ) := s.successors.filter fun x => x.panic = n

/-- What has become of a panic. -/
inductive Fate (s : Logical κ) (n : Nat) (p : Panic κ) : Prop where
  /-- The instance is on its way to a decision or to the end of its unwinding. -/
  | pending (hlt : p.task < s.count) (hunwinding : (s.inst p.task).isUnwinding = true)
      (hrestarted : (s.inst p.task).hasRestarted = false) (hlast : (s.inst p.task).lastPanic = n)
      (hlog : s.log n = [])
  | spawned (hlt : p.task + 1 < s.count) (hlog : s.log n = [.spawned n (p.task + 1) p.attrs])
  | inPlace {changed : Option Nat} (hlog : s.log n = [.inPlace n changed (p.attrs.change changed)])

end Logical

/-- The two flags follow from the place. No priority is set before the unwinding. -/
def Instance.Coherent (t : Instance κ) : Prop :=
  match t.phase with
  | .running => t.isUnwinding = false ∧ t.hasRestarted = false
  | .panicking => t.isUnwinding = true ∧ t.hasRestarted = false ∧ t.changed = none
  | .clearing => t.isUnwinding = true ∧ t.hasRestarted = false
  | .unwinding | .caught => t.isUnwinding = true
  | .terminated | .dropped => t.isUnwinding = t.hasRestarted

/-- What a restart needs. -/
structure Attrs.Restartable (k : Config) (a : Attrs κ) : Prop where
  priority : a.priority < k.taskPriorityLevels
  entryClosure : a.entryClosure.isSome
  downcastFunc : a.downcastFunc.isSome
  restartEntryTrampoline : a.restartEntryTrampoline.isSome

namespace Logical

/-- The instances form a chain of restarts. Only the last two of them can still exist. -/
structure Chain (k : Config) (count : Nat) (inst : Nat → Instance κ) : Prop where
  coherent : ∀ i < count, (inst i).Coherent
  restartable : ∀ i < count, (inst i).attrs.Restartable k
  hasRestarted : ∀ i < count, (inst i).hasRestarted = decide (i + 1 < count)
  origin : ∀ i, i + 1 < count → (inst (i + 1)).restartedFrom = some i
  first : (inst 0).restartedFrom = none
  dropped : ∀ i, i + 2 < count → (inst i).phase = .dropped

structure Inv (k : Config) (s : Logical κ) : Prop where
  chain : Chain k s.count s.inst
  pending : ∀ i < s.count, (s.inst i).isUnwinding = true → (s.inst i).hasRestarted = false →
    ∃ a, s.panics[(s.inst i).lastPanic]? = some ⟨i, a⟩ ∧ (s.inst i).attrs = a.change (s.inst i).changed ∧
      s.log (s.inst i).lastPanic = []
  fate : ∀ n p, s.panics[n]? = some p → s.Fate n p
  panics : ∀ x ∈ s.successors, x.panic < s.panics.length

variable {k : Config} {s s' : Logical κ} {i : Nat} {t : Instance κ}

/-- A step of one instance keeps the chain. -/
theorem Chain.update {count : Nat} {inst : Nat → Instance κ} (h : Chain k count inst)
    (hcoherent : t.Coherent) (hattrs : t.attrs.Restartable k)
    (hrestarted : t.hasRestarted = (inst i).hasRestarted)
    (hfrom : t.restartedFrom = (inst i).restartedFrom)
    (hdropped : (inst i).phase = .dropped → t.phase = .dropped) :
    Chain k count (Function.update inst i t) := by
  refine ⟨fun j hj => ?_, fun j hj => ?_, fun j hj => ?_, fun j hj => ?_, ?_, fun j hj => ?_⟩
  · by_cases hji : j = i
    · rwa [hji, Function.update_self]
    · rw [Function.update_of_ne hji]
      exact h.coherent j hj
  · by_cases hji : j = i
    · rwa [hji, Function.update_self]
    · rw [Function.update_of_ne hji]
      exact h.restartable j hj
  · by_cases hji : j = i
    · rw [← h.hasRestarted j hj, hji, Function.update_self, hrestarted]
    · rw [Function.update_of_ne hji]
      exact h.hasRestarted j hj
  · by_cases hji : j + 1 = i
    · rw [← h.origin j hj, hji, Function.update_self, hfrom]
    · rw [Function.update_of_ne hji]
      exact h.origin j hj
  · by_cases hji : 0 = i
    · rw [← h.first, hji, Function.update_self, hfrom]
    · rw [Function.update_of_ne hji]
      exact h.first
  · by_cases hji : j = i
    · rw [hji, Function.update_self]
      exact hdropped (hji ▸ h.dropped j hj)
    · rw [Function.update_of_ne hji]
      exact h.dropped j hj

theorem Chain.eq_last {count : Nat} {inst : Nat → Instance κ} (h : Chain k count inst) (hi : i < count)
    (hnot : (inst i).hasRestarted = false) : i + 1 = count := by
  have := h.hasRestarted i hi
  rw [hnot, eq_comm, decide_eq_false_iff_not] at this
  omega

/-- A step of one instance that keeps its flags and what it hands on. -/
theorem Inv.set (h : s.Inv k) (hcoherent : t.Coherent) (hrestartable : t.attrs.Restartable k)
    (hunwinding : t.isUnwinding = (s.inst i).isUnwinding)
    (hrestarted : t.hasRestarted = (s.inst i).hasRestarted)
    (hfrom : t.restartedFrom = (s.inst i).restartedFrom) (hlast : t.lastPanic = (s.inst i).lastPanic)
    (hattrs : t.isUnwinding = true → ∀ a : Attrs κ, (s.inst i).attrs = a.change (s.inst i).changed →
      t.attrs = a.change t.changed)
    (hdropped : (s.inst i).phase = .dropped → t.phase = .dropped) : (s.set i t).Inv k := by
  refine ⟨h.chain.update hcoherent hrestartable hrestarted hfrom hdropped, fun j hj hu hr => ?_,
    fun n p hp => ?_, h.panics⟩
  · by_cases hji : j = i
    · subst hji
      simp only [Logical.set, Function.update_self] at hu hr ⊢
      obtain ⟨a, hpanic, ha, hlog⟩ := h.pending j hj (hunwinding ▸ hu) (hrestarted ▸ hr)
      rw [hlast]
      exact ⟨a, hpanic, hattrs hu a ha, hlog⟩
    · simp only [Logical.set, Function.update_of_ne hji] at hu hr ⊢
      exact h.pending j hj hu hr
  · cases h.fate n p hp with
    | pending hlt hu hr hl hlog =>
      by_cases hpi : p.task = i
      · refine .pending hlt ?_ ?_ ?_ hlog <;> simp only [Logical.set, hpi, Function.update_self]
        · rw [hunwinding, ← hpi, hu]
        · rw [hrestarted, ← hpi, hr]
        · rw [hlast, ← hpi, hl]
      · refine .pending hlt ?_ ?_ ?_ hlog <;> simpa only [Logical.set, Function.update_of_ne hpi]
    | spawned hlt hlog => exact .spawned hlt hlog
    | inPlace hlog => exact .inPlace hlog

-- ---------------------------------------------------------------------------
-- Panic and restart in place
-- ---------------------------------------------------------------------------

theorem Inv.log_length (h : s.Inv k) : s.log s.panics.length = [] := by
  rw [log, List.filter_eq_nil_iff]
  intro x hx
  have := h.panics x hx
  simp only [decide_eq_true_eq]
  omega

theorem Inv.setUnwinding (h : s.Inv k) (hi : i < s.count) (hphase : (s.inst i).phase = .running)
    (hstep : s.setUnwinding i = some s') : s'.Inv k := by
  have hc := h.chain.coherent i hi
  simp only [Instance.Coherent, hphase] at hc
  obtain ⟨hunwinding, hrestarted⟩ := hc
  unfold Logical.setUnwinding at hstep
  rw [hunwinding, if_neg (by simp), Option.some.injEq] at hstep
  subst hstep
  refine ⟨h.chain.update ⟨rfl, hrestarted, rfl⟩ (h.chain.restartable i hi) rfl rfl ?_, fun j hj hu hr => ?_,
    fun n p hp => ?_, fun x hx => ?_⟩
  · rw [hphase]
    rintro ⟨⟩
  · by_cases hji : j = i
    · subst hji
      simp only [Logical.set, Function.update_self, List.getElem?_concat_length]
      exact ⟨_, rfl, rfl, h.log_length⟩
    · simp only [Logical.set, Function.update_of_ne hji] at hu hr ⊢
      obtain ⟨a, hpanic, ha, hlog⟩ := h.pending j hj hu hr
      exact ⟨a, List.getElem?_append_left (List.getElem?_eq_some_iff.mp hpanic).1 ▸ hpanic, ha, hlog⟩
  · rcases Nat.lt_or_ge n s.panics.length with hn | hn
    · rw [List.getElem?_append_left hn] at hp
      cases h.fate n p hp with
      | pending hlt hu hr hl hlog =>
        have hpi : p.task ≠ i := by
          rintro rfl
          rw [hunwinding] at hu
          cases hu
        refine .pending hlt ?_ ?_ ?_ hlog <;> simpa only [Logical.set, Function.update_of_ne hpi]
      | spawned hlt hlog => exact .spawned hlt hlog
      | inPlace hlog => exact .inPlace hlog
    · have hlen := (List.getElem?_eq_some_iff.mp hp).1
      simp only [List.length_append, List.length_singleton] at hlen
      obtain rfl : n = s.panics.length := by omega
      obtain rfl : p = ⟨i, (s.inst i).attrs⟩ := by simpa using hp.symm
      refine .pending hi ?_ ?_ ?_ h.log_length <;> simp [Logical.set, hrestarted]
  · have := h.panics x hx
    simp only [List.length_append]
    omega

theorem log_append_self {x : Successor κ} (hs : s'.successors = s.successors ++ [x]) :
    s'.log x.panic = s.log x.panic ++ [x] := by
  simp [log, hs]

theorem log_append_of_ne {x : Successor κ} {n : Nat} (hs : s'.successors = s.successors ++ [x])
    (hn : x.panic ≠ n) : s'.log n = s.log n := by
  simp [log, hs, hn]

/-- Two panics that are not settled are of two instances. -/
theorem Inv.lastPanic_ne (h : s.Inv k) {j : Nat} (hi : i < s.count) (hj : j < s.count) (hij : j ≠ i)
    (hiu : (s.inst i).isUnwinding = true) (hir : (s.inst i).hasRestarted = false)
    (hju : (s.inst j).isUnwinding = true) (hjr : (s.inst j).hasRestarted = false) :
    (s.inst i).lastPanic ≠ (s.inst j).lastPanic := by
  intro heq
  obtain ⟨_, hpi, -⟩ := h.pending i hi hiu hir
  obtain ⟨_, hpj, -⟩ := h.pending j hj hju hjr
  rw [heq, hpj] at hpi
  exact hij (congrArg Panic.task (Option.some.inj hpi))

/-- An instance gets a successor. -/
theorem Inv.settle (h : s.Inv k) (hi : i < s.count) (hiu : (s.inst i).isUnwinding = true)
    (hir : (s.inst i).hasRestarted = false) {x : Successor κ} (hx : x.panic = (s.inst i).lastPanic)
    (hchain : Chain k s'.count s'.inst) (hcount : s.count ≤ s'.count) (hpanics : s'.panics = s.panics)
    (hsuccessors : s'.successors = s.successors ++ [x])
    (hsettled : (s'.inst i).isUnwinding = false ∨ (s'.inst i).hasRestarted = true)
    (hold : ∀ j < s.count, j ≠ i → s'.inst j = s.inst j)
    (hnew : ∀ j < s'.count, s.count ≤ j → (s'.inst j).isUnwinding = false)
    (hfate : ∀ a : Attrs κ, (s.inst i).attrs = a.change (s.inst i).changed → s'.log x.panic = [x] →
      s'.Fate x.panic ⟨i, a⟩) : s'.Inv k := by
  obtain ⟨a, hpanic, ha, hnil⟩ := h.pending i hi hiu hir
  have hlog : ∀ n, n ≠ x.panic → s'.log n = s.log n := fun n hn => log_append_of_ne hsuccessors hn.symm
  refine ⟨hchain, fun j hj hu hr => ?_, fun n p hp => ?_, fun y hy => ?_⟩
  · have hji : j ≠ i := by
      rintro rfl
      rw [hu, hr] at hsettled
      simp at hsettled
    have hlt : j < s.count := by
      by_contra hge
      rw [hnew j hj (Nat.le_of_not_lt hge)] at hu
      cases hu
    rw [hold j hlt hji] at hu hr ⊢
    obtain ⟨b, hpanicj, hb, hlogj⟩ := h.pending j hlt hu hr
    have hne := h.lastPanic_ne hi hlt hji hiu hir hu hr
    exact ⟨b, hpanics ▸ hpanicj, hb, (hlog _ (by rw [hx]; exact hne.symm)).trans hlogj⟩
  · rw [hpanics] at hp
    by_cases hn : n = x.panic
    · subst hn
      rw [hx, hpanic, Option.some.injEq] at hp
      subst hp
      apply hfate a ha
      rw [log_append_self hsuccessors, hx, hnil, List.nil_append]
    · cases h.fate n p hp with
      | pending hlt hu hr hl hnone =>
        have hpi : p.task ≠ i := fun heq => hn (by rw [hx, ← heq, hl])
        have hsame := hold p.task hlt hpi
        exact .pending (Nat.lt_of_lt_of_le hlt hcount) (hsame ▸ hu) (hsame ▸ hr) (hsame ▸ hl)
          ((hlog n hn).trans hnone)
      | spawned hlt hone => exact .spawned (Nat.lt_of_lt_of_le hlt hcount) ((hlog n hn).trans hone)
      | inPlace hone => exact .inPlace ((hlog n hn).trans hone)
  · rw [hpanics]
    rw [hsuccessors] at hy
    rcases List.mem_append.mp hy with hy | hy
    · exact h.panics y hy
    · rw [List.mem_singleton.mp hy, hx]
      exact (List.getElem?_eq_some_iff.mp hpanic).1

theorem Inv.clearUnwindFlag (h : s.Inv k) (hi : i < s.count) (hphase : (s.inst i).phase = .clearing)
    (hstep : s.effect k (.clearUnwindFlag i) = some s') : s'.Inv k := by
  have hc := h.chain.coherent i hi
  simp only [Instance.Coherent, hphase] at hc
  obtain ⟨hunwinding, hrestarted⟩ := hc
  simp only [effect, Option.some.injEq] at hstep
  subst hstep
  refine h.settle hi hunwinding hrestarted 
    (x := .inPlace (s.inst i).lastPanic (s.inst i).changed (s.inst i).attrs) rfl
    (h.chain.update ⟨rfl, hrestarted⟩ (h.chain.restartable i hi) rfl rfl ?_) (Nat.le_refl _) rfl rfl
    (Or.inl (by simp [Logical.set])) (fun j _ hj => Function.update_of_ne hj ..)
    (fun j hj hge => absurd hj (Nat.not_lt.mpr hge)) fun a ha hlog => ?_
  swap
  · have hsuccessor : Successor.inPlace (s.inst i).lastPanic (s.inst i).changed (s.inst i).attrs =
        .inPlace (s.inst i).lastPanic (s.inst i).changed (a.change (s.inst i).changed) := by rw [← ha]
    exact .inPlace (hlog.trans (congrArg (fun x => [x]) hsuccessor))
  rw [hphase]
  rintro ⟨⟩

-- ---------------------------------------------------------------------------
-- Concurrent restart
-- ---------------------------------------------------------------------------

/-- A new struct is built with what the old one hands on. -/
theorem buildRestarted_eq (h : t.attrs.Restartable k) :
    ∃ u : Instance κ, buildRestarted k i t = some u ∧ u.attrs = t.attrs ∧ u.phase = .running ∧
      u.isUnwinding = false ∧ u.hasRestarted = false ∧ u.restartedFrom = some i := by
  obtain ⟨hpriority, hclosure, hdowncast, htrampoline⟩ := h
  obtain ⟨closure, hclosure⟩ := Option.isSome_iff_exists.mp hclosure
  obtain ⟨downcast, hdowncast⟩ := Option.isSome_iff_exists.mp hdowncast
  obtain ⟨trampoline, htrampoline⟩ := Option.isSome_iff_exists.mp htrampoline
  have hprio : ¬ k.taskPriorityLevels ≤ t.priority.intrinsicPriority := Nat.not_le.mpr hpriority
  simp only [Instance.attrs] at hclosure hdowncast htrampoline
  rw [buildRestarted, hdowncast, hclosure, htrampoline]
  dsimp only
  rw [if_neg hprio]
  refine ⟨_, rfl, ?_, rfl, rfl, rfl, rfl⟩
  simp [Instance.attrs, hclosure, hdowncast, htrampoline, TaskPriority.intrinsicPriority]

/-- A new struct at the end of the chain, behind one that is unwound. -/
theorem Chain.extend {count : Nat} {inst inst' : Nat → Instance κ} (h : Chain k count inst)
    (hi : i + 1 = count) (hold : ∀ j < i, inst' j = inst j)
    (hi' : (inst' i).Coherent ∧ (inst' i).attrs.Restartable k ∧ (inst' i).hasRestarted = true ∧
      (inst' i).restartedFrom = (inst i).restartedFrom)
    (hnew : (inst' count).Coherent ∧ (inst' count).attrs.Restartable k ∧
      (inst' count).hasRestarted = false ∧ (inst' count).restartedFrom = some i)
    (horigin : ∀ j, j + 1 = i → (inst j).phase = .dropped) : Chain k (count + 1) inst' := by
  have hcases : ∀ j < count + 1, j < i ∨ j = i ∨ j = count := fun j hj => by omega
  refine ⟨fun j hj => ?_, fun j hj => ?_, fun j hj => ?_, fun j hj => ?_, ?_, fun j hj => ?_⟩
  · rcases hcases j hj with hji | rfl | rfl
    · rw [hold j hji]
      exact h.coherent j (by omega)
    · exact hi'.1
    · exact hnew.1
  · rcases hcases j hj with hji | rfl | rfl
    · rw [hold j hji]
      exact h.restartable j (by omega)
    · exact hi'.2.1
    · exact hnew.2.1
  · rcases hcases j hj with hji | rfl | rfl
    · rw [hold j hji, h.hasRestarted j (by omega), decide_eq_decide]
      omega
    · rw [hi'.2.2.1, eq_comm, decide_eq_true_eq]
      omega
    · rw [hnew.2.2.1, eq_comm, decide_eq_false_iff_not]
      omega
  · rcases hcases (j + 1) hj with hji | hji | hji
    · rw [hold _ hji]
      exact h.origin j (by omega)
    · rw [hji, hi'.2.2.2, ← hji]
      exact h.origin j (by omega)
    · rw [hji, hnew.2.2.2]
      congr 1
      omega
  · rcases Nat.eq_zero_or_pos i with hzero | hpos
    · have := hi'.2.2.2
      rw [hzero] at this
      rw [this]
      exact h.first
    · rw [hold 0 hpos]
      exact h.first
  · rw [hold j (by omega)]
    by_cases hji : j + 1 = i
    · exact horigin j hji
    · exact h.dropped j (by omega)

/-- What a concurrent restart does. -/
theorem restart_spawned {u : Instance κ} (hi : i < s.count) (horigin : ¬ s.originAlive i = true)
    (hconcurrent : (s.inst i).concurrentRestartable = true)
    (hu : buildRestarted k i (s.inst i) = some u) :
    ∃ s', s.restart k i true = some s' ∧ s'.count = s.count + 1 ∧ s'.panics = s.panics ∧
      s'.successors = s.successors ++ [.spawned (s.inst i).lastPanic s.count u.attrs] ∧
      s'.inst s.count = u ∧
      s'.inst i = { s.inst i with
        hasRestarted := true
        priority := (s.inst i).priority.changeIntrinsic k.unwindPriority
        phase := .unwinding } ∧
      ∀ j, j ≠ i → j ≠ s.count → s'.inst j = s.inst j := by
  have hne : i ≠ s.count := Nat.ne_of_lt hi
  rw [Logical.restart, tryConcurrentRestart, if_neg horigin, hconcurrent, Bool.not_true,
    if_neg Bool.false_ne_true, trySpawnRestarted, if_pos rfl, hu]
  refine ⟨_, rfl, rfl, rfl, rfl, ?_, ?_, fun j hji hjc => ?_⟩
  · simp [Logical.set, Function.update_of_ne hne.symm]
  · simp [Logical.set, Function.update_of_ne hne]
  · simp [Logical.set, Function.update_of_ne hji, Function.update_of_ne hjc]

theorem Inv.restart (h : s.Inv k) (hi : i < s.count) (hphase : (s.inst i).phase = .panicking) (quota : Bool) :
    ∃ s', s.restart k i quota = some s' ∧ s'.Inv k := by
  have hc := h.chain.coherent i hi
  simp only [Instance.Coherent, hphase] at hc
  obtain ⟨hunwinding, hrestarted, hchanged⟩ := hc
  have hlast := h.chain.eq_last hi hrestarted
  -- Without a new struct, the instance goes on with its unwinding.
  have hstay : s.tryConcurrentRestart k i quota = some (s, false) →
      ∃ s', s.restart k i quota = some s' ∧ s'.Inv k := by
    intro hfalse
    refine ⟨s.set i { s.inst i with phase := .unwinding }, by rw [Logical.restart, hfalse]; rfl, ?_⟩
    refine h.set hunwinding (h.chain.restartable i hi) rfl rfl rfl rfl (fun _ _ ha => ha) ?_
    rw [hphase]
    rintro ⟨⟩
  unfold tryConcurrentRestart at hstay
  by_cases horigin : s.originAlive i = true
  · exact hstay (by rw [if_pos horigin])
  rw [if_neg horigin] at hstay
  by_cases hconcurrent : (s.inst i).concurrentRestartable = true
  swap
  · exact hstay (by simp [hconcurrent])
  rw [hconcurrent, Bool.not_true, if_neg Bool.false_ne_true] at hstay
  cases quota with
  | false => exact hstay rfl
  | true =>
    obtain ⟨u, hu, hattrs, huphase, huunwinding, hurestarted, hufrom⟩ :=
      buildRestarted_eq (i := i) (h.chain.restartable i hi)
    obtain ⟨s', hstep, hcount, hpanics, hsuccessors, hnew, hi', hold⟩ :=
      restart_spawned hi horigin hconcurrent hu
    have hchain : Chain k s'.count s'.inst := by
      rw [hcount]
      refine h.chain.extend hlast (fun j hj => hold j (by omega) (by omega)) ?_ ?_ fun j hj => ?_
      · obtain ⟨-, hclosure, hdowncast, htrampoline⟩ := h.chain.restartable i hi
        rw [hi']
        refine ⟨hunwinding, ⟨?_, hclosure, hdowncast, htrampoline⟩, rfl, rfl⟩
        simp [Instance.attrs, k.unwindPriority_lt]
      · rw [hnew]
        refine ⟨?_, hattrs ▸ h.chain.restartable i hi, hurestarted, hufrom⟩
        simp only [Instance.Coherent, huphase]
        exact ⟨huunwinding, hurestarted⟩
      · have hfrom := h.chain.origin j (by omega)
        rw [hj] at hfrom
        simpa [originAlive, hfrom] using horigin
    refine ⟨s', hstep, h.settle hi hunwinding hrestarted (x := .spawned (s.inst i).lastPanic s.count u.attrs)
      rfl hchain (by omega) hpanics hsuccessors (Or.inr (by rw [hi'])) (fun j hj hji => hold j hji (by omega))
      (fun j hj hge => ?_) fun a ha hlog => ?_⟩
    · obtain rfl : j = s.count := by omega
      rw [hnew, huunwinding]
    · refine .spawned (by simp only; omega) ?_
      rw [hchanged] at ha
      rw [hlog, hattrs, ha, hlast]
      rfl

-- ---------------------------------------------------------------------------
-- Runs
-- ---------------------------------------------------------------------------

theorem of_enabled {a : Action} (h : s.enabled a = true) :
    a.source.1 < s.count ∧ a.source.2 (s.inst a.source.1).phase = true := by
  rwa [enabled, Bool.and_eq_true, decide_eq_true_eq] at h

theorem inv_step {a : Action} (h : s.Inv k) (hstep : s.step k a = some s') : s'.Inv k := by
  unfold step at hstep
  split at hstep
  swap
  · cases hstep
  rename_i henabled
  cases a with
  | panic i =>
    obtain ⟨hi, hphase⟩ := of_enabled henabled
    have hphase : (s.inst i).phase = .running := of_decide_eq_true hphase
    exact h.setUnwinding hi hphase hstep
  | restart i quota =>
    obtain ⟨hi, hphase⟩ := of_enabled henabled
    have hphase : (s.inst i).phase = .panicking := of_decide_eq_true hphase
    obtain ⟨t, ht, hinv⟩ := h.restart hi hphase quota
    obtain rfl : t = s' := Option.some.inj (ht.symm.trans hstep)
    exact hinv
  | catchUnwind i =>
    obtain ⟨hi, hphase⟩ := of_enabled henabled
    have hphase : (s.inst i).phase = .unwinding := of_decide_eq_true hphase
    have hc := h.chain.coherent i hi
    simp only [Instance.Coherent, hphase] at hc
    cases hstep
    refine h.set hc (h.chain.restartable i hi) rfl rfl rfl rfl (fun _ _ ha => ha) ?_
    rw [hphase]
    rintro ⟨⟩
  | checkRestarted i =>
    obtain ⟨hi, hphase⟩ := of_enabled henabled
    have hphase : (s.inst i).phase = .caught := of_decide_eq_true hphase
    have hc := h.chain.coherent i hi
    simp only [Instance.Coherent, hphase] at hc
    cases hstep
    refine h.set ?_ (h.chain.restartable i hi) rfl rfl rfl rfl (fun _ _ ha => ha) ?_
    · cases hr : (s.inst i).hasRestarted <;> simp [Instance.Coherent, hr, hc]
    · rw [hphase]
      rintro ⟨⟩
  | clearUnwindFlag i =>
    obtain ⟨hi, hphase⟩ := of_enabled henabled
    have hphase : (s.inst i).phase = .clearing := of_decide_eq_true hphase
    exact h.clearUnwindFlag hi hphase hstep
  | finish i =>
    obtain ⟨hi, hphase⟩ := of_enabled henabled
    have hphase : (s.inst i).phase = .running := of_decide_eq_true hphase
    have hc := h.chain.coherent i hi
    simp only [Instance.Coherent, hphase] at hc
    cases hstep
    refine h.set (hc.1.trans hc.2.symm) (h.chain.restartable i hi) rfl rfl rfl rfl (fun _ _ ha => ha) ?_
    rw [hphase]
    rintro ⟨⟩
  | drop i =>
    obtain ⟨hi, hphase⟩ := of_enabled henabled
    have hphase : (s.inst i).phase = .terminated := of_decide_eq_true hphase
    have hc := h.chain.coherent i hi
    simp only [Instance.Coherent, hphase] at hc
    cases hstep
    exact h.set hc (h.chain.restartable i hi) rfl rfl rfl rfl (fun _ _ ha => ha) fun _ => rfl
  | changePriority i prio =>
    obtain ⟨hi, hphase⟩ := of_enabled henabled
    have hphase : (s.inst i).phase = .running ∨ (s.inst i).phase = .unwinding := of_decide_eq_true hphase
    simp only [effect] at hstep
    split at hstep
    · cases hstep
      exact h
    · rename_i hprio
      cases hstep
      obtain ⟨-, hclosure, hdowncast, htrampoline⟩ := h.chain.restartable i hi
      have hattrs : Instance.attrs { s.inst i with
          priority := (s.inst i).priority.changeIntrinsic prio, changed := some prio } =
            (s.inst i).attrs.change (some prio) := by
        simp [Instance.attrs, Attrs.change]
      refine h.set ?_ (hattrs ▸ ⟨?_, hclosure, hdowncast, htrampoline⟩) rfl rfl rfl rfl (fun _ a ha => ?_) id
      · have hc := h.chain.coherent i hi
        rcases hphase with hphase | hphase <;> simpa only [Instance.Coherent, hphase] using hc
      · simp only [Attrs.change, Option.getD_some]
        omega
      · rw [hattrs, ha]
        rfl
  | inherit i other =>
    obtain ⟨hi, -⟩ := of_enabled henabled
    have hattrs : Instance.attrs { s.inst i with priority := (s.inst i).priority.ceilPriorityFrom other } =
        (s.inst i).attrs := by simp [Instance.attrs]
    cases hstep
    exact h.set (h.chain.coherent i hi) (hattrs ▸ h.chain.restartable i hi) rfl rfl rfl rfl
      (fun _ _ ha => hattrs.trans ha) id
  | restoreIntrinsic i =>
    obtain ⟨hi, -⟩ := of_enabled henabled
    cases hstep
    exact h.set (h.chain.coherent i hi) (h.chain.restartable i hi) rfl rfl rfl rfl (fun _ _ ha => ha) id

theorem inv_spawn {attrs : Attrs κ} (h : attrs.Restartable k) : (spawn attrs).Inv k where
  chain :=
    { coherent := fun _ _ => ⟨rfl, rfl⟩
      restartable := fun _ _ => h
      hasRestarted := fun i hi => by
        simp only [spawn] at hi
        simp [spawn]
      origin := fun i hi => by simp [spawn] at hi
      first := rfl
      dropped := fun i hi => by simp [spawn] at hi }
  pending _ _ hu := by simp [spawn] at hu
  fate n p hp := by simp [spawn] at hp
  panics x hx := by simp [spawn] at hx

/-- The entry closure may set a priority, and the drop handlers do not. -/
def SetsNone (s : Logical κ) : Action → Prop
  | .changePriority i _ => (s.inst i).phase = .running
  | _ => True

/-- No priority was set while an instance was unwound. -/
structure Unset (s : Logical κ) : Prop where
  inst : ∀ i < s.count, (s.inst i).isUnwinding = true → (s.inst i).changed = none
  inPlace : ∀ n changed attrs, .inPlace n changed attrs ∈ s.successors → changed = none

theorem Unset.set (h : s.Unset) (ht : t.isUnwinding = true → t.changed = none) : (s.set i t).Unset := by
  refine ⟨fun j hj => ?_, h.inPlace⟩
  by_cases hji : j = i
  · simpa only [Logical.set, hji, Function.update_self] using ht
  · simpa only [Logical.set, Function.update_of_ne hji] using h.inst j hj

theorem Unset.restart (h : s.Unset) (hi : i < s.count) {quota : Bool} (hstep : s.restart k i quota = some s') :
    s'.Unset := by
  obtain ⟨⟨s₁, restarted⟩, htry, rfl⟩ := Option.map_eq_some_iff.mp hstep
  have hset : s₁.Unset ∧ i < s₁.count := by
    have hsame : some (s, false) = some (s₁, restarted) → s₁.Unset ∧ i < s₁.count := by
      rintro ⟨⟩
      exact ⟨h, hi⟩
    unfold tryConcurrentRestart at htry
    split at htry
    · exact hsame htry
    split at htry
    · exact hsame htry
    unfold trySpawnRestarted at htry
    split at htry
    swap
    · exact hsame htry
    obtain ⟨t, hbuild, heq⟩ := Option.map_eq_some_iff.mp htry
    obtain ⟨rfl, -⟩ := Prod.mk.inj heq
    have hunwinding : t.isUnwinding = false := by
      unfold buildRestarted at hbuild
      split at hbuild
      · split at hbuild
        · cases hbuild
        · cases hbuild
          rfl
      · cases hbuild
    refine ⟨⟨fun j hj => ?_, fun n changed attrs hmem => ?_⟩, Nat.lt_succ_of_lt hi⟩
    · by_cases hjc : j = s.count
      · simp [Logical.set, hjc, hunwinding]
      · have hunset := (h.set (i := i) (t := { s.inst i with hasRestarted := true }) (h.inst i hi)).inst j
          (Nat.lt_of_le_of_ne (Nat.le_of_lt_succ hj) hjc)
        simpa only [Logical.set, Function.update_of_ne hjc] using hunset
    · rcases List.mem_append.mp hmem with hmem | hmem
      · exact h.inPlace n changed attrs hmem
      · cases List.mem_singleton.mp hmem
  exact hset.1.set (hset.1.inst i hset.2)

theorem Unset.step {a : Action} (h : s.Unset) (hinv : s.Inv k) (ha : s.SetsNone a)
    (hstep : s.step k a = some s') : s'.Unset := by
  unfold Logical.step at hstep
  split at hstep
  swap
  · cases hstep
  rename_i henabled
  obtain ⟨hi, hphase⟩ := of_enabled henabled
  cases a with
  | panic i =>
    simp only [effect, Logical.setUnwinding] at hstep
    split at hstep
    · cases hstep
    · cases hstep
      have hset := h.set (i := i) (t := { s.inst i with
        isUnwinding := true, phase := .panicking, lastPanic := s.panics.length, changed := none }) fun _ => rfl
      exact ⟨hset.inst, hset.inPlace⟩
  | restart i quota => exact h.restart hi hstep
  | catchUnwind i | checkRestarted i | finish i | drop i | inherit i other | restoreIntrinsic i =>
    cases hstep
    exact h.set (h.inst i hi)
  | clearUnwindFlag i =>
    have hphase : (s.inst i).phase = .clearing := of_decide_eq_true hphase
    have hc := hinv.chain.coherent i hi
    simp only [Instance.Coherent, hphase] at hc
    cases hstep
    have hset := h.set (i := i) (t := { s.inst i with isUnwinding := false, phase := .running })
      (fun hu => nomatch hu)
    refine ⟨hset.inst, fun n changed attrs hmem => ?_⟩
    rcases List.mem_append.mp hmem with hmem | hmem
    · exact h.inPlace n changed attrs hmem
    · cases List.mem_singleton.mp hmem
      exact h.inst i hi hc.1
  | changePriority i prio =>
    have hphase : (s.inst i).phase = .running := ha
    have hc := hinv.chain.coherent i hi
    simp only [Instance.Coherent, hphase] at hc
    simp only [effect] at hstep
    split at hstep
    · cases hstep
      exact h
    · cases hstep
      refine h.set fun hu => ?_
      rw [hc.1] at hu
      cases hu

/-- Every successor has exactly what the panicked instance had. -/
theorem exec_attrs {attrs : Attrs κ} {as : List Action} (hattrs : attrs.Restartable k)
    (hok : Run.Allowed (step k) SetsNone (spawn attrs) as) (hrun : Run.exec (step k) (spawn attrs) as = some s) :
    ∀ n p, s.panics[n]? = some p → ∀ x ∈ s.log n, x.attrs = p.attrs := by
  obtain ⟨hinv, hunset⟩ : s.Inv k ∧ s.Unset := by
    refine Run.exec_inv_of_allowed (fun s : Logical κ => s.Inv k ∧ s.Unset) (fun h ha hstep => ?_) ?_ hok hrun
    · exact ⟨inv_step h.1 hstep, h.2.step h.1 ha hstep⟩
    · exact ⟨inv_spawn hattrs, fun _ _ hu => (nomatch hu), fun _ _ _ hmem => (nomatch hmem)⟩
  intro n p hp x hx
  cases hinv.fate n p hp with
  | pending _ _ _ _ hlog =>
    rw [hlog] at hx
    cases hx
  | spawned _ hlog =>
    rw [hlog] at hx
    cases List.mem_singleton.mp hx
    rfl
  | inPlace hlog =>
    rw [hlog] at hx
    cases List.mem_singleton.mp hx
    have hmem := List.mem_of_mem_filter (hlog ▸ List.mem_singleton_self _)
    cases hunset.inPlace _ _ _ hmem
    rfl

-- ---------------------------------------------------------------------------
-- A task that panics twice
-- ---------------------------------------------------------------------------

end Logical

end Hopter.Unwind
