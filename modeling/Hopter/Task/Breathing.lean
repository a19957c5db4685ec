-- SUMMARY: Breathing tasks: no more than the permitted number do their work at once, whatever panics.
import Hopter.Sync.SemaphoreInvariant

/-!
# Breathing tasks

`src/task/breathing.rs`. A breathing task waits for an item and then works on it. Before its work it
takes a permit from the semaphore `CONCUR_CTRL_SEM`, and a guard gives the permit back when the work
is done or panics.

The closures are those of an application, which may use other semaphores and may panic at any of its
steps. A task that panics may start again from its entry; one that starts again while the panicked
task still unwinds is a task of its own. The other tasks and the interrupt handlers are the
application's as well. `CONCUR_CTRL_SEM` is private to the breathing tasks.

The panics are those of the closures. A stack overflow inside of `down` is not among them: it could
divert the task to the unwinder after the counter has changed and before there is a guard.
-/

namespace Hopter.Task

open Exec Sync

-- ---------------------------------------------------------------------------
-- The entry closure
-- ---------------------------------------------------------------------------

/-- The three closures of a breathing task. -/
inductive Closure where
  | init
  | wait
  | work
  deriving DecidableEq

/-- What a closure does in a step: it goes on after some calls, returns, or panics. -/
inductive Progress (S κ γ : Type) where
  | go (calls : List (Call S κ γ))
  | done
  | panic

/-- An application: the closures of its breathing tasks `T`, and a client for everything else. -/
structure App (S κ γ ρ ι ξ T : Type) where
  closure : ρ → T → Closure → ξ → Option (ρ × Progress S κ γ)
  /-- Whether a task that has panicked runs its entry again. -/
  restarts : ρ → T → ξ → Bool
  client : Client S κ γ ρ ι ξ

/-- The steps of the breathing tasks and of the application. -/
inductive BreathingStep (T γ : Type) where
  /-- The closure runs. During the work the task has a `SemGuard`. -/
  | run (t : T) (c : Closure)
  /-- A panic has left the entry closure. -/
  | unwound (t : T)
  | app (g : γ)

/-- What comes after a call. -/
inductive BreathingCont (T κ : Type) where
  /-- After `CONCUR_CTRL_SEM.down()`. -/
  | permitted (t : T)
  /-- After the drop of the `SemGuard`. -/
  | dropped (t : T) (panicking : Bool)
  | app (k : κ)

variable {S κ γ ρ ι ξ τ T : Type}

/-- The calls of a breathing task. The semaphore `none` is `CONCUR_CTRL_SEM`. -/
abbrev BreathingCall (S κ γ T : Type) := Call (Option S) (BreathingCont T κ) (BreathingStep T γ)

abbrev BreathingBody (S κ γ T τ : Type) := Body (Option S) (BreathingCont T κ) (BreathingStep T γ) τ
abbrev BreathingCode (S κ γ T τ : Type) := Code (Sync.Queue (Option S)) Sync.QueueOp (BreathingBody S κ γ T τ)
abbrev BreathingInstr (S κ γ T τ : Type) := Instr (Sync.Queue (Option S)) Sync.QueueOp (BreathingBody S κ γ T τ)

abbrev BreathingState (S κ γ ρ T τ : Type) :=
  State (Sync.Queue (Option S)) Sync.QueueOp (BreathingBody S κ γ T τ) (Content (Option S) ρ τ) τ

/-- A call of the application. -/
def appCall : Call S κ γ → BreathingCall S κ γ T
  | .up s k => .up (some s) (.app k)
  | .down s k => .down (some s) (.app k)
  | .tryUpAllowIsr s k => .tryUpAllowIsr (some s) (.app k)
  | .tryDownAllowIsr s k => .tryDownAllowIsr (some s) (.app k)
  | .own g => .own (.app g)
  | .yield => .yield

/-- The drop of the `SemGuard`. -/
def dropGuard (t : T) (panicking : Bool) : BreathingCall S κ γ T := .tryUpAllowIsr none (.dropped t panicking)

/-- The entry closure behind a step of one of the three closures. -/
def progress (t : T) : Closure → Progress S κ γ → List (BreathingCall S κ γ T)
  | c, .go calls => calls.map appCall ++ [.own (.run t c)]
  | .init, .done => [.own (.run t .wait)]
  | .wait, .done => [.down none (.permitted t)]
  | .work, .done => [dropGuard t false]
  | .work, .panic => [dropGuard t true]
  | _, .panic => [.own (.unwound t)]

/-- The entry closure behind a call. The result of `try_up_allow_isr` is not looked at. -/
def afterCall (returned : κ → List (Call S κ γ)) : BreathingCont T κ → List (BreathingCall S κ γ T)
  | .permitted t => [.own (.run t .work)]
  | .dropped t false => [.own (.run t .wait)]
  | .dropped t true => [.own (.unwound t)]
  | .app k => (returned k).map appCall

/-- The breathing tasks with their application. -/
def breathing (A : App S κ γ ρ ι ξ T) :
    Client (Option S) (BreathingCont T κ) (BreathingStep T γ) ρ ι ξ where
  ok := afterCall A.client.ok
  err := afterCall A.client.err
  exec r
    | .run t c, x => (A.closure r t c x).map fun (r, p) => (r, progress t c p)
    | .unwound t, x => some (r, if A.restarts r t x = true then [.own (.run t .init)] else [])
    | .app g, x => (A.client.exec r g x).map fun (r, calls) => (r, calls.map appCall)
  handler i := (A.client.handler i).map appCall

/-- What a task runs from the start. -/
inductive TaskEntry (S κ γ T : Type) where
  | breathing (t : T)
  | other (calls : List (Call S κ γ))

/-- `construct_breathing_task_entry` -/
def TaskEntry.calls : TaskEntry S κ γ T → List (BreathingCall S κ γ T)
  | .breathing t => [.own (.run t .init)]
  | .other calls => calls.map appCall

/-- `BREATHING_CONCURRENCY` is the limit of `CONCUR_CTRL_SEM`, and its count at start. -/
def withConcurrency (concurrency : Nat) (f : S → Nat) : Option S → Nat
  | none => concurrency
  | some s => f s

-- ---------------------------------------------------------------------------
-- Permits
-- ---------------------------------------------------------------------------

/-- The task has a permit until its work is over. -/
def BreathingStep.permits : BreathingStep T γ → Nat
  | .run _ .work => 1
  | _ => 0

/-- The drop of a guard has a permit until the counter is raised. -/
def bodyPermits : BreathingBody S κ γ T τ → Nat
  | .own g => g.permits
  | .tryLoad .up none _ => 1
  | .tryExchange .up none _ _ => 1
  | _ => 0

/-- The permits that an instruction has. -/
def permits : BreathingInstr S κ γ T τ → Nat
  | .code (.body b) | .code (.suspended b) => bodyPermits b
  | _ => 0

/-- `CONCUR_CTRL_SEM` is lowered for a permit. -/
def Lowers (d : Dir) (k : BreathingCont T κ) : Option S → Prop
  | none => d = .down ∧ ∃ t, k = .permitted t
  | some _ => ∃ k', k = .app k'

/-- `CONCUR_CTRL_SEM` is raised by the drop of a guard. -/
def Raises (d : Dir) (k : BreathingCont T κ) : Option S → Prop
  | none => d = .up ∧ ∃ t panicking, k = .dropped t panicking
  | some _ => ∃ k', k = .app k'

/-- Nothing else is done with `CONCUR_CTRL_SEM`. -/
def Proper : BreathingInstr S κ γ T τ → Prop
  | .code (.body (.wait d s k)) | .code (.body (.afterWait d s k)) | .code (.body (.load d s k))
  | .code (.body (.exchange d s _ k)) => Lowers d k s
  | .code (.body (.tryLoad d s k)) | .code (.body (.tryExchange d s _ k)) => Raises d k s
  | .code (.suspended _) => False
  | _ => True

section Calls

variable {A : App S κ γ ρ ι ξ T} {t : T}

theorem proper_appCall (call : Call S κ γ) :
    Proper (.code (appCall call : BreathingCall S κ γ T).code : BreathingInstr S κ γ T τ) := by
  cases call with
  | up s k | down s k | tryUpAllowIsr s k | tryDownAllowIsr s k => exact ⟨k, rfl⟩
  | own g => trivial
  | yield => trivial

theorem permits_appCall (call : Call S κ γ) :
    permits (.code (appCall call : BreathingCall S κ γ T).code : BreathingInstr S κ γ T τ) = 0 := by
  cases call <;> rfl

/-- The application has no part in the permits. -/
theorem proper_codes (calls : List (Call S κ γ)) :
    ∀ c ∈ (codes (calls.map (appCall : _ → BreathingCall S κ γ T)) : List (BreathingCode S κ γ T τ)),
      Proper (.code c) := by
  intro c hc
  simp only [codes, List.map_map, List.mem_map, Function.comp_apply] at hc
  obtain ⟨call, -, rfl⟩ := hc
  exact proper_appCall call

theorem weigh_appCalls (calls : List (Call S κ γ)) :
    weigh permits (push (codes (calls.map (appCall : _ → BreathingCall S κ γ T))) [] :
      List (BreathingInstr S κ γ T τ)) = 0 := by
  refine weigh_eq_zero fun i hi => ?_
  simp only [push, codes, List.map_map, List.append_nil, List.mem_map, Function.comp_apply] at hi
  obtain ⟨call, -, rfl⟩ := hi
  exact permits_appCall call

/-- A closure ends, or goes on to its next step, with the permit that it had. -/
theorem progress_permits (c : Closure) (p : Progress S κ γ) :
    (∀ d ∈ (codes (progress t c p) : List (BreathingCode S κ γ T τ)), Proper (.code d)) ∧
    weigh permits (push (codes (progress t c p)) [] : List (BreathingInstr S κ γ T τ)) =
      (BreathingStep.run t c : BreathingStep T γ).permits := by
  cases p with
  | go calls =>
    have hcodes : (codes (progress t c (.go calls)) : List (BreathingCode S κ γ T τ)) =
        codes (calls.map appCall) ++ [.body (.own (.run t c))] := by
      simp [progress, codes, Call.code]
    rw [hcodes]
    refine ⟨fun d hd => ?_, ?_⟩
    · rcases List.mem_append.mp hd with hd | hd
      · exact proper_codes calls d hd
      · obtain rfl := List.mem_singleton.mp hd
        trivial
    · have hsplit : (push (codes (calls.map appCall) ++ [.body (.own (.run t c))]) [] :
          List (BreathingInstr S κ γ T τ)) =
          push (codes (calls.map appCall)) [.code (.body (.own (.run t c)))] := by
        simp [push]
      rw [hsplit, weigh_push, weigh_appCalls]
      simp [permits, bodyPermits]
  | done =>
    cases c with
    | init | wait | work =>
      refine ⟨fun d hd => ?_, rfl⟩
      obtain rfl := List.mem_singleton.mp hd
      simp [dropGuard, Call.code, down, tryUpAllowIsr, Proper, Lowers, Raises]
  | panic =>
    cases c with
    | init | wait | work =>
      refine ⟨fun d hd => ?_, rfl⟩
      obtain rfl := List.mem_singleton.mp hd
      simp [dropGuard, Call.code, tryUpAllowIsr, Proper, Raises]

theorem proper_afterCall (returned : κ → List (Call S κ γ)) (k : BreathingCont T κ) :
    ∀ d ∈ (codes (afterCall returned k) : List (BreathingCode S κ γ T τ)), Proper (.code d) := by
  cases k with
  | permitted t =>
    intro d hd
    obtain rfl := List.mem_singleton.mp hd
    trivial
  | dropped t panicking =>
    cases panicking with
    | false | true =>
      intro d hd
      obtain rfl := List.mem_singleton.mp hd
      trivial
  | app k => exact proper_codes _

/-- After `down()` there is a guard, and after its drop there is none. -/
def BreathingCont.permits : BreathingCont T κ → Nat
  | .permitted _ => 1
  | _ => 0

theorem weigh_afterCall (returned : κ → List (Call S κ γ)) (k : BreathingCont T κ) :
    weigh permits (push (codes (afterCall returned k)) [] : List (BreathingInstr S κ γ T τ)) =
      k.permits := by
  cases k with
  | permitted t => rfl
  | dropped t panicking => cases panicking <;> rfl
  | app k => exact weigh_appCalls _

/-- The steps of the breathing tasks and of the application. -/
theorem own_permits {r r' : ρ} {g : BreathingStep T γ} {x : ξ} {calls : List (BreathingCall S κ γ T)}
    (h : (breathing A).exec r g x = some (r', calls)) :
    (∀ d ∈ (codes calls : List (BreathingCode S κ γ T τ)), Proper (.code d)) ∧
    weigh permits (push (codes calls) [] : List (BreathingInstr S κ γ T τ)) = g.permits := by
  cases g with
  | run t c =>
    simp only [breathing, Option.map_eq_some_iff, Prod.mk.injEq] at h
    obtain ⟨⟨r'', p⟩, -, rfl, rfl⟩ := h
    exact progress_permits c p
  | unwound t =>
    simp only [breathing, Option.some.injEq, Prod.mk.injEq] at h
    obtain ⟨-, rfl⟩ := h
    split
    · exact ⟨by simp [codes, Call.code, Proper], rfl⟩
    · exact ⟨by simp [codes], rfl⟩
  | app g =>
    simp only [breathing, Option.map_eq_some_iff, Prod.mk.injEq] at h
    obtain ⟨⟨r'', calls'⟩, -, rfl, rfl⟩ := h
    exact ⟨proper_codes calls', weigh_appCalls calls'⟩

theorem entry_permits (e : TaskEntry S κ γ T) :
    (∀ d ∈ (codes e.calls : List (BreathingCode S κ γ T τ)), Proper (.code d)) ∧
    weigh permits (push (codes e.calls) [] : List (BreathingInstr S κ γ T τ)) = 0 := by
  cases e with
  | breathing t => exact ⟨by simp [TaskEntry.calls, codes, Call.code, Proper], rfl⟩
  | other calls => exact ⟨proper_codes calls, weigh_appCalls calls⟩

end Calls

-- ---------------------------------------------------------------------------
-- Steps
-- ---------------------------------------------------------------------------

section Steps

variable [DecidableEq S] [DecidableEq τ] {A : App S κ γ ρ ι ξ T} {concurrency : Nat} {maxCount : S → Nat}

theorem proper_hereditary :
    Hereditary (spec (τ := τ) (withConcurrency concurrency maxCount) (breathing A)) Proper where
  control i hi := by
    cases i with
    | code d => cases d with
      | mayBlock | yield => trivial
      | body b => exact absurd hi (by simp [Instr.isControl])
      | access l must op => trivial
      | suspended b => exact absurd hi (by simp [Instr.isControl])
    | _ => trivial
  guard l must op _ := trivial
  suspended b h := h.elim
  full q must op _ := by cases op <;> simp [spec, Proper]
  pend q must op _ := by cases op <;> simp [spec, Proper]
  pended q := by simp [spec, Proper]
  handler i := proper_codes _
  pickNext := by simp [spec, Proper]

theorem permits_balanced :
    Balanced permits (spec (τ := τ) (withConcurrency concurrency maxCount) (breathing A)) where
  control i hi := by
    cases i with
    | code d => cases d with
      | mayBlock | yield => rfl
      | access l must op => rfl
      | body b => exact absurd hi (by simp [Instr.isControl])
      | suspended b => exact absurd hi (by simp [Instr.isControl])
    | _ => rfl
  guard q must op := rfl
  suspended b := rfl
  full q must op := by cases op <;> rfl
  pend q op := by cases op <;> rfl
  pended q := rfl
  handler i := weigh_appCalls _
  pickNext := rfl

variable {c c' : Content (Option S) ρ τ} {b : BreathingBody S κ γ T τ} {cs : List (BreathingCode S κ γ T τ)}

omit [DecidableEq τ] in
theorem change_count (c : Content (Option S) ρ τ) (d : Dir) (s : S) :
    (c.change d (some s)).count none = c.count none := by
  simp [Content.change]

omit [DecidableEq S] [DecidableEq τ] in
theorem weigh_notify (q : Sync.Queue (Option S)) (calls : List (BreathingCode S κ γ T τ)) :
    weigh permits (push (notifyOneAllowIsr q :: calls) []) = weigh permits (push calls []) := by
  simp [push, notifyOneAllowIsr, permits]

/-- What a step adds to the count, it takes from the permits that are out. -/
theorem outcome_permits (hstep : Sync.Outcome (withConcurrency concurrency maxCount) (breathing A) c b c' cs)
    (hproper : Proper (.code (.body b) : BreathingInstr S κ γ T τ))
    (hready : Ready (withConcurrency concurrency maxCount) c (.code (.body b)))
    (hle : c.count none + bodyPermits b ≤ concurrency) :
    (∀ d ∈ cs, Proper (.code d : BreathingInstr S κ γ T τ)) ∧
    c'.count none + weigh permits (push cs []) = c.count none + bodyPermits b := by
  cases hstep with
  | own hexec =>
    obtain ⟨hcs, hw⟩ := own_permits hexec
    exact ⟨hcs, congrArg (c.count none + ·) hw⟩
  | @exchanged d s k =>
    refine ⟨List.forall_mem_cons.mpr ⟨trivial, proper_afterCall _ k⟩, ?_⟩
    rw [weigh_notify]
    change (c.change d s).count none + weigh permits (push (codes (afterCall A.client.ok k)) []) = _
    rw [weigh_afterCall]
    cases s with
    | none =>
      -- The count is not zero, and it goes down by one: the guard.
      obtain ⟨rfl, t, rfl⟩ := hproper
      have hpos : c.count none ≠ 0 := by simpa [Ready, Dir.exhausted] using hready
      simp only [Content.change, Dir.next, Function.update_self, BreathingCont.permits, bodyPermits]
      omega
    | some s =>
      obtain ⟨k, rfl⟩ := hproper
      simp [change_count, BreathingCont.permits, bodyPermits]
  | @ok d s k =>
    refine ⟨List.forall_mem_cons.mpr ⟨trivial, proper_afterCall _ k⟩, ?_⟩
    rw [weigh_notify]
    change (c.change d s).count none + weigh permits (push (codes (afterCall A.client.ok k)) []) = _
    rw [weigh_afterCall]
    cases s with
    | none =>
      obtain ⟨rfl, t, panicking, rfl⟩ := hproper
      simp [Content.change, Dir.next, BreathingCont.permits, bodyPermits]
    | some s =>
      obtain ⟨k, rfl⟩ := hproper
      cases d <;> simp [change_count, BreathingCont.permits, bodyPermits]
  | @err d s k hfull =>
    cases s with
    | none =>
      -- While a guard is there, the semaphore is not full.
      obtain ⟨rfl, t, panicking, rfl⟩ := hproper
      have hcount : c.count none = concurrency := of_decide_eq_true hfull
      simp only [bodyPermits] at hle
      omega
    | some s =>
      obtain ⟨k, rfl⟩ := hproper
      refine ⟨proper_afterCall _ (.app k), congrArg (c.count none + ·) ?_⟩
      rw [show bodyPermits (.tryLoad d (some s) (.app k) : BreathingBody S κ γ T τ) = 0 by cases d <;> rfl]
      exact weigh_afterCall _ (.app k)
  | @tryLoaded d s k _ | @tryStolen d s _ k =>
    refine ⟨List.forall_mem_singleton.mpr hproper, ?_⟩
    cases s <;> cases d <;> rfl
  | wait => exact ⟨by simpa [Proper] using hproper, rfl⟩
  | goOn | block | waitAgain | stolen => exact ⟨by simpa [Proper] using hproper, rfl⟩
  | loaded _ => exact ⟨List.forall_mem_singleton.mpr hproper, rfl⟩
  | swapNotifyCnt => exact ⟨List.forall_mem_singleton.mpr trivial, rfl⟩
  | unmet _ | popNext _ _ => exact ⟨List.forall_mem_singleton.mpr trivial, rfl⟩
  | met | popDone | addNotify | pickNext => exact ⟨by simp, rfl⟩
  | pushBack _ | nobody _ | popBreak _ | notified _ _ => exact ⟨by simp, rfl⟩

-- ---------------------------------------------------------------------------
-- Runs
-- ---------------------------------------------------------------------------

/-- A permit is with `CONCUR_CTRL_SEM`, or it is out. -/
structure PermitInv [Fintype τ] (concurrency : Nat) (s : BreathingState S κ γ ρ T τ) : Prop where
  proper : Everywhere Proper s
  total : s.content.count none + s.weight permits = concurrency

variable [Fintype τ] {initCount : S → Nat} {s s' : BreathingState S κ γ ρ T τ}

theorem PermitInv.step {a : Action ι (Choice τ ξ)} (h : PermitInv concurrency s)
    (hinv : Sync.Inv (withConcurrency concurrency maxCount) (withConcurrency concurrency initCount) s)
    (hstep : Exec.step (spec (withConcurrency concurrency maxCount) (breathing A)) s a = some s') :
    PermitInv concurrency s' := by
  rcases step_cases hstep with ⟨x, b, k, c, cs, hk, hexec, rfl⟩ | hcontrol
  · have hb : ∀ {G : BreathingInstr S κ γ T τ → Prop}, Everywhere G s → G (.code (.body b)) :=
      fun hall => hall.1 _ (by rw [hk]; exact List.mem_cons_self)
    have hle : bodyPermits b ≤ s.weight permits := by
      rw [State.weight, hk, weigh_cons]
      exact Nat.le_trans (Nat.le_add_right _ _) (Nat.le_add_right _ _)
    have htotal := h.total
    obtain ⟨hcs, hw⟩ := outcome_permits (exec_outcome hexec) (hb h.proper) (hb hinv.ready) (by omega)
    have hbody := State.weight_body (w := permits) hk c cs
    refine ⟨h.proper.body hk (fun _ => hcs) fun i _ hi => hi, ?_⟩
    simp only [permits] at hbody
    change c.count none + _ = concurrency
    omega
  · refine ⟨h.proper.control proper_hereditary hcontrol, ?_⟩
    rw [hcontrol.content_eq, hcontrol.weight_eq permits_balanced hinv.sound]
    exact h.total

variable {cur : τ} {client : ρ} {tasks : τ → TaskEntry S κ γ T}

omit [DecidableEq S] in
theorem start_permitInv :
    PermitInv concurrency (init (Sync.start (withConcurrency concurrency initCount) cur client) cur
      fun t => codes (tasks t).calls : BreathingState S κ γ ρ T τ) := by
  refine ⟨Everywhere.init fun t => (entry_permits (tasks t)).1, ?_⟩
  rw [State.weight_init fun t => (entry_permits (tasks t)).2]
  rfl

/-- The work of a task that is not over. -/
def working : BreathingInstr S κ γ T τ → Nat
  | .code (.body (.own (.run _ .work))) | .code (.suspended (.own (.run _ .work))) => 1
  | _ => 0

omit [DecidableEq S] [DecidableEq τ] [Fintype τ] in
theorem working_le (i : BreathingInstr S κ γ T τ) : working i ≤ permits i := by
  unfold working
  split
  · exact Nat.le_refl _
  · exact Nat.le_refl _
  · exact Nat.zero_le _

/-- What breathing tasks guarantee in every state. -/
structure BreathingOk (concurrency : Nat) (s : BreathingState S κ γ ρ T τ) : Prop where
  working : s.weight working ≤ concurrency
  /-- No permit is lost, and none is given back twice. -/
  total : s.content.count none + s.weight permits = concurrency
  /-- The drop of a guard never finds the semaphore full. -/
  room : ∀ d k, (.code (.body (.tryLoad d none k)) ∈ s.stack ∨
    ∃ t, .code (.body (.tryLoad d none k)) ∈ s.saved t) → s.content.count none < concurrency
  /-- A task is left waiting for a permit only while all permits are out. -/
  waiting : Sync.Quiet s (none, .incremented) → s.content.awake (none, .incremented) = [] →
    s.content.queue (none, .incremented) ≠ [] → s.weight permits = concurrency

/-- At no time do more tasks work than `BREATHING_CONCURRENCY`, and their permits come back,
whichever closures panic and whichever tasks start again. -/
theorem exec_breathingOk (hinit : ∀ sem, initCount sem ≤ maxCount sem)
    {actions : List (Action ι (Choice τ ξ))}
    (hrun : Run.exec (Exec.step (spec (withConcurrency concurrency maxCount) (breathing A)))
      (init (Sync.start (withConcurrency concurrency initCount) cur client) cur
        fun t => codes (tasks t).calls) actions = some s) : BreathingOk concurrency s := by
  have hstart : Sync.Inv (withConcurrency concurrency maxCount) (withConcurrency concurrency initCount)
      (init (Sync.start (withConcurrency concurrency initCount) cur client) cur
        fun t => codes (tasks t).calls : BreathingState S κ γ ρ T τ) :=
    start_inv fun sem => by
      cases sem with
      | none => exact Nat.le_refl _
      | some sem => exact hinit sem
  obtain ⟨hinv, hpermit⟩ := Run.exec_inv (fun s =>
    Sync.Inv (withConcurrency concurrency maxCount) (withConcurrency concurrency initCount) s ∧
      PermitInv concurrency s) (fun h hstep => ⟨h.1.step hstep, h.2.step h.1 hstep⟩)
    ⟨hstart, start_permitInv⟩ hrun
  have htotal := hpermit.total
  refine ⟨Nat.le_trans (State.weight_mono working_le) (by omega), htotal, fun d k hmem => ?_,
    fun hquiet hawake hqueue => ?_⟩
  · have hproper : Proper (.code (.body (.tryLoad d none k)) : BreathingInstr S κ γ T τ) := by
      rcases hmem with hmem | ⟨t, hmem⟩
      · exact hpermit.proper.1 _ hmem
      · exact hpermit.proper.2 t _ hmem
    obtain ⟨rfl, -⟩ := hproper
    have hle := State.le_weight (w := permits) hmem
    simp only [permits, bodyPermits] at hle
    omega
  · have hzero := hinv.unapplied_eq_zero hquiet (deferral (C := breathing A))
    have henough := hinv.wakeup _ hqueue
    simp only [Enough, Content.avail, hawake, hzero, List.length_nil] at henough
    omega

/-- Tasks whose work yields or panics. They start again after a panic. -/
def panicking : App Empty Empty Empty Unit Unit Bool Bool where
  closure _ _ c panics := some ((),
    if c = .work then if panics = true then .panic else .go [.yield] else .done)
  restarts _ _ _ := true
  client := {
    ok k := k.elim
    err k := k.elim
    exec _ g _ := g.elim
    handler _ := [] }

def runTask (next panics : Bool) : Action Unit (Choice Bool Bool) := .run ⟨next, fun _ => 0, false, panics⟩

/-- The first task yields at work, and the second one waits for its permit. -/
def untilPanic : List (Action Unit (Choice Bool Bool)) :=
  List.replicate 25 (runTask false false) ++ .pendsv :: List.replicate 17 (runTask false false) ++
    [.pendsv, runTask true false, runTask true false, runTask true true]

/-- The work of the first task has panicked, and its guard is about to be dropped. -/
theorem exec_breathingOk_panicking :
    ∃ s, Run.exec (Exec.step (spec (withConcurrency 1 (Empty.elim)) (breathing panicking)))
        (init (Sync.start (withConcurrency 1 (Empty.elim)) true ()) true fun t =>
          codes (TaskEntry.breathing t : TaskEntry Empty Empty Empty Bool).calls) untilPanic = some s ∧
      s.stack = [.code (.body (.tryLoad .up none (.dropped true true)))] ∧
      s.content.queue (none, .incremented) = [false] ∧ BreathingOk 1 s := by
  obtain ⟨s, hrun, hstack, hqueue⟩ : ∃ s,
      Run.exec (Exec.step (spec (withConcurrency 1 (Empty.elim)) (breathing panicking)))
        (init (Sync.start (withConcurrency 1 (Empty.elim)) true ()) true fun t =>
          codes (TaskEntry.breathing t : TaskEntry Empty Empty Empty Bool).calls) untilPanic = some s ∧
      s.stack = [.code (.body (.tryLoad .up none (.dropped true true)))] ∧
      s.content.queue (none, .incremented) = [false] := ⟨_, rfl, rfl, rfl⟩
  exact ⟨s, hrun, hstack, hqueue, exec_breathingOk (fun sem => sem.elim) hrun⟩

end Steps

end Hopter.Task
