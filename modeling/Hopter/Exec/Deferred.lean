-- SUMMARY: Deferred operations of a soft-locked object, and the rule that draining them equals running them directly.
import Hopter.Base.Run

/-!
# Deferred operations

One context holds full access to an object and releases it, while nested interrupt handlers
with pend-only access add operations to the object's pend buffer. The release loop runs
`run_pended_op` until no operation is pending. `run_pended_op` is a program of atomic steps of
its own, and a handler may come in before any of them, and before any step of another handler.

`Object` is what the code of the object says, for the direct access and for the deferred one.
`Faithful` is what has to be shown about it, and `exec_direct` the conclusion: when the release
is over, the content is what the operations give when they run directly, one after another.
A handler that comes in while the lock is free gets full access, and is not looked at here.
-/

namespace Hopter.Exec

/-- An object with the content `σ`, the pend buffer `π`, operations `ω` and the local state `δ` of
`run_pended_op`. -/
structure Object (σ π ω δ : Type) where
  /-- The operation with full access. -/
  direct : σ → ω → σ
  /-- The operation with pend-only access; `none` when the buffer is full. -/
  pend : π → ω → Option π
  /-- The start of `run_pended_op`. -/
  enter : δ
  /-- An atomic step of `run_pended_op`, which returns when there is no next local state. -/
  drain : σ → π → δ → σ × π × Option δ

namespace Deferred

inductive Pc (δ : Type) where
  | swapPending
  | draining (d : δ)
  | unlock
  | checkPending
  | relock
  | released
  deriving DecidableEq

/-- What a handler has left to do. -/
inductive Handler (ω : Type) where
  | pend (op : ω)
  | setPending
  deriving DecidableEq

structure State (σ π ω δ : Type) where
  content : σ
  buffer : π
  pending : Bool
  pc : Pc δ
  /-- The handlers that are active, the innermost first. -/
  handlers : List (Handler ω)
  /-- History: the operations in the order in which they got into the buffer. -/
  issued : List ω

inductive Action (ω : Type) where
  /-- The context with full access goes on. -/
  | release
  | preempt (op : ω)
  /-- The innermost handler goes on. -/
  | handler

variable {σ π ω δ : Type}

/-- The lock is held, and so a handler gets pend-only access. -/
def Pc.locked : Pc δ → Bool
  | .swapPending | .draining _ | .unlock => true
  | .checkPending | .relock | .released => false

def releaseStep (O : Object σ π ω δ) (s : State σ π ω δ) : Option (State σ π ω δ) :=
  match s.pc with
  | .swapPending => some
    { s with pending := false, pc := if s.pending = true then .draining O.enter else .unlock }
  | .draining d =>
    let (content, buffer, next) := O.drain s.content s.buffer d
    some { s with content := content, buffer := buffer, pc := next.elim .unlock .draining }
  | .unlock => some { s with pc := .checkPending }
  | .checkPending => some { s with pc := if s.pending = true then .relock else .released }
  | .relock => some { s with pc := .swapPending }
  | .released => none

def handlerStep (O : Object σ π ω δ) (s : State σ π ω δ) : Option (State σ π ω δ) :=
  match s.handlers with
  | [] => none
  | .pend op :: rest => (O.pend s.buffer op).map fun buffer =>
    { s with buffer := buffer, handlers := .setPending :: rest, issued := s.issued ++ [op] }
  | .setPending :: rest => some { s with pending := true, handlers := rest }

/-- One step. The context with full access waits for the handlers. -/
def step (O : Object σ π ω δ) (s : State σ π ω δ) : Action ω → Option (State σ π ω δ)
  | .release => if s.handlers.isEmpty = true then releaseStep O s else none
  | .preempt op =>
    if s.handlers ≠ [] ∨ s.pc.locked = true then some { s with handlers := .pend op :: s.handlers } else none
  | .handler => handlerStep O s

/-- The moment of release. Handlers may have added operations before. -/
def start (content : σ) (buffer : π) (ops : List ω) : State σ π ω δ where
  content := content
  buffer := buffer
  pending := !ops.isEmpty
  pc := .swapPending
  handlers := []
  issued := ops

/-- `run_pended_op` does what the operations do directly. In the local state `d` with the content
`c`, `Represents d c v` says that `v` is the content with all operations applied that were taken
from the buffer; `Idle` that a `run_pended_op` without operations does no harm, and `Looks` that
the buffer will be looked at again. -/
structure Faithful (O : Object σ π ω δ) (ops : π → List ω) (Represents : δ → σ → σ → Prop)
    (Idle : σ → Prop) (Looks : δ → Prop) : Prop where
  pend : ∀ {p op p'}, O.pend p op = some p' → ops p' = ops p ++ [op]
  enter : ∀ c, Represents O.enter c c
  looks : Looks O.enter
  next : ∀ {c p d c' p' d' v}, O.drain c p d = (c', p', some d') → Represents d c v →
    (d = O.enter → ops p ≠ [] ∨ Idle c) → ∃ taken, ops p = taken ++ ops p' ∧
      Represents d' c' (taken.foldl O.direct v) ∧ (Looks d → Looks d' ∨ ops p' = []) ∧
      (d' = O.enter → Idle c')
  leave : ∀ {c p d c' p' v}, O.drain c p d = (c', p', none) → Represents d c v →
    (d = O.enter → ops p ≠ [] ∨ Idle c) → ∃ taken, ops p = taken ++ ops p' ∧
      c' = taken.foldl O.direct v ∧ Idle c' ∧ (Looks d → ops p' = [])

-- ---------------------------------------------------------------------------
-- The invariant
-- ---------------------------------------------------------------------------

/-- A handler is about to set the flag, or has. -/
def State.announced (s : State σ π ω δ) : Prop := s.pending = true ∨ .setPending ∈ s.handlers

structure Inv (O : Object σ π ω δ) (ops : π → List ω) (Represents : δ → σ → σ → Prop) (Idle : σ → Prop)
    (Looks : δ → Prop) (c₀ : σ) (s : State σ π ω δ) : Prop where
  /-- What is left in the buffer completes the content. -/
  content : ∃ v, (∀ d, s.pc = .draining d → Represents d s.content v) ∧
    ((∀ d, s.pc ≠ .draining d) → v = s.content) ∧
    (ops s.buffer).foldl O.direct v = s.issued.foldl O.direct c₀
  /-- What is in the buffer will be looked at. -/
  looks : ops s.buffer ≠ [] → s.announced ∨ ∃ d, s.pc = .draining d ∧ Looks d
  enter : s.pc = .draining O.enter → ops s.buffer ≠ [] ∨ Idle s.content
  idle : (∀ d, s.pc ≠ .draining d) → s.announced → ops s.buffer ≠ [] ∨ Idle s.content
  released : s.pc = .released → ops s.buffer = [] ∧ s.pending = false
  handlers : s.handlers ≠ [] → s.pc.locked = true

section Steps

variable {O : Object σ π ω δ} {ops : π → List ω} {Represents : δ → σ → σ → Prop} {Idle : σ → Prop}
  {Looks : δ → Prop} {c₀ : σ} {s s' : State σ π ω δ}

theorem Inv.handlerStep (hO : Faithful O ops Represents Idle Looks)
    (h : Inv O ops Represents Idle Looks c₀ s) (hstep : handlerStep O s = some s') :
    Inv O ops Represents Idle Looks c₀ s' := by
  unfold Deferred.handlerStep at hstep
  split at hstep
  · exact absurd hstep (by simp)
  · rename_i op rest hhandlers
    simp only [Option.map_eq_some_iff] at hstep
    obtain ⟨p, hp, rfl⟩ := hstep
    have hops := hO.pend hp
    have hne : ops p ≠ [] := by simp [hops]
    have hlocked := h.handlers (by simp [hhandlers])
    obtain ⟨v, hrep, hv, hfold⟩ := h.content
    refine ⟨⟨v, hrep, hv, ?_⟩, fun _ => Or.inl (Or.inr (by simp)), fun _ => Or.inl hne, fun _ _ => Or.inl hne,
      fun hpc => ?_, fun _ => hlocked⟩
    · simp only [hops, List.foldl_append, hfold]
    · simp only at hpc
      simp [hpc, Pc.locked] at hlocked
  · rename_i rest hhandlers
    obtain rfl := Option.some.inj hstep
    have hann : s.announced := Or.inr (by simp [hhandlers])
    have hlocked := h.handlers (by simp [hhandlers])
    refine ⟨h.content, fun _ => Or.inl (Or.inl rfl), h.enter, fun hpc _ => h.idle hpc hann, fun hpc => ?_,
      fun _ => hlocked⟩
    simp only at hpc
    simp [hpc, Pc.locked] at hlocked

theorem Inv.releaseStep (hO : Faithful O ops Represents Idle Looks)
    (h : Inv O ops Represents Idle Looks c₀ s) (hhandlers : s.handlers = [])
    (hstep : releaseStep O s = some s') : Inv O ops Represents Idle Looks c₀ s' := by
  have hann : s.announced → s.pending = true := by
    rintro (hp | hp)
    · exact hp
    · simp [hhandlers] at hp
  obtain ⟨v, hrep, hv, hfold⟩ := h.content
  -- Without the flag, the buffer is empty.
  have hempty : (∀ d, s.pc ≠ .draining d) → s.pending = false → ops s.buffer = [] := by
    intro hpc hp
    by_contra hne
    rcases h.looks hne with hold | ⟨d, hd, -⟩
    · simp [hp] at hann
      exact hann hold
    · exact hpc d hd
  have hno : ∀ {t : State σ π ω δ}, t.handlers = [] → t.handlers ≠ [] → t.pc.locked = true :=
    fun hnil hne => absurd hnil hne
  unfold Deferred.releaseStep at hstep
  split at hstep
  · rename_i hpc
    obtain rfl := Option.some.inj hstep
    have hnot : ∀ d, s.pc ≠ .draining d := by simp [hpc]
    obtain rfl := hv hnot
    cases hp : s.pending with
    | true =>
      refine ⟨⟨s.content, fun d hd => ?_, fun hd => ?_, hfold⟩, fun _ => Or.inr ⟨O.enter, rfl, hO.looks⟩,
        fun _ => h.idle hnot (Or.inl hp), fun hd => absurd rfl (hd O.enter), fun hd => ?_, hno hhandlers⟩
      · obtain rfl : O.enter = d := by simpa using hd
        exact hO.enter _
      · exact absurd rfl (hd O.enter)
      · simp at hd
    | false =>
      have hnil := hempty hnot hp
      refine ⟨⟨s.content, fun d hd => ?_, fun _ => rfl, hfold⟩, fun hne => absurd hnil hne, fun hd => ?_,
        fun _ hp' => ?_, fun hd => ?_, hno hhandlers⟩
      · simp at hd
      · simp at hd
      · simp [State.announced, hhandlers] at hp'
      · simp at hd
  · rename_i d hpc
    have hd := hrep d hpc
    have henter : d = O.enter → ops s.buffer ≠ [] ∨ Idle s.content := by
      rintro rfl
      exact h.enter hpc
    generalize hdrain : O.drain s.content s.buffer d = res at hstep
    obtain ⟨c', p', next⟩ := res
    obtain rfl := Option.some.inj hstep
    cases next with
    | some d' =>
      obtain ⟨taken, hops, hrep', hlooks, hidle⟩ := hO.next hdrain hd henter
      refine ⟨⟨taken.foldl O.direct v, fun e he => ?_, fun he => absurd rfl (he d'), ?_⟩, fun hne => ?_, fun he => ?_,
        fun he => absurd rfl (he d'), fun he => ?_, hno hhandlers⟩
      · obtain rfl : d' = e := by simpa using he
        exact hrep'
      · rw [← List.foldl_append, ← hops]
        exact hfold
      · by_cases hl : Looks d
        · exact Or.inr ⟨d', rfl, (hlooks hl).resolve_right hne⟩
        · have hold : ops s.buffer ≠ [] := by simp [hops, hne]
          rcases h.looks hold with hold | ⟨e, he, hl'⟩
          · exact Or.inl hold
          · obtain rfl : d = e := by simpa [hpc] using he
            exact absurd hl' hl
      · obtain rfl : d' = O.enter := by simpa using he
        exact Or.inr (hidle rfl)
      · simp at he
    | none =>
      obtain ⟨taken, hops, rfl, hidle, hlooks⟩ := hO.leave hdrain hd henter
      refine ⟨⟨taken.foldl O.direct v, fun e he => ?_, fun _ => rfl, ?_⟩, fun hne => ?_, fun he => ?_, fun _ _ => Or.inr hidle,
        fun he => ?_, hno hhandlers⟩
      · simp at he
      · rw [← List.foldl_append, ← hops]
        exact hfold
      · have hold : ops s.buffer ≠ [] := by simp [hops, hne]
        rcases h.looks hold with hold | ⟨e, he, hl⟩
        · exact Or.inl hold
        · obtain rfl : d = e := by simpa [hpc] using he
          exact absurd (hlooks hl) hne
      · simp at he
      · simp at he
  · rename_i hpc
    obtain rfl := Option.some.inj hstep
    have hnot : ∀ d, s.pc ≠ .draining d := by simp [hpc]
    refine ⟨⟨v, by simp, fun _ => hv hnot, hfold⟩, fun hne => ?_, by simp, fun _ => h.idle hnot, by simp,
      hno hhandlers⟩
    exact Or.inl ((h.looks hne).resolve_right fun ⟨d, hd, _⟩ => hnot d hd)
  · rename_i hpc
    obtain rfl := Option.some.inj hstep
    have hnot : ∀ d, s.pc ≠ .draining d := by simp [hpc]
    have hnot' : ∀ d : δ, (if s.pending = true then Pc.relock else .released) ≠ .draining d := by
      intro d
      split <;> simp
    refine ⟨⟨v, fun d hd => absurd hd (hnot' d), fun _ => hv hnot, hfold⟩, fun hne => ?_,
      fun hd => absurd hd (hnot' _), fun _ => h.idle hnot, fun hrel => ?_, hno hhandlers⟩
    · exact Or.inl ((h.looks hne).resolve_right fun ⟨d, hd, _⟩ => hnot d hd)
    · cases hp : s.pending with
      | true => simp [hp] at hrel
      | false => exact ⟨hempty hnot hp, rfl⟩
  · rename_i hpc
    obtain rfl := Option.some.inj hstep
    have hnot : ∀ d, s.pc ≠ .draining d := by simp [hpc]
    refine ⟨⟨v, by simp, fun _ => hv hnot, hfold⟩, fun hne => ?_, by simp, fun _ => h.idle hnot, by simp,
      hno hhandlers⟩
    exact Or.inl ((h.looks hne).resolve_right fun ⟨d, hd, _⟩ => hnot d hd)
  · exact absurd hstep (by simp)

theorem Inv.step {a : Action ω} (hO : Faithful O ops Represents Idle Looks)
    (h : Inv O ops Represents Idle Looks c₀ s) (hstep : step O s a = some s') :
    Inv O ops Represents Idle Looks c₀ s' := by
  cases a with
  | release =>
    simp only [Deferred.step] at hstep
    split at hstep
    · rename_i hnil
      exact h.releaseStep hO (by simpa using hnil) hstep
    · exact absurd hstep (by simp)
  | preempt op =>
    simp only [Deferred.step] at hstep
    split at hstep
    · rename_i hcond
      obtain rfl := Option.some.inj hstep
      have hann : ∀ {P : Prop}, (s.announced → P) →
          State.announced { s with handlers := .pend op :: s.handlers } → P := by
        intro P hP hann
        exact hP (by simpa [State.announced] using hann)
      refine ⟨h.content, fun hne => ?_, h.enter, fun hpc => hann (h.idle hpc), h.released,
        fun _ => hcond.elim h.handlers id⟩
      exact (h.looks hne).imp_left fun hold => by simpa [State.announced] using hold
    · exact absurd hstep (by simp)
  | handler => exact h.handlerStep hO hstep

theorem start_inv (c : σ) (p : π) :
    Inv O ops Represents Idle Looks c (start c p (ops p)) := by
  refine ⟨⟨c, by simp [start], fun _ => rfl, rfl⟩, fun hne => Or.inl (Or.inl ?_), by simp [start],
    fun _ hann => Or.inl fun hnil => ?_, by simp [start], by simp [start]⟩
  · simpa [start] using hne
  · simp only [start] at hnil
    simp [State.announced, start, hnil] at hann

/-- When the release is over, all operations that were issued have been done, with the result that
they have one after another with full access. -/
theorem exec_direct (hO : Faithful O ops Represents Idle Looks) {c : σ} {p : π} {actions : List (Action ω)}
    (hrun : Run.exec (step O) (start c p (ops p)) actions = some s) (hpc : s.pc = .released) :
    s.content = s.issued.foldl O.direct c ∧ ops s.buffer = [] ∧ s.pending = false := by
  have hinv := Run.exec_inv (Inv O ops Represents Idle Looks c) (fun h hstep => h.step hO hstep)
    (start_inv c p) hrun
  obtain ⟨v, -, hv, hfold⟩ := hinv.content
  obtain ⟨hnil, hpending⟩ := hinv.released hpc
  obtain rfl := hv (by simp [hpc])
  rw [hnil] at hfold
  exact ⟨hfold, hnil, hpending⟩

end Steps

end Deferred

end Hopter.Exec
