-- SUMMARY: Access closures that run to their end, and locks whose closures are those of an object with deferred operations.
import Hopter.Exec.Deferred
import Hopter.Exec.Machine
import Mathlib.Logic.Relation

/-!
# Access closures

`Runs` says how a closure runs to its end. Meanwhile the rest of the system, that is the handlers and
the accesses to other locks that the closure makes, may change what the `view` of the content does not
depend on. The accesses to other locks are recorded.

A lock `Implements` an object when its closures with full access do what the object does directly, and
every step of its `run_pended_op` is made of steps of that of the object. What is known of the object
(`Deferred.Faithful`) then holds of the lock: `run_pended_op` does what the pended operations do
directly.
-/

namespace Hopter.Exec

variable {Λ ω β σ τ ι χ : Type}

-- ---------------------------------------------------------------------------
-- Closures that run to their end
-- ---------------------------------------------------------------------------

/-- The code runs from the content `c` to `c'`, and makes the accesses in `log`. Its steps are taken
where they `fit`. -/
inductive Runs {V : Type} (M : Spec Λ ω β σ τ ι χ) (fits : σ → β → χ → Prop) (view : σ → V) :
    σ → List (Code Λ ω β) → List (Λ × ω) → σ → Prop where
  | done (c : σ) : Runs M fits view c [] [] c
  | other {c c₁ c' : σ} {cs : List (Code Λ ω β)} {log : List (Λ × ω)} :
    view c₁ = view c → Runs M fits view c₁ cs log c' → Runs M fits view c cs log c'
  | body {c c₁ c' : σ} {b : β} {x : χ} {ds cs : List (Code Λ ω β)} {log : List (Λ × ω)} :
    fits c b x → M.exec c b x = some (c₁, ds) → Runs M fits view c₁ (ds ++ cs) log c' →
      Runs M fits view c (.body b :: cs) log c'
  | suspended {c c' : σ} {b : β} {cs : List (Code Λ ω β)} {log : List (Λ × ω)} :
    Runs M fits view c (.body b :: cs) log c' → Runs M fits view c (.suspended b :: cs) log c'
  | access {c c' : σ} {l : Λ} {must : Bool} {op : ω} {cs : List (Code Λ ω β)} {log : List (Λ × ω)} :
    Runs M fits view c cs log c' → Runs M fits view c (.access l must op :: cs) ((l, op) :: log) c'
  | mayBlock {c c' : σ} {cs : List (Code Λ ω β)} {log : List (Λ × ω)} :
    Runs M fits view c cs log c' → Runs M fits view c (.mayBlock :: cs) log c'
  | yield {c c' : σ} {cs : List (Code Λ ω β)} {log : List (Λ × ω)} :
    Runs M fits view c cs log c' → Runs M fits view c (.yield :: cs) log c'

section Inversion

variable {V : Type} {M : Spec Λ ω β σ τ ι χ} {fits : σ → β → χ → Prop} {view : σ → V} {c c' : σ} {b : β}
  {cs : List (Code Λ ω β)} {log : List (Λ × ω)}

theorem Runs.of_nil (h : Runs M fits view c [] log c') : log = [] ∧ view c' = view c := by
  generalize hcs : ([] : List (Code Λ ω β)) = cs at h
  induction h with
  | done c => exact ⟨rfl, rfl⟩
  | other hview _ ih =>
    obtain ⟨hlog, heq⟩ := ih hcs
    exact ⟨hlog, heq.trans hview⟩
  | _ => cases hcs

theorem Runs.of_body (h : Runs M fits view c (.body b :: cs) log c') : ∃ c₁ x c₂ ds, view c₁ = view c ∧
    fits c₁ b x ∧ M.exec c₁ b x = some (c₂, ds) ∧ Runs M fits view c₂ (ds ++ cs) log c' := by
  generalize hcs : Code.body b :: cs = code at h
  induction h with
  | other hview _ ih =>
    obtain ⟨c₁, x, c₂, ds, heq, hrest⟩ := ih hcs
    exact ⟨c₁, x, c₂, ds, heq.trans hview, hrest⟩
  | @body c c₁ _ _ x ds _ _ hfits hexec hruns =>
    cases hcs
    exact ⟨c, x, c₁, ds, rfl, hfits, hexec, hruns⟩
  | _ => cases hcs

theorem Runs.of_suspended (h : Runs M fits view c (.suspended b :: cs) log c') : ∃ c₁, view c₁ = view c ∧
    Runs M fits view c₁ (.body b :: cs) log c' := by
  generalize hcs : Code.suspended b :: cs = code at h
  induction h with
  | other hview _ ih =>
    obtain ⟨c₁, heq, hrest⟩ := ih hcs
    exact ⟨c₁, heq.trans hview, hrest⟩
  | @suspended c _ _ _ _ hruns =>
    cases hcs
    exact ⟨c, rfl, hruns⟩
  | _ => cases hcs

theorem Runs.of_access {l : Λ} {must : Bool} {op : ω} (h : Runs M fits view c (.access l must op :: cs) log c') :
    ∃ c₁ rest, view c₁ = view c ∧ log = (l, op) :: rest ∧ Runs M fits view c₁ cs rest c' := by
  generalize hcs : Code.access l must op :: cs = code at h
  induction h with
  | other hview _ ih =>
    obtain ⟨c₁, rest, heq, hrest⟩ := ih hcs
    exact ⟨c₁, rest, heq.trans hview, hrest⟩
  | @access c _ _ _ _ _ rest hruns =>
    cases hcs
    exact ⟨c, rest, rfl, rfl, hruns⟩
  | _ => cases hcs

/-- `mayBlock` and `yield` leave the content alone. -/
theorem Runs.of_pause {d : Code Λ ω β} (hd : d = .mayBlock ∨ d = .yield)
    (h : Runs M fits view c (d :: cs) log c') : ∃ c₁, view c₁ = view c ∧ Runs M fits view c₁ cs log c' := by
  generalize hcs : d :: cs = code at h
  induction h with
  | other hview _ ih =>
    obtain ⟨c₁, heq, hrest⟩ := ih hcs
    exact ⟨c₁, heq.trans hview, hrest⟩
  | @mayBlock c _ _ _ hruns | @yield c _ _ _ hruns =>
    cases hcs
    exact ⟨c, rfl, hruns⟩
  | done => cases hcs
  | body | suspended | access =>
    cases hcs
    simp at hd

end Inversion

-- ---------------------------------------------------------------------------
-- Objects
-- ---------------------------------------------------------------------------

variable {ρ π α δ : Type}

/-- A step of `run_pended_op`, which is over when there is no local state. -/
def Object.Drains (O : Object ρ π α δ) (s s' : ρ × π × Option δ) : Prop :=
  ∃ d, s.2.2 = some d ∧ O.drain s.1 s.2.1 d = s'

/-- Until `run_pended_op` is over, it takes operations from the buffer and does what they do
directly. -/
theorem Deferred.Faithful.drained {O : Object ρ π α δ} {ops : π → List α} {Represents : δ → ρ → ρ → Prop}
    {Idle : ρ → Prop} {Looks : δ → Prop} (hO : Faithful O ops Represents Idle Looks) {q q' v : ρ} {p p' : π} {d : δ}
    (h : Relation.ReflTransGen O.Drains (q, p, some d) (q', p', none)) (hrep : Represents d q v)
    (henter : d = O.enter → ops p ≠ [] ∨ Idle q) (hlooks : Looks d ∨ ops p = []) :
    q' = (ops p).foldl O.direct v ∧ ops p' = [] := by
  generalize hs : (q, p, some d) = s at h
  induction h using Relation.ReflTransGen.head_induction_on generalizing q p d v with
  | refl => cases hs
  | @head s s₁ hstep hrest ih =>
    obtain rfl := hs
    obtain ⟨d₀, hd₀, hdrain⟩ := hstep
    obtain rfl : d = d₀ := Option.some.inj hd₀
    obtain ⟨q₁, p₁, next⟩ := s₁
    cases next with
    | some d₁ =>
      obtain ⟨taken, hops, hrep₁, hlooks₁, hidle⟩ := hO.next hdrain hrep henter
      have hlooks' : Looks d₁ ∨ ops p₁ = [] :=
        hlooks.elim hlooks₁ fun hnil => Or.inr (List.append_eq_nil_iff.mp (hops ▸ hnil)).2
      obtain ⟨hq, hp⟩ := ih hrep₁ (fun he => Or.inr (hidle he)) hlooks' rfl
      rw [hops, List.foldl_append]
      exact ⟨hq, hp⟩
    | none =>
      -- There is no further step.
      obtain ⟨taken, hops, hq, -, hlooks₁⟩ := hO.leave hdrain hrep henter
      have hnil : ops p₁ = [] := hlooks.elim hlooks₁ fun hnil => (List.append_eq_nil_iff.mp (hops ▸ hnil)).2
      obtain hend | ⟨s₂, ⟨d₂, hd₂, -⟩, -⟩ := hrest.cases_head
      · simp only [Prod.mk.injEq] at hend
        obtain ⟨rfl, rfl, -⟩ := hend
        rw [hops, hnil, List.append_nil]
        exact ⟨hq, rfl⟩
      · cases hd₂

/-- The accesses to other locks in the code. -/
def accesses : List (Code Λ ω β) → List (Λ × ω)
  | [] => []
  | .access l _ op :: cs => (l, op) :: accesses cs
  | _ :: cs => accesses cs

/-- Where code is in `run_pended_op`: `pos` says so for the atomic steps that belong to it. -/
def position (pos : β → Option (Option δ)) : List (Code Λ ω β) → Option δ
  | [] => none
  | .body b :: _ => (pos b).join
  | _ :: cs => position pos cs

/-- Accesses to other locks, and then at most one step of `run_pended_op`. -/
def Tidy (pos : β → Option (Option δ)) : List (Code Λ ω β) → Prop
  | [] => True
  | .body b :: cs => (pos b).isSome = true ∧ cs = []
  | .access _ _ _ :: cs => Tidy pos cs
  | _ => False

/-- The closures of the lock `l` do what the object `O` says. The accesses `ops` are its operations,
`view` and `buffer` are its content and its pend buffer, and `pos` is where the steps are in
`run_pended_op`. -/
structure Implements (M : Spec Λ ω β σ τ ι χ) (fits : σ → β → χ → Prop) (l : Λ) (ops : ω → Option α)
    (O : Object ρ π α δ) (view : σ → List (Λ × ω) → ρ) (buffer : σ → π) (pos : β → Option (Option δ)) :
    Prop where
  direct : ∀ {op a c log c'}, ops op = some a → Runs M fits view c (M.full l op) log c' →
    ∀ k, view c' (k ++ log) = O.direct (view c k) a
  pend : ∀ {op a c log c'}, ops op = some a →
    Runs M fits (fun c => (view c, buffer c)) c (M.pend l op) log c' →
    O.pend (buffer c) a = some (buffer c') ∧ ∀ k, view c' (k ++ log) = view c k
  enter : ∃ b, M.pended l = [.body b] ∧ pos b = some (some O.enter)
  drain : ∀ {b d c x c' cs}, pos b = some d → fits c b x → M.exec c b x = some (c', cs) → Tidy pos cs ∧
    ∀ k, Relation.ReflTransGen O.Drains (view c k, buffer c, d)
      (view c' (k ++ accesses cs), buffer c', position pos cs)

section Pended

variable {M : Spec Λ ω β σ τ ι χ} {fits : σ → β → χ → Prop} {l : Λ} {ops : ω → Option α} {O : Object ρ π α δ}
  {view : σ → List (Λ × ω) → ρ} {buffer : σ → π} {pos : β → Option (Option δ)} {c c' : σ}
  {cs : List (Code Λ ω β)} {log : List (Λ × ω)}

theorem Implements.drained (h : Implements M fits l ops O view buffer pos) (htidy : Tidy pos cs)
    (hruns : Runs M fits (fun c => (view c, buffer c)) c cs log c') (k : List (Λ × ω)) :
    Relation.ReflTransGen O.Drains (view c (k ++ accesses cs), buffer c, position pos cs)
      (view c' (k ++ log), buffer c', none) := by
  induction hruns generalizing k with
  | done c => exact .refl
  | other hview _ ih =>
    simp only [Prod.mk.injEq] at hview
    rw [← hview.1, ← hview.2]
    exact ih htidy k
  | @body c c₁ c' b x ds cs log hfits hexec _ ih =>
    obtain ⟨hpos, rfl⟩ := htidy
    obtain ⟨d, hd⟩ := Option.isSome_iff_exists.mp hpos
    rw [List.append_nil] at ih
    obtain ⟨htidy, hsteps⟩ := h.drain hd hfits hexec
    have hstart := hsteps k
    simp only [accesses, position, hd, Option.join_some, List.append_nil] at hstart ⊢
    exact hstart.trans (ih htidy k)
  | @access c c' l must op cs log _ ih =>
    have hrest := ih htidy (k ++ [(l, op)])
    simpa [accesses, position] using hrest
  | suspended | mayBlock | yield => exact htidy.elim

/-- When a `run_pended_op` of the lock runs to its end, it does what the pended operations do
directly, one after another, and none is left. -/
theorem Implements.pended_direct {listOps : π → List α} {Represents : δ → ρ → ρ → Prop} {Idle : ρ → Prop}
    {Looks : δ → Prop} (h : Implements M fits l ops O view buffer pos)
    (hO : Deferred.Faithful O listOps Represents Idle Looks)
    (hruns : Runs M fits (fun c => (view c, buffer c)) c (M.pended l) log c') (k : List (Λ × ω))
    (hidle : listOps (buffer c) ≠ [] ∨ Idle (view c k)) :
    view c' (k ++ log) = (listOps (buffer c)).foldl O.direct (view c k) ∧ listOps (buffer c') = [] := by
  obtain ⟨b, hpended, hpos⟩ := h.enter
  rw [hpended] at hruns
  have htidy : Tidy pos ([.body b] : List (Code Λ ω β)) := ⟨by simp [hpos], rfl⟩
  have hsteps := h.drained htidy hruns k
  simp only [accesses, position, hpos, Option.join_some, List.append_nil] at hsteps
  exact hO.drained hsteps (hO.enter _) (fun _ => hidle) (Or.inl hO.looks)

end Pended

end Hopter.Exec
