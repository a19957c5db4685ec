-- SUMMARY: Total correctness of a deterministic machine: arriving at a goal, what holds on the way, and the rule for loops.
import Mathlib.Tactic.Common

/-!
# Arriving

`Leads step I Q s` says that the machine, started in `s`, arrives at a state
with `Q` after finitely many steps, and that `I` holds in every state on the way,
the first and the last one included. There is no way to get stuck or to run
forever. `trans` is the rule for one piece of code after another, and `loop` the
rule for a loop with a known number of iterations.
-/

variable {σ : Type} {step : σ → Option σ} {I Q R : σ → Prop} {s s' : σ}

inductive Leads (step : σ → Option σ) (I Q : σ → Prop) : σ → Prop where
  | here {s : σ} (hI : I s) (hQ : Q s) : Leads step I Q s
  | next {s s' : σ} (hI : I s) (hstep : step s = some s') (h : Leads step I Q s') : Leads step I Q s

namespace Leads

theorem trans (h : Leads step I Q s) (hrest : ∀ t, I t → Q t → Leads step I R t) :
    Leads step I R s := by
  induction h with
  | here hI hQ => exact hrest _ hI hQ
  | next hI hstep _ ih => exact .next hI hstep ih

theorem mono {J : σ → Prop} (h : Leads step I Q s) (hI : ∀ t, I t → J t) (hQ : ∀ t, Q t → R t) :
    Leads step J R s := by
  induction h with
  | here hi hq => exact .here (hI _ hi) (hQ _ hq)
  | next hi hstep _ ih => exact .next (hI _ hi) hstep ih

/-- `Inv i` holds where iteration `i` of `n` begins. An iteration leads to the next one, or it is the last and
leads to `Q`. -/
theorem loop {n i : Nat} (Inv : Nat → σ → Prop)
    (hbody : ∀ i s, i < n → Inv i s → Leads step I (fun t => (i + 1 < n ∧ Inv (i + 1) t) ∨ Q t) s)
    (hi : i < n) (hs : Inv i s) : Leads step I Q s := by
  induction hk : n - i generalizing i s with
  | zero => omega
  | succ k ih =>
    refine (hbody i s hi hs).trans fun t hI ht => ?_
    rcases ht with ⟨hlast, ht⟩ | ht
    · exact ih hlast ht (by omega)
    · exact .here hI ht

end Leads
