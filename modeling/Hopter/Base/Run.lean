-- SUMMARY: Runs of partial transition functions and the invariant rules for them.
import Mathlib.Tactic.Common

/-!
# Runs

A system is a partial transition function: `step s a` is the state after the
action `a` in the state `s`, and `none` when the action is not possible there. A
run is a list of actions. `exec_inv` is the rule for invariants, and `exec_total`
the rule for runs that cannot get stuck because every action is enabled by an
invariant.
-/

namespace Run

variable {σ α : Type}

/-- The state after a list of actions. -/
def exec (step : σ → α → Option σ) : σ → List α → Option σ
  | s, [] => some s
  | s, a :: as => (step s a).bind fun s' => exec step s' as

/-- Every action of the run is allowed in the state in which it happens. -/
def Allowed (step : σ → α → Option σ) (ok : σ → α → Prop) : σ → List α → Prop
  | _, [] => True
  | s, a :: as => ok s a ∧ ∀ s', step s a = some s' → Allowed step ok s' as

variable {step : σ → α → Option σ} {ok : σ → α → Prop} {s s' : σ} {a : α} {as bs : List α}

@[simp] theorem exec_nil : exec step s [] = some s := rfl

theorem exec_cons : exec step s (a :: as) = some s' ↔
    ∃ t, step s a = some t ∧ exec step t as = some s' := by
  simp [exec, Option.bind_eq_some_iff]

theorem exec_append : exec step s (as ++ bs) = some s' ↔
    ∃ t, exec step s as = some t ∧ exec step t bs = some s' := by
  induction as generalizing s with
  | nil => simp
  | cons a as ih =>
    simp only [List.cons_append, exec_cons, ih]
    constructor
    · rintro ⟨t, ht, u, hu, hs'⟩
      exact ⟨u, ⟨t, ht, hu⟩, hs'⟩
    · rintro ⟨u, ⟨t, ht, hu⟩, hs'⟩
      exact ⟨t, ht, u, hu, hs'⟩

theorem allowed_append : Allowed step ok s (as ++ bs) ↔
    Allowed step ok s as ∧ ∀ t, exec step s as = some t → Allowed step ok t bs := by
  induction as generalizing s with
  | nil => simp [Allowed]
  | cons a as ih =>
    simp only [List.cons_append, Allowed, ih, exec_cons]
    constructor
    · rintro ⟨hok, h⟩
      refine ⟨⟨hok, fun s' hs' => (h s' hs').1⟩, ?_⟩
      rintro t ⟨s', hs', hrun⟩
      exact (h s' hs').2 t hrun
    · rintro ⟨⟨hok, h⟩, hrest⟩
      exact ⟨hok, fun s' hs' => ⟨h s' hs', fun t hrun => hrest t ⟨s', hs', hrun⟩⟩⟩

theorem Allowed.and {ok' : σ → α → Prop} (h : Allowed step ok s as) (h' : Allowed step ok' s as) :
    Allowed step (fun s a => ok s a ∧ ok' s a) s as := by
  induction as generalizing s with
  | nil => trivial
  | cons a as ih => exact ⟨⟨h.1, h'.1⟩, fun t ht => ih (h.2 t ht) (h'.2 t ht)⟩

/-- Actions that are allowed in every state. -/
theorem Allowed.of_forall (h : ∀ a ∈ as, ∀ s, ok s a) : Allowed step ok s as := by
  induction as generalizing s with
  | nil => trivial
  | cons a as ih =>
    exact ⟨h a (List.mem_cons_self ..) s, fun t _ => ih fun b hb => h b (List.mem_cons_of_mem a hb)⟩

instance decidableAllowed [∀ s a, Decidable (ok s a)] :
    ∀ s as, Decidable (Allowed step ok s as)
  | _, [] => isTrue trivial
  | s, a :: as =>
    have : DecidablePred fun s' => Allowed step ok s' as := fun s' => decidableAllowed s' as
    inferInstanceAs (Decidable (ok s a ∧ ∀ s', s' ∈ step s a → Allowed step ok s' as))

/-- What every step keeps, every run keeps. -/
theorem exec_inv (Inv : σ → Prop) (hstep : ∀ {s a s'}, Inv s → step s a = some s' → Inv s')
    (hs : Inv s) (hrun : exec step s as = some s') : Inv s' := by
  induction as generalizing s with
  | nil =>
    obtain rfl := Option.some.inj hrun
    exact hs
  | cons a as ih =>
    obtain ⟨t, ht, hrun⟩ := exec_cons.mp hrun
    exact ih (hstep hs ht) hrun

/-- What every allowed step keeps, every allowed run keeps. -/
theorem exec_inv_of_allowed (Inv : σ → Prop)
    (hstep : ∀ {s a s'}, Inv s → ok s a → step s a = some s' → Inv s') (hs : Inv s)
    (hok : Allowed step ok s as) (hrun : exec step s as = some s') : Inv s' := by
  induction as generalizing s with
  | nil =>
    obtain rfl := Option.some.inj hrun
    exact hs
  | cons a as ih =>
    obtain ⟨t, ht, hrun⟩ := exec_cons.mp hrun
    exact ih (hstep hs hok.1 ht) (hok.2 t ht) hrun

/-- When an invariant enables every allowed action, an allowed run ends, and it ends
in a state with the invariant. -/
theorem exec_total (Inv : σ → Prop)
    (hstep : ∀ {s a}, Inv s → ok s a → ∃ s', step s a = some s' ∧ Inv s') (hs : Inv s)
    (hok : Allowed step ok s as) : ∃ s', exec step s as = some s' ∧ Inv s' := by
  induction as generalizing s with
  | nil => exact ⟨s, rfl, hs⟩
  | cons a as ih =>
    obtain ⟨hoka, hrest⟩ := hok
    obtain ⟨t, ht, hinv⟩ := hstep hs hoka
    obtain ⟨s', hrun, hinv'⟩ := ih hinv (hrest t ht)
    exact ⟨s', exec_cons.mpr ⟨t, ht, hrun⟩, hinv'⟩

/-- An invariant that speaks of the number of steps, and enables every step up to a limit. -/
theorem exec_total_of_length {k limit : Nat} (Inv : Nat → σ → Prop)
    (hstep : ∀ {k s} a, Inv k s → k < limit → ∃ s', step s a = some s' ∧ Inv (k + 1) s') (hs : Inv k s)
    (hlength : k + as.length ≤ limit) : ∃ s', exec step s as = some s' ∧ Inv (k + as.length) s' := by
  induction as generalizing s k with
  | nil => exact ⟨s, rfl, hs⟩
  | cons a as ih =>
    rw [List.length_cons] at hlength
    obtain ⟨t, ht, hinv⟩ := hstep a hs (by omega)
    obtain ⟨s', hrun, hinv'⟩ := ih hinv (by omega)
    rw [List.length_cons, show k + (as.length + 1) = k + 1 + as.length by omega]
    exact ⟨s', exec_cons.mpr ⟨t, ht, hrun⟩, hinv'⟩

-- ---------------------------------------------------------------------------
-- Outputs
-- ---------------------------------------------------------------------------

/-- What the steps of a run put out, in order. -/
def outputs {β : Type} (step : σ → α → Option σ) (out : σ → σ → List β) : σ → List α → List β
  | _, [] => []
  | s, a :: as => ((step s a).map fun s' => out s s' ++ outputs step out s' as).getD []

theorem outputs_cons {β : Type} {out : σ → σ → List β} (h : step s a = some s') :
    outputs step out s (a :: as) = out s s' ++ outputs step out s' as := by
  simp [outputs, h]

-- ---------------------------------------------------------------------------
-- Peaks
-- ---------------------------------------------------------------------------

/-- The states that a run visits, the first one included. -/
def states (step : σ → α → Option σ) : σ → List α → List σ
  | s, [] => [s]
  | s, a :: as => s :: ((step s a).map fun s' => states step s' as).getD []

/-- The largest value of a quantity, and `0` when there is none. -/
def peak {β : Type} (f : β → Nat) (l : List β) : Nat := (l.map f).foldr max 0

section Peak

variable {β : Type} {f : β → Nat} {x : β} {l : List β} {n : Nat}

@[simp] theorem peak_nil : peak f [] = 0 := rfl

@[simp] theorem peak_cons : peak f (x :: l) = max (f x) (peak f l) := rfl

theorem peak_le_iff : peak f l ≤ n ↔ ∀ x ∈ l, f x ≤ n := by
  induction l with
  | nil => simp
  | cons x l ih => rw [peak_cons, Nat.max_le, ih, List.forall_mem_cons]

theorem le_peak (h : x ∈ l) : f x ≤ peak f l := peak_le_iff.mp (Nat.le_refl _) x h

end Peak

/-- What every step keeps until something else happens, is kept by a run or that happens in it. -/
theorem exec_until {P Q : σ → Prop} (hstep : ∀ {s a s'}, P s → step s a = some s' → Q s' ∨ P s') (hs : P s)
    (hrun : exec step s as = some s') : (∃ t ∈ states step s as, Q t) ∨ P s' := by
  induction as generalizing s with
  | nil =>
    obtain rfl := Option.some.inj hrun
    exact Or.inr hs
  | cons a as ih =>
    obtain ⟨t, ht, hrun⟩ := exec_cons.mp hrun
    have hstates : ∀ u ∈ states step t as, u ∈ states step s (a :: as) := fun u hu => by simp [states, ht, hu]
    rcases hstep hs ht with hQ | hP
    · exact Or.inl ⟨t, hstates t (by cases as <;> simp [states]), hQ⟩
    · exact (ih hP hrun).imp_left fun ⟨u, hu, hQ⟩ => ⟨u, hstates u hu, hQ⟩

/-- A counter that every step raises to a quantity, when it is below it, is the peak of that
quantity. -/
theorem exec_peak (Inv : σ → Prop) {f g : σ → Nat} (hle : ∀ s, Inv s → f s ≤ g s)
    (hstep : ∀ {s a}, Inv s → ok s a → ∃ s', step s a = some s' ∧ Inv s' ∧ g s' = max (g s) (f s'))
    (hs : Inv s) (hok : Allowed step ok s as) (hrun : exec step s as = some s') :
    g s' = max (g s) (peak f (states step s as)) := by
  induction as generalizing s with
  | nil =>
    obtain rfl := Option.some.inj hrun
    simp [states, hle s hs]
  | cons a as ih =>
    obtain ⟨t, ht, hinv, hg⟩ := hstep hs hok.1
    obtain ⟨t', ht', hrun⟩ := exec_cons.mp hrun
    obtain rfl : t' = t := Option.some.inj (ht'.symm.trans ht)
    have hfirst : ∀ u us, f u ≤ peak f (states step u us) := fun u us =>
      le_peak (by cases us <;> simp [states])
    have hrest := hfirst t' as
    rw [ih hinv (hok.2 t' ht) hrun, hg]
    have := hle s hs
    simp only [states, ht, Option.map_some, Option.getD_some, peak_cons]
    omega

-- ---------------------------------------------------------------------------
-- Costs
-- ---------------------------------------------------------------------------

/-- What the actions of a run cost, each in the state in which it happens. -/
def cost (step : σ → α → Option σ) (c : σ → α → Nat) : σ → List α → Nat
  | _, [] => 0
  | s, a :: as => c s a + ((step s a).map fun s' => cost step c s' as).getD 0

/-- What every allowed step keeps that stays within a budget, every allowed run keeps that does.
The invariant may speak of what has been spent. -/
theorem exec_inv_of_cost {c : σ → α → Nat} {budget spent : Nat} (Inv : Nat → σ → Prop)
    (hstep : ∀ {k s a s'}, Inv k s → ok s a → k + c s a < budget → step s a = some s' → Inv (k + c s a) s')
    (hs : Inv spent s) (hok : Allowed step ok s as) (hbudget : spent + cost step c s as < budget)
    (hrun : exec step s as = some s') : Inv (spent + cost step c s as) s' := by
  induction as generalizing s spent with
  | nil =>
    obtain rfl := Option.some.inj hrun
    exact hs
  | cons a as ih =>
    obtain ⟨t, ht, hrun⟩ := exec_cons.mp hrun
    simp only [cost, ht, Option.map_some, Option.getD_some, ← Nat.add_assoc] at hbudget ⊢
    exact ih (hstep hs hok.1 (by omega) ht) (hok.2 t ht) hbudget hrun

end Run
