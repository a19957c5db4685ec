-- SUMMARY: Accesses that need a free soft lock, and why they find it free.
import Hopter.Exec.Contexts

/-!
# Accesses that find their lock free

Code of tasks runs below all interrupt handlers, and outside of all access closures
except those that it has entered itself. So it knows of some locks that no access to
them is in progress below it on the stack. Which code knows this of which locks is up to
the kernel object (`need`); `Rooted` says that the code only passes on what it knows.
An access to a lock that is known to be idle wins the lock.
-/

namespace Hopter.Exec

variable {Λ ω β σ τ ι χ : Type} [DecidableEq Λ]

section Grounded

variable (own : β → Option (Λ × Access)) (need : Instr Λ ω β → Λ → Prop)

/-- Below every instruction that needs it, no access to the lock is in progress. -/
def Grounded : List (Instr Λ ω β) → Prop
  | [] => True
  | i :: k => (∀ l, need i l → marks own l k = []) ∧ Grounded k

/-- Code hands on what it needs, other than for the lock that it has taken. -/
structure Rooted (M : Spec Λ ω β σ τ ι χ) : Prop where
  control : ∀ i l, i.isControl = true → ¬ need i l
  guard : ∀ l must op l', need (.guard l must op) l' → need (.code (.access l must op)) l'
  suspended : ∀ b l, need (.code (.body b)) l → need (.code (.suspended b)) l
  full : ∀ l must op, ∀ c ∈ M.full l op, ∀ l', need (.code c) l' → l' ≠ l ∧ need (.guard l must op) l'
  pend : ∀ l op, ∀ c ∈ M.pend l op, ∀ l', need (.code c) l' → l' ≠ l ∧ need (.guard l false op) l'
  pended : ∀ l, ∀ c ∈ M.pended l, ∀ l', ¬ need (.code c) l'
  handler : ∀ i, ∀ c ∈ M.handler i, ∀ l', ¬ need (.code c) l'
  exec : ∀ {c b x c' cs}, M.exec c b x = some (c', cs) → ∀ d ∈ cs, ∀ l, need (.code d) l →
    need (.code (.body b)) l ∧ ∀ a, own b ≠ some (l, a)

end Grounded

variable {own : β → Option (Λ × Access)} {need : Instr Λ ω β → Λ → Prop} {M : Spec Λ ω β σ τ ι χ}
  {s s' : State Λ ω β σ τ} {k : List (Instr Λ ω β)} {cs : List (Code Λ ω β)}

theorem Grounded.push (h : Grounded own need k)
    (hcs : ∀ c ∈ cs, ∀ l, need (.code c) l →
      marks own l k = [] ∧ ∀ d ∈ cs, Code.mark own l d = none) : Grounded own need (push cs k) := by
  suffices hpart : ∀ ds : List (Code Λ ω β), (∀ d ∈ ds, d ∈ cs) →
      Grounded own need (Exec.push ds k) from hpart cs fun d hd => hd
  intro ds hds
  induction ds with
  | nil => exact h
  | cons d ds ih =>
    rw [List.forall_mem_cons] at hds
    refine ⟨fun l hl => ?_, ih hds.2⟩
    obtain ⟨hk, hmark⟩ := hcs d hds.1 l hl
    change marks own l (Exec.push ds k) = []
    rw [marks_push, hk, List.append_nil, List.filterMap_eq_nil_iff]
    exact fun e he => hmark e (hds.2 e he)

/-- Where no access is in progress, everything is grounded. -/
theorem grounded_of_not_inner (h : ∀ i ∈ k, i.inner own = false) : Grounded own need k := by
  induction k with
  | nil => trivial
  | cons i k ih =>
    rw [List.forall_mem_cons] at h
    exact ⟨fun _ _ => marks_eq_nil h.2, ih h.2⟩

/-- The marks of a closure are of its own lock. -/
theorem AtMostOne.mark_eq_none {a : Access} {l l' : Λ} (h : AtMostOne own l a cs) (hne : l' ≠ l) :
    ∀ d ∈ cs, Code.mark own l' d = none := by
  have := h.other (l := l') hne.symm
  rwa [List.filterMap_eq_nil_iff] at this

theorem code_mark_eq_none {l : Λ} (h : ∀ c ∈ cs, (Instr.code c).inner own = false) :
    ∀ d ∈ cs, Code.mark own l d = none :=
  fun d hd => Instr.mark_eq_none (h d hd)

theorem Grounded.body {b : β} {c : σ} {x : χ} (hd : Discipline own M) (hr : Rooted own need M)
    (h : Grounded own need s.stack) (hk : s.stack = .code (.body b) :: k)
    (hexec : M.exec s.content b x = some (c, cs)) : Grounded own need (Exec.push cs k) := by
  rw [hk] at h
  refine h.2.push fun d hd' l hl => ?_
  obtain ⟨hneed, hown⟩ := hr.exec hexec d hd' l hl
  refine ⟨h.1 l hneed, ?_⟩
  have hdisc := hd.exec hexec
  cases hb : own b with
  | none =>
    rw [hb] at hdisc
    exact code_mark_eq_none hdisc
  | some p =>
    obtain ⟨l', a⟩ := p
    rw [hb] at hdisc
    refine AtMostOne.mark_eq_none hdisc ?_
    rintro rfl
    exact hown a hb

variable [DecidableEq τ]

/-- Built-in steps. -/
theorem Grounded.control (hd : Discipline own M) (hr : Rooted own need M) (hsound : Sound own s)
    (h : Grounded own need s.stack) (hstep : Control M s s') : Grounded own need s'.stack := by
  have hc : ∀ (i : Instr Λ ω β) (l : Λ) {P : Prop}, i.isControl = true → need i l → P :=
    fun i l _ hi hneed => absurd hneed (hr.control i l hi)
  cases hstep with
  | access hk =>
    rw [hk] at h
    refine ⟨fun l hl => ?_, fun l hl => hc _ l rfl hl, h.2⟩
    rw [marks_cons, h.1 l (hr.guard _ _ _ l hl)]
    rfl
  | suspended hk =>
    rw [hk] at h
    refine ⟨fun l hl => ?_, fun l hl => hc _ l rfl hl, h.2⟩
    rw [marks_cons, h.1 l (hr.suspended _ l hl)]
    rfl
  | @win l must op k hk hfree =>
    rw [hk] at h
    refine Grounded.push ⟨fun l' hl' => hc _ l' rfl hl', h.2⟩ fun d hd' l' hl' => ?_
    obtain ⟨hne, hneed⟩ := hr.full l must op d hd' l' hl'
    refine ⟨?_, (hd.full l op).mark_eq_none hne⟩
    rw [marks_cons, h.1 l' hneed]
    simp [Instr.mark, hne.symm]
  | @lose l op k hk hlocked =>
    rw [hk] at h
    refine Grounded.push ⟨fun l' hl' => hc _ l' rfl hl', h.2⟩ fun d hd' l' hl' => ?_
    obtain ⟨hne, hneed⟩ := hr.pend l op d hd' l' hl'
    refine ⟨?_, (hd.pend l op).mark_eq_none hne⟩
    rw [marks_cons, h.1 l' hneed]
    simp [Instr.mark, hne.symm]
  | @settle l k hk hpending =>
    rw [hk] at h
    exact Grounded.push ⟨fun l' hl' => hc _ l' rfl hl', h.2⟩ fun d hd' l' hl' =>
      absurd hl' (hr.pended l d hd' l')
  | mayBlock hk hsus htask =>
    rw [hk] at h
    exact h.2
  | yield hk | setPending hk | leave hk hpending | iret hk =>
    rw [hk] at h
    exact h.2
  | reschedule hk b =>
    rw [hk] at h
    exact h.2
  | pass hk hpending | unlock hk | retry hk hpending | relock hk hfree | resume hk =>
    rw [hk] at h
    exact ⟨fun l' hl' => hc _ l' rfl hl', h.2⟩
  | restore hk => exact grounded_of_not_inner fun i hi => (hsound.saved _ i hi).1
  | preempt i =>
    exact Grounded.push ⟨fun l' hl' => hc _ l' rfl hl', h⟩ fun d hd' l' hl' =>
      absurd hl' (hr.handler i d hd' l')
  | pendsv hsus htask =>
    refine grounded_of_not_inner (forall_mem_push (fun c hc' => hd.pickNext c hc') ?_)
    simp [Instr.inner]

omit [DecidableEq τ] in
/-- An access that needs its lock finds it free. -/
theorem Grounded.free {l : Λ} {must : Bool} {op : ω} (hsound : Sound own s)
    (h : Grounded own need s.stack) (hk : s.stack = .guard l must op :: k)
    (hneed : need (.guard l must op) l) : (s.flags l).locked = false := by
  have hl := hsound.locks l
  rw [hk] at h hl
  rw [marks_cons, h.1 l hneed] at hl
  rw [(LockOk.unlocked hl).1]

theorem Grounded.init {content : σ} {running : τ} {tasks : τ → List (Code Λ ω β)}
    (htasks : ∀ t, ∀ c ∈ tasks t, (Instr.code c).inner own = false) :
    Grounded own need (init content running tasks).stack :=
  grounded_of_not_inner (forall_mem_push (htasks running) (by simp))

end Hopter.Exec
