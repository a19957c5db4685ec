-- SUMMARY: The invariant of the execution model: soft locks lose no pended operation, at any nesting of interrupts.
import Hopter.Exec.Machine

/-!
# Soft locks

The guards of one soft lock that are alive show up on the stack as marks: a
pend-only guard that has not yet set the flag (`pend`), the guard that holds the
lock (`hold`), and guards that have released it and are about to look at the flag
again (`wait`). From the top of the stack to its bottom, the marks of a lock that
is held are some `pend`, one `hold` and some `wait`; those of a lock that is not
held are only `wait`. A step of the release loop moves one mark on, and a nested
handler puts its marks on top: this is the whole invariant (`Shape`).

Atomic steps of an access closure are marked as well: those of a full access (`body`)
right above the `hold`, and those of a pend-only access (`note`) right above their
`pend`. Which steps these are is up to the kernel object: its `Discipline` names the
owner of each step and promises that a closure has one such step to do at a time.
-/

namespace Hopter.Exec

variable {Λ ω β σ τ ι χ : Type}

inductive Mark where
  | pend
  | note
  | body
  | hold
  | wait

/-- The marks of a lock that nobody holds. -/
inductive Released : List Mark → Prop where
  | nil : Released []
  | wait {ms : List Mark} : Released ms → Released (.wait :: ms)

/-- The marks of a lock that is held. -/
inductive Held : List Mark → Prop where
  | hold {ms : List Mark} : Released ms → Held (.hold :: ms)
  | body {ms : List Mark} : Released ms → Held (.body :: .hold :: ms)
  | pend {ms : List Mark} : Held ms → Held (.pend :: ms)
  | note {ms : List Mark} : Held ms → Held (.note :: .pend :: ms)

def Shape (locked : Bool) (ms : List Mark) : Prop :=
  if locked = true then Held ms else Released ms

/-- The flags of a lock, what is owed to its pend-only accesses, and its marks. -/
structure LockOk (f : Flags) (owed : Bool) (ms : List Mark) : Prop where
  shape : Shape f.locked ms
  pending : f.pending = true → ms ≠ []
  owed : owed = f.pending

-- ---------------------------------------------------------------------------
-- One lock
-- ---------------------------------------------------------------------------

theorem Held.bodies {bs ms : List Mark} (hbs : bs = [] ∨ bs = [.body]) (h : Released ms) :
    Held (bs ++ .hold :: ms) := by
  rcases hbs with rfl | rfl
  · exact .hold h
  · exact .body h

theorem Held.notes {bs ms : List Mark} (hbs : bs = [] ∨ bs = [.note]) (h : Held ms) :
    Held (bs ++ .pend :: ms) := by
  rcases hbs with rfl | rfl
  · exact .pend h
  · exact .note h

theorem Held.ne_nil {ms : List Mark} (h : Held ms) : ms ≠ [] := by
  cases h <;> simp

namespace LockOk

variable {f : Flags} {owed : Bool} {ms bs : List Mark}

theorem held (h : LockOk f owed ms) (hne : ¬ Released ms) : f.locked = true ∧ Held ms := by
  have hshape := h.shape
  unfold Shape at hshape
  split at hshape
  · exact ⟨‹_›, hshape⟩
  · exact absurd hshape hne

/-- A step of a closure goes on with at most one step of the same closure. -/
theorem body (h : LockOk f owed (.body :: ms)) (hbs : bs = [] ∨ bs = [.body]) :
    LockOk f owed (bs ++ ms) := by
  obtain ⟨hlocked, hheld⟩ := h.held (by rintro ⟨⟩)
  cases hheld with
  | body hms =>
    refine ⟨?_, fun _ => by simp, h.owed⟩
    rw [Shape, if_pos hlocked]
    exact Held.bodies hbs hms

theorem note (h : LockOk f owed (.note :: ms)) (hbs : bs = [] ∨ bs = [.note]) :
    LockOk f owed (bs ++ ms) := by
  obtain ⟨hlocked, hheld⟩ := h.held (by rintro ⟨⟩)
  cases hheld with
  | note hms =>
    refine ⟨?_, fun _ => by simp, h.owed⟩
    rw [Shape, if_pos hlocked]
    exact Held.notes hbs hms

/-- The guard wins the lock. -/
theorem win (h : LockOk f owed ms) (hf : f.locked = false) (hbs : bs = [] ∨ bs = [.body]) :
    LockOk { f with locked := true } owed (bs ++ .hold :: ms) := by
  have hshape := h.shape
  rw [hf, Shape, if_neg (by decide)] at hshape
  exact ⟨Held.bodies hbs hshape, fun _ => by simp, h.owed⟩

/-- The guard does not win the lock. -/
theorem lose (h : LockOk f owed ms) (hf : ¬ f.locked = false) (hbs : bs = [] ∨ bs = [.note]) :
    LockOk f owed (bs ++ .pend :: ms) := by
  have hlocked : f.locked = true := by simpa using hf
  have hshape := h.shape
  rw [Shape, if_pos hlocked] at hshape
  refine ⟨?_, fun _ => by simp, h.owed⟩
  rw [Shape, if_pos hlocked]
  exact Held.notes hbs hshape

theorem setPending (h : LockOk f owed (.pend :: ms)) :
    LockOk { f with pending := true } true ms := by
  obtain ⟨hlocked, hheld⟩ := h.held (by rintro ⟨⟩)
  cases hheld with
  | pend hms => exact ⟨by rw [Shape, if_pos hlocked]; exact hms, fun _ => hms.ne_nil, rfl⟩

theorem swapPending (h : LockOk f owed (.hold :: ms)) (hbs : bs = [] ∨ bs = [.body]) :
    LockOk { f with pending := false } false (bs ++ .hold :: ms) := by
  obtain ⟨hlocked, hheld⟩ := h.held (by rintro ⟨⟩)
  cases hheld with
  | hold hms =>
    refine ⟨?_, fun hp => absurd hp (by simp), rfl⟩
    rw [Shape, if_pos hlocked]
    exact Held.bodies hbs hms

theorem unlock (h : LockOk f owed (.hold :: ms)) :
    LockOk { f with locked := false } owed (.wait :: ms) := by
  obtain ⟨-, hheld⟩ := h.held (by rintro ⟨⟩)
  cases hheld with
  | hold hms => exact ⟨.wait hms, fun _ => by simp, h.owed⟩

/-- A guard that has released the lock finds it free when it runs again. -/
theorem locked_of_wait (h : LockOk f owed (.wait :: ms)) : f.locked = false := by
  have hshape := h.shape
  unfold Shape at hshape
  split at hshape
  · cases hshape
  · simpa using ‹¬ f.locked = true›

theorem released_of_wait (h : LockOk f owed (.wait :: ms)) : Released ms := by
  have hshape := h.shape
  rw [h.locked_of_wait, Shape, if_neg (by decide)] at hshape
  cases hshape with
  | wait hms => exact hms

theorem leave (h : LockOk f owed (.wait :: ms)) (hf : ¬ f.pending = true) :
    LockOk f owed ms := by
  refine ⟨?_, fun hp => absurd hp hf, h.owed⟩
  rw [h.locked_of_wait, Shape, if_neg (by decide)]
  exact h.released_of_wait

theorem relock (h : LockOk f owed (.wait :: ms)) :
    LockOk { f with locked := true } owed (.hold :: ms) :=
  ⟨.hold h.released_of_wait, fun _ => by simp, h.owed⟩

end LockOk

-- ---------------------------------------------------------------------------
-- The marks on the stack
-- ---------------------------------------------------------------------------

section Marks

/-- What an atomic step is part of: a full access or a pend-only one. -/
inductive Access where
  | full
  | pend
  deriving DecidableEq

def Access.mark : Access → Mark
  | .full => .body
  | .pend => .note

variable [DecidableEq Λ] (own : β → Option (Λ × Access))

def Code.mark (l : Λ) : Code Λ ω β → Option Mark
  | .body b | .suspended b => (own b).bind fun a => if a.1 = l then some a.2.mark else none
  | _ => none

def Instr.mark (l : Λ) : Instr Λ ω β → Option Mark
  | .code c => c.mark own l
  | .setPending l' => if l' = l then some .pend else none
  | .swapPending l' | .unlock l' => if l' = l then some .hold else none
  | .checkPending l' | .relock l' => if l' = l then some .wait else none
  | _ => none

def marks (l : Λ) (k : List (Instr Λ ω β)) : List Mark := k.filterMap (Instr.mark own l)

/-- The instruction is part of an access to a soft lock. -/
def Instr.inner : Instr Λ ω β → Bool
  | .code (.body b) | .code (.suspended b) => (own b).isSome
  | .guard _ _ _ | .setPending _ | .swapPending _ | .unlock _ | .checkPending _ | .relock _ => true
  | _ => false

def Instr.isResume : Instr Λ ω β → Bool
  | .resume => true
  | _ => false

/-- Every part of an access to a soft lock has the drop of a suspension guard below it. -/
def Covered : List (Instr Λ ω β) → Prop
  | [] => True
  | i :: k => (i.inner own = true → .resume ∈ k) ∧ Covered k

/-- The instruction can be on the stack of a task that is switched out. -/
def Instr.Clean (i : Instr Λ ω β) : Prop :=
  i.inner own = false ∧ i.isResume = false ∧ i.isFrame = false

/-- The code has at most one step of an access, which is of the given kind and to `l`. -/
def AtMostOne (l : Λ) (a : Access) (cs : List (Code Λ ω β)) : Prop :=
  ∀ l', cs.filterMap (Code.mark own l') = [] ∨
    l' = l ∧ cs.filterMap (Code.mark own l') = [a.mark]

/-- What the code of a kernel object promises about its access closures. -/
structure Discipline (M : Spec Λ ω β σ τ ι χ) : Prop where
  full : ∀ l op, AtMostOne own l .full (M.full l op)
  pended : ∀ l, AtMostOne own l .full (M.pended l)
  pend : ∀ l op, AtMostOne own l .pend (M.pend l op)
  handler : ∀ i, ∀ c ∈ M.handler i, (Instr.code c).inner own = false
  pickNext : ∀ c ∈ M.pickNext, (Instr.code c).inner own = false
  exec : ∀ {c b x c' cs}, M.exec c b x = some (c', cs) →
    match own b with
    | some (l, a) => AtMostOne own l a cs
    | none => ∀ c ∈ cs, (Instr.code c).inner own = false

/-- The invariant of the machine. -/
structure Sound (s : State Λ ω β σ τ) : Prop where
  suspend : s.suspendCnt = s.stack.countP Instr.isResume
  locks : ∀ l, LockOk (s.flags l) (s.owed l) (marks own l s.stack)
  covered : Covered own s.stack
  saved : ∀ t, ∀ i ∈ s.saved t, i.Clean own
  home : (∀ i ∈ s.stack, i ≠ .restore) → s.saved s.running = []

end Marks

-- ---------------------------------------------------------------------------
-- Marks and covers
-- ---------------------------------------------------------------------------

section Lemmas

variable {own : β → Option (Λ × Access)} {l : Λ} {i : Instr Λ ω β} {k k' : List (Instr Λ ω β)}
  {cs : List (Code Λ ω β)}

theorem covered_append : Covered own (k ++ k') ↔
    (∀ pre i post, k = pre ++ i :: post → i.inner own = true → .resume ∈ post ++ k') ∧
      Covered own k' := by
  induction k with
  | nil => simp
  | cons j k ih =>
    simp only [List.cons_append, Covered, ih]
    constructor
    · rintro ⟨hj, hk, hk'⟩
      refine ⟨fun pre i post heq hi => ?_, hk'⟩
      cases pre with
      | nil =>
        simp only [List.nil_append, List.cons.injEq] at heq
        obtain ⟨rfl, rfl⟩ := heq
        exact hj hi
      | cons p pre =>
        simp only [List.cons_append, List.cons.injEq] at heq
        exact hk pre i post heq.2 hi
    · rintro ⟨hall, hk'⟩
      exact ⟨fun hj => hall [] j k rfl hj,
        fun pre i post heq hi => hall (j :: pre) i post (by simp [heq]) hi, hk'⟩

theorem countP_push : (push cs k).countP Instr.isResume = k.countP Instr.isResume := by
  rw [push, List.countP_append, Nat.add_eq_right, List.countP_eq_zero]
  simp [Instr.isResume]

/-- Code on top of a covered stack, when the stack covers what the code needs. -/
theorem Covered.push (h : Covered own k)
    (hcs : ∀ c ∈ cs, (Instr.code c).inner own = true → .resume ∈ k) :
    Covered own (push cs k) := by
  refine covered_append.mpr ⟨fun pre i post heq hi => ?_, h⟩
  have hmem : i ∈ cs.map Instr.code := by rw [heq]; simp
  obtain ⟨c, hc, rfl⟩ := List.mem_map.mp hmem
  exact List.mem_append_right _ (hcs c hc hi)

/-- Without the drop of a suspension guard, no part of an access is on the stack. -/
theorem Covered.not_inner (h : Covered own k) (hno : ∀ i ∈ k, i.isResume = false) :
    ∀ i ∈ k, i.inner own = false := by
  induction k with
  | nil => simp
  | cons j k ih =>
    intro i hi
    rcases List.mem_cons.mp hi with rfl | hi
    · by_contra hinner
      have hres := h.1 (by simpa using hinner)
      have := hno _ (List.mem_cons_of_mem _ hres)
      simp [Instr.isResume] at this
    · exact ih h.2 (fun j hj => hno j (List.mem_cons_of_mem _ hj)) i hi

variable [DecidableEq Λ]

theorem marks_cons : marks own l (i :: k) = (i.mark own l).toList ++ marks own l k := by
  cases h : i.mark own l <;> simp [marks, h]

theorem marks_push : marks own l (push cs k) = cs.filterMap (Code.mark own l) ++ marks own l k := by
  rw [marks, push, List.filterMap_append, List.filterMap_map]
  rfl

/-- An instruction with a mark is part of an access. -/
theorem Instr.mark_eq_none (h : i.inner own = false) : i.mark own l = none := by
  cases i with
  | code c =>
    cases c with
    | body b =>
      have hb : own b = none := by simpa [Instr.inner] using h
      simp [Instr.mark, Code.mark, hb]
    | suspended b =>
      have hb : own b = none := by simpa [Instr.inner] using h
      simp [Instr.mark, Code.mark, hb]
    | access l' must op => rfl
    | mayBlock => rfl
    | yield => rfl
  | resume | reschedule | iret | restore => rfl
  | guard l' must op => rfl
  | setPending l' | swapPending l' | unlock l' | checkPending l' | relock l' =>
    simp [Instr.inner] at h

theorem marks_eq_nil (h : ∀ i ∈ k, i.inner own = false) : marks own l k = [] := by
  rw [marks, List.filterMap_eq_nil_iff]
  exact fun i hi => Instr.mark_eq_none (h i hi)

theorem codeMarks_eq_nil (h : ∀ c ∈ cs, (Instr.code c).inner own = false) :
    cs.filterMap (Code.mark own l) = [] := by
  rw [List.filterMap_eq_nil_iff]
  exact fun c hc => Instr.mark_eq_none (h c hc)

/-- The marks of a closure for its own lock. -/
theorem AtMostOne.self {a : Access} (h : AtMostOne own l a cs) :
    cs.filterMap (Code.mark own l) = [] ∨ cs.filterMap (Code.mark own l) = [a.mark] :=
  (h l).imp_right And.right

/-- A closure has no marks for other locks. -/
theorem AtMostOne.other {a : Access} {l' : Λ} (h : AtMostOne own l' a cs) (hne : l' ≠ l) :
    cs.filterMap (Code.mark own l) = [] :=
  (h l).resolve_right fun hl => hne hl.1.symm

theorem atMostOne_nil (l : Λ) (a : Access) : AtMostOne own l a ([] : List (Code Λ ω β)) :=
  fun _ => Or.inl rfl

/-- A step of an access, after some steps that are not part of one. -/
theorem atMostOne_concat {a : Access} {b : β} (hcs : ∀ c ∈ cs, (Instr.code c).inner own = false)
    (h : own b = some (l, a)) : AtMostOne own l a (cs ++ [.body b]) := by
  intro l'
  have hnil : cs.filterMap (Code.mark own l') = [] := codeMarks_eq_nil hcs
  by_cases hl : l = l'
  · subst hl
    exact Or.inr ⟨rfl, by rw [List.filterMap_append, hnil]; simp [Code.mark, h]⟩
  · exact Or.inl (by rw [List.filterMap_append, hnil]; simp [Code.mark, h, hl])

theorem atMostOne_singleton {a : Access} {b : β} (h : own b = some (l, a)) :
    AtMostOne own l a ([.body b] : List (Code Λ ω β)) := by
  have hnil : ∀ d ∈ ([] : List (Code Λ ω β)), (Instr.code d).inner own = false := by simp
  exact atMostOne_concat hnil h

end Lemmas

-- ---------------------------------------------------------------------------
-- Steps
-- ---------------------------------------------------------------------------

section Steps

variable {own : β → Option (Λ × Access)} {M : Spec Λ ω β σ τ ι χ} {s s' : State Λ ω β σ τ} {x : χ}
  {i : Instr Λ ω β} {k new : List (Instr Λ ω β)} {l : Λ}

variable [DecidableEq Λ]

/-- A step that works on the top of the stack keeps the invariant when it keeps the
part about the locks and what it puts on the stack is covered. -/
theorem Sound.replace (h : Sound own s) (hk : s.stack = i :: k) (hsub : ∀ j ∈ k, j ∈ s'.stack)
    (hrunning : s'.running = s.running) (hsaved : s'.saved = s.saved)
    (hsuspend : s.suspendCnt = (if i.isResume = true then 1 else 0) + k.countP Instr.isResume →
      s'.suspendCnt = s'.stack.countP Instr.isResume)
    (hcovered : (i.inner own = true → .resume ∈ k) → Covered own k → Covered own s'.stack)
    (hrestore : i ≠ .restore)
    (hlocks : ∀ l, LockOk (s.flags l) (s.owed l) ((i.mark own l).toList ++ marks own l k) →
      LockOk (s'.flags l) (s'.owed l) (marks own l s'.stack)) : Sound own s' := by
  have hsus := h.suspend
  have hcov := h.covered
  have hlock := h.locks
  rw [hk] at hsus hcov
  simp only [hk, marks_cons] at hlock
  refine ⟨hsuspend ?_, fun l => hlocks l (hlock l), hcovered hcov.1 hcov.2, ?_, ?_⟩
  · rw [hsus, List.countP_cons, Nat.add_comm]
  · rw [hsaved]
    exact h.saved
  · rw [hsaved, hrunning]
    intro hno
    refine h.home fun j hj => ?_
    rw [hk] at hj
    rcases List.mem_cons.mp hj with rfl | hj
    · exact hrestore
    · exact hno j (hsub j hj)

/-- A step of a kernel object. -/
theorem Sound.body [DecidableEq τ] {b : β} (hd : Discipline own M) (h : Sound own s)
    (hk : s.stack = .code (.body b) :: k) {c : σ} {cs : List (Code Λ ω β)}
    (hexec : M.exec s.content b x = some (c, cs)) :
    Sound own { s with content := c, stack := push cs k } := by
  have hcs := hd.exec hexec
  refine h.replace hk (fun j hj => List.mem_append_right _ hj) rfl rfl ?_
    (fun hi hcov => hcov.push fun c hc hinner => ?_) (by simp) fun l hl => ?_
  · simp [Instr.isResume, countP_push]
  · cases hb : own b with
    | none =>
      rw [hb] at hcs
      rw [hcs c hc] at hinner
      exact absurd hinner (by decide)
    | some a => exact hi (by simp [Instr.inner, hb])
  · simp only [marks_push]
    cases hb : own b with
    | none =>
      rw [hb] at hcs
      rw [codeMarks_eq_nil hcs]
      simpa [Instr.mark, Code.mark, hb] using hl
    | some a =>
      obtain ⟨l', a⟩ := a
      rw [hb] at hcs
      by_cases hll : l' = l
      · subst hll
        simp only [Instr.mark, Code.mark, hb, Option.bind_some, if_true, Option.toList_some,
          List.singleton_append] at hl
        cases a with
        | full => exact hl.body hcs.self
        | pend => exact hl.note hcs.self
      · rw [hcs.other hll]
        simpa [Instr.mark, Code.mark, hb, hll] using hl

/-- A step that works for the lock `l'` keeps the invariant of every lock when it
keeps that of `l'`. -/
theorem LockOk.update {l' : Λ} {f : Flags} {flags : Λ → Flags} {owed owed' : Bool}
    {ms ms' : List Mark} (h : LockOk (flags l) owed ms)
    (hother : l' ≠ l → ms' = ms ∧ owed' = owed)
    (hat : l' = l → LockOk (flags l) owed ms → LockOk f owed' ms') :
    LockOk (Function.update flags l' f l) owed' ms' := by
  by_cases hl : l' = l
  · subst hl
    rw [Function.update_self]
    exact hat rfl h
  · obtain ⟨rfl, rfl⟩ := hother hl
    rw [Function.update_of_ne (Ne.symm hl)]
    exact h

/-- An interrupt puts its handler on top. -/
theorem Sound.preempt (hd : Discipline own M) (h : Sound own s) (n : ι) :
    Sound own { s with stack := push (M.handler n) (.iret :: s.stack) } := by
  refine ⟨?_, fun l => ?_, ?_, h.saved, fun hno => h.home fun j hj => hno j ?_⟩
  · simpa [countP_push, List.countP_cons, Instr.isResume] using h.suspend
  · have hl := h.locks l
    simp only [marks_push, codeMarks_eq_nil (hd.handler n), marks_cons]
    simpa [Instr.mark] using hl
  · refine Covered.push ⟨by simp [Instr.inner], h.covered⟩ fun c hc hinner => ?_
    rw [hd.handler n c hc] at hinner
    exact absurd hinner (by decide)
  · exact List.mem_append_right _ (List.mem_cons_of_mem _ hj)

/-- At task level with the scheduler running, the stack is clean. -/
theorem Sound.clean (h : Sound own s) (hsus : s.suspendCnt = 0) (htask : taskLevel s.stack = true) :
    ∀ i ∈ s.stack, i.Clean own := by
  have hcount := h.suspend
  rw [hsus, eq_comm, List.countP_eq_zero] at hcount
  have hnores : ∀ i ∈ s.stack, i.isResume = false := fun i hi => by simpa using hcount i hi
  intro i hi
  rw [taskLevel, List.all_eq_true] at htask
  exact ⟨h.covered.not_inner hnores i hi, hnores i hi, by simpa using htask i hi⟩

variable [DecidableEq τ]

theorem Sound.guard {l' : Λ} {must : Bool} {op : ω} (hd : Discipline own M) (h : Sound own s)
    (hk : s.stack = .guard l' must op :: k) (hstep : runInstr M s x k (.guard l' must op) = some s') :
    Sound own s' := by
  simp only [runInstr] at hstep
  split at hstep
  · rename_i hfree
    obtain rfl := Option.some.inj hstep
    refine h.replace hk (fun j hj => by simp [push, hj]) rfl rfl (by
      simp [Instr.isResume, countP_push, setLocked]) (fun hi hcov => ?_) (by simp) fun l hl => ?_
    · have hres := hi rfl
      exact Covered.push ⟨fun _ => hres, hcov⟩ fun _ _ _ => List.mem_cons_of_mem _ hres
    · refine hl.update (fun hne => ⟨?_, rfl⟩) ?_
      · rw [marks_push, (hd.full l' op).other hne, marks_cons]
        simp [Instr.mark, hne]
      · rintro rfl hl
        simp only [marks_push, marks_cons, Instr.mark, if_true]
        exact hl.win hfree (hd.full l' op).self
  · rename_i hlocked
    split at hstep
    · exact absurd hstep (by simp)
    · obtain rfl := Option.some.inj hstep
      refine h.replace hk (fun j hj => by simp [push, hj]) rfl rfl (by
        simp [Instr.isResume, countP_push]) (fun hi hcov => ?_) (by simp) fun l hl => ?_
      · have hres := hi rfl
        exact Covered.push ⟨fun _ => hres, hcov⟩ fun _ _ _ => List.mem_cons_of_mem _ hres
      · rw [marks_push, marks_cons]
        by_cases hll : l' = l
        · subst hll
          simp only [Instr.mark, if_true, Option.toList_some, List.singleton_append]
          exact hl.lose hlocked (hd.pend l' op).self
        · rw [(hd.pend l' op).other hll]
          simpa [Instr.mark, hll] using hl

theorem Sound.swapPending {l' : Λ} (hd : Discipline own M) (h : Sound own s)
    (hk : s.stack = .swapPending l' :: k)
    (hstep : runInstr M s x k (.swapPending l') = some s') : Sound own s' := by
  simp only [runInstr] at hstep
  split at hstep
  · obtain rfl := Option.some.inj hstep
    refine h.replace hk (fun j hj => by simp [push, hj]) rfl rfl (by
      simp [Instr.isResume, countP_push, setPendingFlag]) (fun hi hcov => ?_) (by simp) fun l hl => ?_
    · have hres := hi rfl
      exact Covered.push ⟨fun _ => hres, hcov⟩ fun _ _ _ => List.mem_cons_of_mem _ hres
    · refine hl.update (fun hne => ⟨?_, ?_⟩) ?_
      · rw [marks_push, (hd.pended l').other hne, marks_cons]
        simp [Instr.mark, hne]
      · simp [Ne.symm hne]
      · rintro rfl hl
        simp only [Instr.mark, if_true, Option.toList_some, List.singleton_append] at hl
        simp only [marks_push, marks_cons, Instr.mark, if_true, Function.update_self]
        exact hl.swapPending (hd.pended l').self
  · rename_i hnot
    obtain rfl := Option.some.inj hstep
    refine h.replace hk (fun j hj => by simp [hj]) rfl rfl (by
      simp [Instr.isResume, setPendingFlag]) (fun hi hcov => ?_) (by simp) fun l hl => ?_
    · exact ⟨fun _ => hi rfl, hcov⟩
    · refine hl.update (fun hne => ⟨by simp [marks_cons, Instr.mark], rfl⟩) ?_
      rintro rfl hl
      simp only [Instr.mark, if_true, Option.toList_some, List.singleton_append] at hl
      have howed : s.owed l' = false := by simpa [hl.owed] using hnot
      simp only [marks_cons, Instr.mark, if_true, setPendingFlag, howed]
      exact hl.swapPending (Or.inl rfl)

/-- The other instructions of the release loop. -/
theorem Sound.release (h : Sound own s) (hk : s.stack = i :: k) {l' : Λ}
    (hi : i = .setPending l' ∨ i = .unlock l' ∨ i = .checkPending l' ∨ i = .relock l')
    (hstep : runInstr M s x k i = some s') : Sound own s' := by
  rcases hi with rfl | rfl | rfl | rfl <;> simp only [runInstr] at hstep
  · obtain rfl := Option.some.inj hstep
    refine h.replace hk (fun j hj => hj) rfl rfl (by simp [Instr.isResume, setPendingFlag])
      (fun _ hcov => hcov) (by simp) fun l hl => ?_
    refine hl.update (fun hne => ⟨by simp [Instr.mark, hne], by simp [Ne.symm hne]⟩) ?_
    rintro rfl hl
    simp only [Instr.mark, if_true, Option.toList_some, List.singleton_append] at hl
    simp only [Function.update_self]
    exact hl.setPending
  · obtain rfl := Option.some.inj hstep
    refine h.replace hk (fun j hj => by simp [hj]) rfl rfl (by simp [Instr.isResume, setLocked])
      (fun hi hcov => ⟨fun _ => hi rfl, hcov⟩) (by simp) fun l hl => ?_
    refine hl.update (fun hne => ⟨by simp [marks_cons, Instr.mark, hne], rfl⟩) ?_
    rintro rfl hl
    simp only [Instr.mark, if_true, Option.toList_some, List.singleton_append] at hl
    simp only [marks_cons, Instr.mark, if_true, Option.toList_some, List.singleton_append]
    exact hl.unlock
  · split at hstep
    · obtain rfl := Option.some.inj hstep
      exact h.replace hk (fun j hj => by simp [hj]) rfl rfl (by simp [Instr.isResume])
        (fun hi hcov => ⟨fun _ => hi rfl, hcov⟩) (by simp) fun l hl => by
          simpa [marks_cons, Instr.mark] using hl
    · rename_i hnot
      obtain rfl := Option.some.inj hstep
      refine h.replace hk (fun j hj => hj) rfl rfl (by simp [Instr.isResume])
        (fun _ hcov => hcov) (by simp) fun l hl => ?_
      by_cases hll : l' = l
      · subst hll
        simp only [Instr.mark, if_true, Option.toList_some, List.singleton_append] at hl
        exact hl.leave hnot
      · simpa [Instr.mark, hll] using hl
  · split at hstep
    · obtain rfl := Option.some.inj hstep
      refine h.replace hk (fun j hj => by simp [hj]) rfl rfl (by simp [Instr.isResume, setLocked])
        (fun hi hcov => ⟨fun _ => hi rfl, hcov⟩) (by simp) fun l hl => ?_
      refine hl.update (fun hne => ⟨by simp [marks_cons, Instr.mark, hne], rfl⟩) ?_
      rintro rfl hl
      simp only [Instr.mark, if_true, Option.toList_some, List.singleton_append] at hl
      simp only [marks_cons, Instr.mark, if_true, Option.toList_some, List.singleton_append]
      exact hl.relock
    · exact absurd hstep (by simp)

/-- Built-in code: entering an access, suspending the scheduler, yielding. -/
theorem Sound.code {c : Code Λ ω β} (h : Sound own s) (hk : s.stack = .code c :: k)
    (hbody : ∀ b, c ≠ .body b) (hstep : runInstr M s x k (.code c) = some s') : Sound own s' := by
  cases c with
  | body b => exact absurd rfl (hbody b)
  | access l' must op =>
    obtain rfl := Option.some.inj hstep
    exact h.replace hk (fun j hj => by simp [hj]) rfl rfl (by
        simp [Instr.isResume, List.countP_cons])
      (fun _ hcov => ⟨fun _ => by simp, by simp [Instr.inner], hcov⟩) (by simp) fun l hl => by
        simpa [marks_cons, Instr.mark, Code.mark] using hl
  | suspended b =>
    obtain rfl := Option.some.inj hstep
    exact h.replace hk (fun j hj => by simp [hj]) rfl rfl (by
        simp [Instr.isResume, List.countP_cons])
      (fun _ hcov => ⟨fun _ => by simp, by simp [Instr.inner], hcov⟩) (by simp) fun l hl => by
        simpa [marks_cons, Instr.mark, Code.mark] using hl
  | mayBlock =>
    simp only [runInstr] at hstep
    split at hstep
    · obtain rfl := Option.some.inj hstep
      exact h.replace hk (fun j hj => hj) rfl rfl (by simp [Instr.isResume]) (fun _ hcov => hcov)
        (by simp) fun l hl => by simpa [Instr.mark, Code.mark] using hl
    · exact absurd hstep (by simp)
  | yield =>
    obtain rfl := Option.some.inj hstep
    exact h.replace hk (fun j hj => hj) rfl rfl (by simp [Instr.isResume]) (fun _ hcov => hcov)
      (by simp) fun l hl => by simpa [Instr.mark, Code.mark] using hl

/-- Resuming the scheduler and returning from a handler. -/
theorem Sound.leave (h : Sound own s) (hk : s.stack = i :: k)
    (hi : i = .resume ∨ i = .reschedule ∨ i = .iret)
    (hstep : runInstr M s x k i = some s') : Sound own s' := by
  rcases hi with rfl | rfl | rfl <;> obtain rfl := Option.some.inj hstep
  · refine h.replace hk (fun j hj => by simp [hj]) rfl rfl (fun hs => ?_)
      (fun _ hcov => ⟨by simp [Instr.inner], hcov⟩) (by simp) fun l hl => by
        simpa [marks_cons, Instr.mark] using hl
    simp only [List.countP_cons, Instr.isResume] at hs ⊢
    simp [hs]
  · exact h.replace hk (fun j hj => hj) rfl rfl (by simp [Instr.isResume]) (fun _ hcov => hcov)
      (by simp) fun l hl => by simpa [Instr.mark] using hl
  · exact h.replace hk (fun j hj => hj) rfl rfl (by simp [Instr.isResume]) (fun _ hcov => hcov)
      (by simp) fun l hl => by simpa [Instr.mark] using hl

/-- A clean stack holds nothing of an access. -/
theorem clean_stack (hclean : ∀ i ∈ k, i.Clean own) :
    k.countP Instr.isResume = 0 ∧ Covered own k ∧ (∀ l, marks own l k = []) ∧
      ∀ i ∈ k, i ≠ .restore := by
  refine ⟨?_, ?_, fun l => marks_eq_nil fun i hi => (hclean i hi).1, fun i hi heq => ?_⟩
  · rw [List.countP_eq_zero]
    intro i hi
    simp [(hclean i hi).2.1]
  · induction k with
    | nil => trivial
    | cons i k ih =>
      refine ⟨fun hinner => ?_, ih fun j hj => hclean j (List.mem_cons_of_mem _ hj)⟩
      rw [(hclean i (by simp)).1] at hinner
      exact absurd hinner (by decide)
  · have := (hclean i hi).2.2
    simp [heq, Instr.isFrame] at this

theorem LockOk.unlocked {f : Flags} {owed : Bool} (h : LockOk f owed []) :
    f = ⟨false, false⟩ ∧ owed = false := by
  obtain ⟨locked, pending⟩ := f
  obtain ⟨hshape, hpending, howed⟩ := h
  cases locked with
  | true => cases hshape
  | false =>
    cases pending with
    | true => exact absurd rfl (hpending rfl)
    | false => exact ⟨rfl, howed⟩

/-- The end of PendSV loads a clean stack. -/
theorem Sound.restore (h : Sound own s) (hk : s.stack = .restore :: k)
    (hstep : runInstr M s x k .restore = some s') : Sound own s' := by
  simp only [runInstr] at hstep
  split at hstep
  · rename_i hempty
    obtain rfl := Option.some.inj hstep
    obtain rfl : k = [] := by simpa using hempty
    obtain ⟨hcount, hcov, hmarks, hnores⟩ := clean_stack (h.saved (M.cur s.content))
    have hsus := h.suspend
    rw [hk] at hsus
    refine ⟨?_, fun l => ?_, hcov, fun t i hi => ?_, fun _ => by simp⟩
    · simpa [hcount, List.countP_cons, Instr.isResume] using hsus
    · have hl := h.locks l
      rw [hk, marks_cons] at hl
      simp only [hmarks l]
      exact hl
    · by_cases ht : t = M.cur s.content
      · subst ht
        simp at hi
      · simp only [Function.update_of_ne ht] at hi
        exact h.saved t i hi
  · exact absurd hstep (by simp)

theorem Sound.runInstr (hd : Discipline own M) (h : Sound own s) (hk : s.stack = i :: k)
    (hstep : runInstr M s x k i = some s') : Sound own s' := by
  cases i with
  | code c =>
    by_cases hbody : ∃ b, c = .body b
    · obtain ⟨b, rfl⟩ := hbody
      simp only [Exec.runInstr, Option.map_eq_some_iff] at hstep
      obtain ⟨⟨c, cs⟩, hexec, rfl⟩ := hstep
      exact h.body hd hk hexec
    · exact h.code hk (fun b heq => hbody ⟨b, heq⟩) hstep
  | guard l' must op => exact h.guard hd hk hstep
  | swapPending l' => exact h.swapPending hd hk hstep
  | setPending l' => exact h.release hk (Or.inl rfl) hstep
  | unlock l' => exact h.release hk (Or.inr (Or.inl rfl)) hstep
  | checkPending l' => exact h.release hk (Or.inr (Or.inr (Or.inl rfl))) hstep
  | relock l' => exact h.release hk (Or.inr (Or.inr (Or.inr rfl))) hstep
  | resume => exact h.leave hk (Or.inl rfl) hstep
  | reschedule => exact h.leave hk (Or.inr (Or.inl rfl)) hstep
  | iret => exact h.leave hk (Or.inr (Or.inr rfl)) hstep
  | restore => exact h.restore hk hstep

/-- PendSV saves a clean stack. -/
theorem Sound.pendsv (hd : Discipline own M) (h : Sound own s) (hsus : s.suspendCnt = 0)
    (htask : taskLevel s.stack = true) :
    Sound own { s with
      pendsv := false
      saved := Function.update s.saved s.running s.stack
      stack := push M.pickNext [.restore] } := by
  have hclean := h.clean hsus htask
  refine ⟨?_, fun l => ?_, ?_, fun t i hi => ?_, fun hno => ?_⟩
  · simp [countP_push, Instr.isResume, hsus]
  · have hl := h.locks l
    rw [marks_eq_nil fun i hi => (hclean i hi).1] at hl
    simp only [marks_push, codeMarks_eq_nil hd.pickNext, marks_cons]
    exact hl
  · refine Covered.push ⟨by simp [Instr.inner], trivial⟩ fun c hc hinner => ?_
    rw [hd.pickNext c hc] at hinner
    exact absurd hinner (by decide)
  · by_cases ht : t = s.running
    · subst ht
      simp only [Function.update_self] at hi
      exact hclean i hi
    · simp only [Function.update_of_ne ht] at hi
      exact h.saved t i hi
  · exact absurd rfl (hno .restore (by simp [push]))

/-- Every step of the machine keeps the invariant. -/
theorem Sound.step {a : Action ι χ} (hd : Discipline own M) (h : Sound own s)
    (hstep : step M s a = some s') : Sound own s' := by
  cases a with
  | run x =>
    simp only [Exec.step] at hstep
    split at hstep
    · exact absurd hstep (by simp)
    · rename_i i k hk
      split at hstep
      · exact absurd hstep (by simp)
      · exact h.runInstr hd hk hstep
  | preempt n =>
    obtain rfl := Option.some.inj hstep
    exact h.preempt hd n
  | pendsv =>
    simp only [Exec.step] at hstep
    split at hstep
    · rename_i hcond
      obtain rfl := Option.some.inj hstep
      exact h.pendsv hd hcond.2.1 hcond.2.2
    · exact absurd hstep (by simp)

end Steps

-- ---------------------------------------------------------------------------
-- Runs
-- ---------------------------------------------------------------------------

section Runs

variable [DecidableEq Λ] [DecidableEq τ]

/-- The machine when nothing has run yet: no lock is held, the scheduler is not
suspended, and the tasks are to run the given code. -/
def init (content : σ) (running : τ) (tasks : τ → List (Code Λ ω β)) : State Λ ω β σ τ :=
  { flags := fun _ => ⟨false, false⟩
    suspendCnt := 0
    pendsv := false
    stack := push (tasks running) []
    running := running
    saved := Function.update (fun t => push (tasks t) []) running []
    content := content
    owed := fun _ => false }

variable {M : Spec Λ ω β σ τ ι χ} {own : β → Option (Λ × Access)} {s : State Λ ω β σ τ} {content : σ}
  {running : τ} {tasks : τ → List (Code Λ ω β)}

theorem init_sound (htasks : ∀ t, ∀ c ∈ tasks t, (Instr.code c).inner own = false) :
    Sound own (init content running tasks) := by
  have hclean : ∀ t, ∀ i ∈ push (tasks t) [], i.Clean own := by
    intro t i hi
    simp only [push, List.append_nil, List.mem_map] at hi
    obtain ⟨c, hc, rfl⟩ := hi
    exact ⟨htasks t c hc, rfl, rfl⟩
  obtain ⟨hcount, hcov, hmarks, -⟩ := clean_stack (hclean running)
  refine ⟨hcount.symm, fun l => ?_, hcov, fun t i hi => ?_, fun _ => by simp [init]⟩
  · simp only [init, hmarks l]
    exact ⟨.nil, by simp, rfl⟩
  · by_cases ht : t = running
    · subst ht
      simp [init] at hi
    · simp only [init, Function.update_of_ne ht] at hi
      exact hclean t i hi

/-- Every run keeps the invariant of the machine. -/
theorem exec_sound (hd : Discipline own M)
    (htasks : ∀ t, ∀ c ∈ tasks t, (Instr.code c).inner own = false) {actions : List (Action ι χ)}
    (hrun : Run.exec (step M) (init content running tasks) actions = some s) : Sound own s :=
  Run.exec_inv (Sound own) (fun h hstep => h.step hd hstep) (init_sound htasks) hrun

/-- A guard of the lock is alive: from its compare-exchange to the end of its drop. -/
def Instr.guardOf (l : Λ) : Instr Λ ω β → Bool
  | .setPending l' | .swapPending l' | .unlock l' | .checkPending l' | .relock l' => l' = l
  | _ => false

/-- The guard holds the lock: it has won `locked` and has not stored `false` yet. -/
def Instr.holderOf (l : Λ) : Instr Λ ω β → Bool
  | .swapPending l' | .unlock l' => l' = l
  | _ => false

/-- What a soft lock guarantees in every state. -/
structure SoftLockSafe (s : State Λ ω β σ τ) (l : Λ) : Prop where
  /-- The holders of the lock, on the stack and in saved contexts. -/
  exclusive : s.stack.countP (Instr.holderOf l) = if (s.flags l).locked = true then 1 else 0
  saved : ∀ t, ∀ i ∈ s.saved t, Instr.guardOf l i = false
  /-- The release loop always wins the lock again. -/
  relock : ∀ k, s.stack = .relock l :: k → (s.flags l).locked = false
  /-- When no guard is alive, the flags are clear, and every pend-only access that has
  completed was followed by a `run_pended_op`. -/
  idle : (∀ i ∈ s.stack, Instr.guardOf l i = false) →
    s.flags l = ⟨false, false⟩ ∧ s.owed l = false

/-- The number of holders that the marks show. -/
theorem countP_holderOf (l : Λ) (k : List (Instr Λ ω β)) :
    k.countP (Instr.holderOf l) = (marks (fun _ => none) l k).countP fun m => m matches .hold := by
  induction k with
  | nil => rfl
  | cons i k ih =>
    rw [List.countP_cons, marks_cons, List.countP_append, ih, Nat.add_comm]
    congr 1
    cases i with
    | code c => cases c <;> simp [Instr.mark, Instr.holderOf, Code.mark]
    | setPending l' | swapPending l' | unlock l' | checkPending l' | relock l' =>
      by_cases h : l' = l <;> simp [Instr.mark, Instr.holderOf, h]
    | guard l' must op => simp [Instr.mark, Instr.holderOf]
    | resume | reschedule | iret | restore => simp [Instr.mark, Instr.holderOf]

theorem Released.countP_hold {ms : List Mark} (h : Released ms) :
    ms.countP (fun m => m matches .hold) = 0 := by
  induction h with
  | nil => rfl
  | wait _ ih => simpa using ih

theorem Held.countP_hold {ms : List Mark} (h : Held ms) :
    ms.countP (fun m => m matches .hold) = 1 := by
  induction h with
  | hold hms => simpa using hms.countP_hold
  | body hms => simpa using hms.countP_hold
  | pend _ ih => simpa using ih
  | note _ ih => simpa using ih

/-- Without a discipline for the steps of the kernel objects, only guards have marks. -/
theorem mark_of_not_guard {l : Λ} {i : Instr Λ ω β} (h : Instr.guardOf l i = false) :
    i.mark (fun _ => none) l = none := by
  cases i with
  | code c => cases c <;> simp [Instr.mark, Code.mark]
  | setPending l' | swapPending l' | unlock l' | checkPending l' | relock l' =>
    have hne : l' ≠ l := by simpa [Instr.guardOf] using h
    simp [Instr.mark, hne]
  | guard l' must op => rfl
  | resume | reschedule | iret | restore => rfl

omit [DecidableEq τ] in
theorem Sound.softLockSafe (h : Sound (fun _ => none) s) (l : Λ) : SoftLockSafe s l := by
  have hl := h.locks l
  refine ⟨?_, fun t i hi => ?_, fun k hk => ?_, fun hno => ?_⟩
  · have hshape := hl.shape
    rw [Shape] at hshape
    rw [countP_holderOf]
    split at hshape
    · rw [if_pos ‹_›]
      exact hshape.countP_hold
    · rw [if_neg ‹_›]
      exact hshape.countP_hold
  · have hclean := (h.saved t i hi).1
    cases i with
    | setPending l' | swapPending l' | unlock l' | checkPending l' | relock l' =>
      simp [Instr.inner] at hclean
    | code c => rfl
    | guard l' must op => rfl
    | resume | reschedule | iret | restore => rfl
  · rw [hk, marks_cons] at hl
    simp only [Instr.mark, if_true, Option.toList_some, List.singleton_append] at hl
    exact hl.locked_of_wait
  · have hnil : marks (fun _ => none) l s.stack = [] :=
      List.filterMap_eq_nil_iff.mpr fun i hi => mark_of_not_guard (hno i hi)
    rw [hnil] at hl
    exact hl.unlocked

/-- Soft locks are safe in every run, whatever the kernel objects do, for any number of
accesses and at any nesting of interrupts. -/
theorem exec_softLockSafe {actions : List (Action ι χ)}
    (hrun : Run.exec (step M) (init content running tasks) actions = some s) (l : Λ) :
    SoftLockSafe s l := by
  have hnone : ∀ c : Code Λ ω β, (Instr.code c).inner (fun _ => none) = false := by
    intro c
    cases c <;> rfl
  have hmarks : ∀ l a (cs : List (Code Λ ω β)), AtMostOne (fun _ => none) l a cs :=
    fun l a cs l' => Or.inl (codeMarks_eq_nil fun c _ => hnone c)
  have hd : Discipline (fun _ => none) M :=
    { full := fun l op => hmarks l .full _
      pended := fun l => hmarks l .full _
      pend := fun l op => hmarks l .pend _
      handler := fun _ c _ => hnone c
      pickNext := fun c _ => hnone c
      exec := fun _ c _ => hnone c }
  exact (exec_sound hd (fun _ c _ => hnone c) hrun).softLockSafe l

/-- One lock whose accesses do nothing, taken by the task and by every handler. -/
def oneLock : Spec Unit Unit Empty Unit Unit Unit Unit where
  full _ _ := []
  pend _ _ := []
  pended _ := []
  exec _ b _ := b.elim
  wantsSwitch _ := false
  handler _ := [.access () false ()]
  pickNext := []
  cur _ := ()

/-- A handler pends an operation while the task holds the lock. -/
theorem exec_softLockSafe_oneLock :
    ∃ s, Run.exec (step oneLock) (init () () fun _ => [.access () false ()])
        [.run (), .run (), .preempt (), .run (), .run (), .run ()] = some s ∧
      s.flags () = ⟨true, true⟩ ∧ SoftLockSafe s () := by
  obtain ⟨s, hrun, hflags⟩ : ∃ s, Run.exec (step oneLock) (init () () fun _ => [.access () false ()])
      [.run (), .run (), .preempt (), .run (), .run (), .run ()] = some s ∧
      s.flags () = ⟨true, true⟩ := ⟨_, rfl, rfl⟩
  exact ⟨s, hrun, hflags, exec_softLockSafe hrun ()⟩

end Runs

end Hopter.Exec
