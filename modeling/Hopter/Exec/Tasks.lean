-- SUMMARY: Code that only tasks run, and code that has a suspension guard below it.
import Hopter.Exec.Switch

/-!
# Code of tasks

Rules for what stands below an instruction (`Below`). Code that only tasks run stands below
all handlers on the stack. Code that may not be switched out in the middle has a suspension
guard below it (`Follows P (· = .resume)`), and so PendSV never saves such code in the
context of a task.
-/

namespace Hopter.Exec

variable {Λ ω β σ τ ι χ : Type}

-- ---------------------------------------------------------------------------
-- What stands below an instruction
-- ---------------------------------------------------------------------------

/-- The relation holds between every instruction and what stands below it. -/
def Below (R : Instr Λ ω β → List (Instr Λ ω β) → Prop) : List (Instr Λ ω β) → Prop
  | [] => True
  | i :: k => R i k ∧ Below R k

/-- On the stack and in the saved contexts. -/
def BelowEverywhere (R : Instr Λ ω β → List (Instr Λ ω β) → Prop) (s : State Λ ω β σ τ) : Prop :=
  Below R s.stack ∧ ∀ t, Below R (s.saved t)

/-- A kernel object keeps the relation between an instruction and what stands below it. -/
structure Keeps (M : Spec Λ ω β σ τ ι χ) (R : Instr Λ ω β → List (Instr Λ ω β) → Prop) : Prop where
  control : ∀ i k, i.isControl = true → R i k
  guard : ∀ l must op k, R (.code (.access l must op)) k → R (.guard l must op) (.resume :: k)
  suspended : ∀ b k, R (.code (.suspended b)) k → R (.code (.body b)) (.resume :: k)
  full : ∀ l must op k, R (.guard l must op) k → Below R k → Below R (push (M.full l op) (.swapPending l :: k))
  pend : ∀ l op k, R (.guard l false op) k → Below R k → Below R (push (M.pend l op) (.setPending l :: k))
  pended : ∀ l k, Below R k → Below R (push (M.pended l) (.unlock l :: k))
  handler : ∀ i k, Below R k → Below R (push (M.handler i) (.iret :: k))
  pickNext : Below R (push M.pickNext [.restore])
  exec : ∀ {c b x c' cs} k, M.exec c b x = some (c', cs) → R (.code (.body b)) k → Below R k →
    Below R (push cs k)

variable {M : Spec Λ ω β σ τ ι χ} {R : Instr Λ ω β → List (Instr Λ ω β) → Prop} {P : Instr Λ ω β → Prop}
  {k : List (Instr Λ ω β)} {cs : List (Code Λ ω β)} {i : Instr Λ ω β}

/-- Code of which nothing is required. -/
theorem Below.push (h : Below R k) (hcs : ∀ c ∈ cs, ∀ k, R (.code c) k) : Below R (push cs k) := by
  induction cs with
  | nil => exact h
  | cons c cs ih =>
    rw [List.forall_mem_cons] at hcs
    exact ⟨hcs.1 _, ih hcs.2⟩

theorem Below.of_mem (h : Below R k) (hi : i ∈ k) : ∃ k', R i k' ∧ k' <:+ k := by
  induction k with
  | nil => cases hi
  | cons j k ih =>
    rcases List.mem_cons.mp hi with rfl | hi
    · exact ⟨k, h.1, List.suffix_cons _ _⟩
    · obtain ⟨k', hR, hk'⟩ := ih h.2 hi
      exact ⟨k', hR, hk'.trans (List.suffix_cons _ _)⟩

variable [DecidableEq Λ] [DecidableEq τ] {s s' : State Λ ω β σ τ} {own : β → Option (Λ × Access)}

omit [DecidableEq Λ] [DecidableEq τ] in
theorem BelowEverywhere.body {b : β} {c : σ} {x : χ} (hM : Keeps M R) (h : BelowEverywhere R s)
    (hk : s.stack = .code (.body b) :: k) (hexec : M.exec s.content b x = some (c, cs)) :
    BelowEverywhere R { s with content := c, stack := Exec.push cs k } := by
  obtain ⟨hstack, hsaved⟩ := h
  rw [hk] at hstack
  exact ⟨hM.exec k hexec hstack.1 hstack.2, hsaved⟩

theorem BelowEverywhere.control (hM : Keeps M R) (h : BelowEverywhere R s) (hstep : Control M s s') :
    BelowEverywhere R s' := by
  obtain ⟨hstack, hsaved⟩ := h
  have hc : ∀ (i : Instr Λ ω β) {k}, i.isControl = true → R i k := fun i _ hi => hM.control i _ hi
  cases hstep with
  | access hk =>
    rw [hk] at hstack
    exact ⟨⟨hM.guard _ _ _ _ hstack.1, hc _ rfl, hstack.2⟩, hsaved⟩
  | suspended hk =>
    rw [hk] at hstack
    exact ⟨⟨hM.suspended _ _ hstack.1, hc _ rfl, hstack.2⟩, hsaved⟩
  | win hk _ =>
    rw [hk] at hstack
    exact ⟨hM.full _ _ _ _ hstack.1 hstack.2, hsaved⟩
  | lose hk _ =>
    rw [hk] at hstack
    exact ⟨hM.pend _ _ _ hstack.1 hstack.2, hsaved⟩
  | settle hk _ =>
    rw [hk] at hstack
    exact ⟨hM.pended _ _ hstack.2, hsaved⟩
  | mayBlock hk _ _ =>
    rw [hk] at hstack
    exact ⟨hstack.2, hsaved⟩
  | yield hk | setPending hk | leave hk _ | iret hk =>
    rw [hk] at hstack
    exact ⟨hstack.2, hsaved⟩
  | reschedule hk _ =>
    rw [hk] at hstack
    exact ⟨hstack.2, hsaved⟩
  | pass hk _ | unlock hk | retry hk _ | relock hk _ | resume hk =>
    rw [hk] at hstack
    exact ⟨⟨hc _ rfl, hstack.2⟩, hsaved⟩
  | restore hk =>
    refine ⟨hsaved _, fun t => ?_⟩
    by_cases ht : t = M.cur s.content
    · subst ht
      simp [Below]
    · simpa [Function.update_of_ne ht] using hsaved t
  | preempt n => exact ⟨hM.handler n _ hstack, hsaved⟩
  | pendsv _ _ =>
    refine ⟨hM.pickNext, fun t => ?_⟩
    by_cases ht : t = s.running
    · subst ht
      simpa using hstack
    · simpa [Function.update_of_ne ht] using hsaved t

omit [DecidableEq Λ] in
theorem BelowEverywhere.init {content : σ} {running : τ} {tasks : τ → List (Code Λ ω β)}
    (h : ∀ t, Below R (Exec.push (tasks t) [])) : BelowEverywhere R (init content running tasks) := by
  refine ⟨h running, fun t => ?_⟩
  by_cases ht : t = running
  · subst ht
    simp [Exec.init, Below]
  · simpa [Exec.init, Function.update_of_ne ht] using h t

-- ---------------------------------------------------------------------------
-- Below the handlers
-- ---------------------------------------------------------------------------

/-- No handler is below code with the property `P`. -/
def UnderHandlers (P : Instr Λ ω β → Prop) (i : Instr Λ ω β) (k : List (Instr Λ ω β)) : Prop :=
  P i → taskLevel k = true

/-- What a kernel object promises about code that only its tasks run. -/
structure OfTask (M : Spec Λ ω β σ τ ι χ) (P : Instr Λ ω β → Prop) : Prop where
  control : ∀ i, i.isControl = true → ¬ P i
  guard : ∀ l must op, P (.guard l must op) → P (.code (.access l must op))
  suspended : ∀ b, P (.code (.body b)) → P (.code (.suspended b))
  full : ∀ l must op, ∀ c ∈ M.full l op, P (.code c) → P (.guard l must op)
  pend : ∀ l op, ∀ c ∈ M.pend l op, ¬ P (.code c)
  pended : ∀ l, ∀ c ∈ M.pended l, ¬ P (.code c)
  handler : ∀ i, ∀ c ∈ M.handler i, ¬ P (.code c)
  pickNext : ∀ c ∈ M.pickNext, ¬ P (.code c)
  exec : ∀ {c b x c' cs}, M.exec c b x = some (c', cs) → ∀ d ∈ cs, P (.code d) → P (.code (.body b))

omit [DecidableEq Λ] [DecidableEq τ] in
theorem push_underHandlers (h : Below (UnderHandlers P) k) (hcs : ∀ c ∈ cs, P (.code c) → taskLevel k = true) :
    Below (UnderHandlers P) (push cs k) := by
  induction cs with
  | nil => exact h
  | cons c cs ih =>
    rw [List.forall_mem_cons] at hcs
    refine ⟨fun hP => ?_, ih hcs.2⟩
    have htask := hcs.1 hP
    simp only [taskLevel, List.all_eq_true] at htask ⊢
    exact forall_mem_push (fun _ _ => rfl) htask

omit [DecidableEq Λ] [DecidableEq τ] in
theorem OfTask.keeps (hM : OfTask M P) : Keeps M (UnderHandlers P) := by
  -- The suspension guard and the rest of the guard of an access are no handlers.
  have hcons : ∀ {j : Instr Λ ω β} {k}, j.isFrame = false → taskLevel k = true → taskLevel (j :: k) = true :=
    fun hj hk => by simpa [taskLevel, hj] using hk
  have hc : ∀ (i : Instr Λ ω β) k, i.isControl = true → UnderHandlers P i k :=
    fun i k hi hP => absurd hP (hM.control i hi)
  refine ⟨hc, fun l must op k h hP => hcons rfl (h (hM.guard l must op hP)),
    fun b k h hP => hcons rfl (h (hM.suspended b hP)), fun l must op k h hk => ?_, fun l op k _ hk => ?_,
    fun l k hk => ?_, fun i k hk => ?_, ?_, fun k hexec h hk => ?_⟩
  · exact push_underHandlers ⟨hc _ _ rfl, hk⟩ fun d hd hP => hcons rfl (h (hM.full l must op d hd hP))
  · exact push_underHandlers ⟨hc _ _ rfl, hk⟩ fun d hd hP => absurd hP (hM.pend l op d hd)
  · exact push_underHandlers ⟨hc _ _ rfl, hk⟩ fun d hd hP => absurd hP (hM.pended l d hd)
  · exact push_underHandlers ⟨hc _ _ rfl, hk⟩ fun d hd hP => absurd hP (hM.handler i d hd)
  · exact push_underHandlers ⟨hc _ _ rfl, trivial⟩ fun d hd hP => absurd hP (hM.pickNext d hd)
  · exact push_underHandlers hk fun d hd hP => h (hM.exec hexec d hd hP)

/-- The context of the task `t` has no code with the property `P`. -/
def Without (P : Instr Λ ω β → Prop) (t : τ) (s : State Λ ω β σ τ) : Prop :=
  (s.running = t → ∀ i ∈ s.stack, ¬ P i) ∧ ∀ i ∈ s.saved t, ¬ P i

omit [DecidableEq Λ] [DecidableEq τ] in
theorem Without.body {t : τ} {b : β} {c : σ} {x : χ} (hM : OfTask M P) (h : Without P t s)
    (hk : s.stack = .code (.body b) :: k) (hexec : M.exec s.content b x = some (c, cs)) :
    Without P t { s with content := c, stack := push cs k } := by
  refine ⟨fun hrunning => ?_, h.2⟩
  have hstack := h.1 hrunning
  rw [hk, List.forall_mem_cons] at hstack
  exact forall_mem_push (fun d hd hP => hstack.1 (hM.exec hexec d hd hP)) hstack.2

theorem Without.control {t : τ} (hM : OfTask M P) (h : Without P t s) (hstep : Control M s s') :
    Without P t s' := by
  have hc : ∀ i : Instr Λ ω β, i.isControl = true → ¬ P i := hM.control
  -- A step that stays in the context.
  have hsame : s'.running = s.running → s'.saved = s.saved →
      ((∀ i ∈ s.stack, ¬ P i) → ∀ i ∈ s'.stack, ¬ P i) → Without P t s' := by
    intro hrunning hsaved hstack
    refine ⟨fun ht => hstack (h.1 (hrunning ▸ ht)), ?_⟩
    rw [hsaved]
    exact h.2
  cases hstep with
  | access hk =>
    refine hsame rfl rfl fun hall => ?_
    rw [hk, List.forall_mem_cons] at hall
    exact List.forall_mem_cons.mpr ⟨fun hP => hall.1 (hM.guard _ _ _ hP), List.forall_mem_cons.mpr ⟨hc _ rfl, hall.2⟩⟩
  | suspended hk =>
    refine hsame rfl rfl fun hall => ?_
    rw [hk, List.forall_mem_cons] at hall
    exact List.forall_mem_cons.mpr ⟨fun hP => hall.1 (hM.suspended _ hP), List.forall_mem_cons.mpr ⟨hc _ rfl, hall.2⟩⟩
  | win hk _ =>
    refine hsame rfl rfl fun hall => ?_
    rw [hk, List.forall_mem_cons] at hall
    exact forall_mem_push (fun d hd hP => hall.1 (hM.full _ _ _ d hd hP)) (List.forall_mem_cons.mpr ⟨hc _ rfl, hall.2⟩)
  | lose hk _ =>
    refine hsame rfl rfl fun hall => ?_
    rw [hk, List.forall_mem_cons] at hall
    exact forall_mem_push (hM.pend _ _) (List.forall_mem_cons.mpr ⟨hc _ rfl, hall.2⟩)
  | settle hk _ =>
    refine hsame rfl rfl fun hall => ?_
    rw [hk, List.forall_mem_cons] at hall
    exact forall_mem_push (hM.pended _) (List.forall_mem_cons.mpr ⟨hc _ rfl, hall.2⟩)
  | mayBlock hk _ _ =>
    refine hsame rfl rfl fun hall => ?_
    rw [hk, List.forall_mem_cons] at hall
    exact hall.2
  | yield hk | setPending hk | leave hk _ | iret hk =>
    refine hsame rfl rfl fun hall => ?_
    rw [hk, List.forall_mem_cons] at hall
    exact hall.2
  | reschedule hk _ =>
    refine hsame rfl rfl fun hall => ?_
    rw [hk, List.forall_mem_cons] at hall
    exact hall.2
  | pass hk _ | unlock hk | retry hk _ | relock hk _ | resume hk =>
    refine hsame rfl rfl fun hall => ?_
    rw [hk, List.forall_mem_cons] at hall
    exact List.forall_mem_cons.mpr ⟨hc _ rfl, hall.2⟩
  | restore hk =>
    refine ⟨?_, fun i hi => ?_⟩
    · rintro rfl
      exact h.2
    · by_cases ht : t = M.cur s.content
      · subst ht
        simp at hi
      · exact h.2 i (by simpa [Function.update_of_ne ht] using hi)
  | preempt n =>
    exact hsame rfl rfl fun hall => forall_mem_push (hM.handler n) (List.forall_mem_cons.mpr ⟨hc _ rfl, hall⟩)
  | pendsv _ _ =>
    refine ⟨fun _ => forall_mem_push hM.pickNext (by simpa using hc .restore rfl), fun i hi => ?_⟩
    by_cases ht : t = s.running
    · subst ht
      exact h.1 rfl i (by simpa using hi)
    · exact h.2 i (by simpa [Function.update_of_ne ht] using hi)

/-- PendSV and the handlers on top of it run no code with the property `P`. -/
def Alone (P : Instr Λ ω β → Prop) (s : State Λ ω β σ τ) : Prop :=
  .restore ∈ s.stack → ∀ i ∈ s.stack, ¬ P i

omit [DecidableEq Λ] [DecidableEq τ] in
theorem Alone.body {b : β} {c : σ} {x : χ} (hM : OfTask M P) (h : Alone P s)
    (hk : s.stack = .code (.body b) :: k) (hexec : M.exec s.content b x = some (c, cs)) :
    Alone P { s with content := c, stack := push cs k } := by
  intro hrestore
  have hmem : .restore ∈ s.stack := by
    rw [hk]
    exact List.mem_cons_of_mem _ (by simpa [Exec.push] using hrestore)
  have hall := h hmem
  rw [hk, List.forall_mem_cons] at hall
  exact forall_mem_push (fun d hd hP => hall.1 (hM.exec hexec d hd hP)) hall.2

theorem Alone.control (hM : OfTask M P) (hsound : Sound own s) (h : Alone P s) (hstep : Control M s s') :
    Alone P s' := by
  have hc : ∀ i : Instr Λ ω β, i.isControl = true → ¬ P i := hM.control
  -- A step on top of the stack.
  have hrest : ∀ {i k N}, s.stack = i :: k → s'.stack = N ++ k → .restore ∉ N →
      (¬ P i → ∀ j ∈ N, ¬ P j) → Alone P s' := by
    intro i k N hk hk' hN hnew hrestore
    rw [hk'] at hrestore ⊢
    have hmem : .restore ∈ k := (List.mem_append.mp hrestore).resolve_left hN
    have hall := h (by simp [hk, hmem])
    rw [hk, List.forall_mem_cons] at hall
    intro j hj
    rcases List.mem_append.mp hj with hj | hj
    · exact hnew hall.1 j hj
    · exact hall.2 j hj
  have hcodes : ∀ {ds : List (Code Λ ω β)} {j}, (∀ d ∈ ds, ¬ P (.code d)) → ¬ P j →
      ∀ j' ∈ (ds.map Instr.code ++ [j] : List (Instr Λ ω β)), ¬ P j' := by
    intro ds j hds hj j' hj'
    rcases List.mem_append.mp hj' with hj' | hj'
    · obtain ⟨d, hd, rfl⟩ := List.mem_map.mp hj'
      exact hds d hd
    · obtain rfl := List.mem_singleton.mp hj'
      exact hj
  cases hstep with
  | access hk =>
    refine hrest (N := [_, .resume]) hk rfl (by simp) fun hi => ?_
    exact List.forall_mem_cons.mpr ⟨fun hP => hi (hM.guard _ _ _ hP), List.forall_mem_singleton.mpr (hc _ rfl)⟩
  | suspended hk =>
    refine hrest (N := [_, .resume]) hk rfl (by simp) fun hi => ?_
    exact List.forall_mem_cons.mpr ⟨fun hP => hi (hM.suspended _ hP), List.forall_mem_singleton.mpr (hc _ rfl)⟩
  | @win l must op k hk _ =>
    refine hrest (N := (M.full l op).map Instr.code ++ [.swapPending l]) hk (by simp [Exec.push]) (by simp)
      fun hi => hcodes (fun d hd hP => hi (hM.full _ _ _ d hd hP)) (hc _ rfl)
  | @lose l op k hk _ =>
    exact hrest (N := (M.pend l op).map Instr.code ++ [.setPending l]) hk (by simp [Exec.push]) (by simp)
      fun _ => hcodes (hM.pend _ _) (hc _ rfl)
  | @settle l k hk _ =>
    exact hrest (N := (M.pended l).map Instr.code ++ [.unlock l]) hk (by simp [Exec.push]) (by simp)
      fun _ => hcodes (hM.pended _) (hc _ rfl)
  | mayBlock hk _ _ => exact hrest (N := []) hk rfl (by simp) (by simp)
  | yield hk | setPending hk | leave hk _ | iret hk => exact hrest (N := []) hk rfl (by simp) (by simp)
  | reschedule hk _ => exact hrest (N := []) hk rfl (by simp) (by simp)
  | pass hk _ | unlock hk | retry hk _ | relock hk _ | resume hk =>
    exact hrest (N := [_]) hk rfl (by simp) fun _ => List.forall_mem_singleton.mpr (hc _ rfl)
  | restore hk =>
    intro hrestore
    have := (hsound.saved _ _ hrestore).2.2
    simp [Instr.isFrame] at this
  | preempt n =>
    intro hrestore
    have hmem : .restore ∈ s.stack := by simpa [Exec.push] using hrestore
    exact forall_mem_push (hM.handler n) (List.forall_mem_cons.mpr ⟨hc _ rfl, h hmem⟩)
  | pendsv _ _ => exact fun _ => forall_mem_push hM.pickNext (by simpa using hc .restore rfl)

-- ---------------------------------------------------------------------------
-- With a suspension guard below
-- ---------------------------------------------------------------------------

/-- What a kernel object promises about code that runs with the scheduler suspended. -/
structure Shelters (own : β → Option (Λ × Access)) (M : Spec Λ ω β σ τ ι χ) (P : Instr Λ ω β → Prop) :
    Prop where
  control : ∀ i, i.isControl = true → ¬ P i
  full : ∀ l must op, ∀ c ∈ M.full l op, P (.code c) → P (.guard l must op)
  pend : ∀ l op, ∀ c ∈ M.pend l op, P (.code c) → P (.guard l false op)
  pended : ∀ l, ∀ c ∈ M.pended l, ¬ P (.code c)
  handler : ∀ i, ∀ c ∈ M.handler i, ¬ P (.code c)
  pickNext : ∀ c ∈ M.pickNext, ¬ P (.code c)
  exec : ∀ {c b x c' cs}, M.exec c b x = some (c', cs) → ∀ d ∈ cs, P (.code d) →
    P (.code (.body b)) ∨ (own b).isSome = true

omit [DecidableEq Λ] [DecidableEq τ] in
theorem Follows.push_of {Q : Instr Λ ω β → Prop} (h : Follows P Q k)
    (hcs : ∀ c ∈ cs, P (.code c) → ∃ j ∈ k, Q j) : Follows P Q (Exec.push cs k) := by
  induction cs with
  | nil => exact h
  | cons c cs ih =>
    rw [List.forall_mem_cons] at hcs
    refine ⟨fun hP => ?_, ih hcs.2⟩
    obtain ⟨j, hj, hQ⟩ := hcs.1 hP
    exact ⟨j, List.mem_append_right _ hj, hQ⟩

omit [DecidableEq τ] in
theorem Shelters.follows_body {b : β} {c : σ} {x : χ} (hM : Shelters own M P) (hsound : Sound own s)
    (h : Follows P (· = .resume) s.stack) (hk : s.stack = .code (.body b) :: k)
    (hexec : M.exec s.content b x = some (c, cs)) : Follows P (· = .resume) (Exec.push cs k) := by
  have hcovered := hsound.covered
  rw [hk] at h hcovered
  refine h.2.push_of fun d hd hP => ?_
  rcases hM.exec hexec d hd hP with hb | hown
  · exact h.1 hb
  · exact ⟨.resume, hcovered.1 hown, rfl⟩

/-- The code of a task that is switched out is not sheltered. -/
theorem Shelters.follows_control (hM : Shelters own M P) (hsaved : ∀ t, ∀ i ∈ s.saved t, ¬ P i)
    (h : Follows P (· = .resume) s.stack) (hstep : Control M s s') : Follows P (· = .resume) s'.stack := by
  have hc : ∀ (i : Instr Λ ω β) {R : Prop}, i.isControl = true → P i → R :=
    fun i _ hi hP => absurd hP (hM.control i hi)
  have hbelow : ∀ {j : Instr Λ ω β} {k}, (∃ i ∈ k, i = .resume) → ∃ i ∈ j :: k, i = .resume := by
    rintro j k ⟨i, hi, rfl⟩
    exact ⟨_, List.mem_cons_of_mem _ hi, rfl⟩
  cases hstep with
  | access hk | suspended hk =>
    rw [hk] at h
    exact ⟨fun _ => ⟨_, List.mem_cons_self .., rfl⟩, hc _ rfl, h.2⟩
  | win hk _ =>
    rw [hk] at h
    exact Follows.push_of ⟨hc _ rfl, h.2⟩ fun d hd hP => hbelow (h.1 (hM.full _ _ _ d hd hP))
  | lose hk _ =>
    rw [hk] at h
    exact Follows.push_of ⟨hc _ rfl, h.2⟩ fun d hd hP => hbelow (h.1 (hM.pend _ _ d hd hP))
  | settle hk _ =>
    rw [hk] at h
    exact Follows.push ⟨hc _ rfl, h.2⟩ (hM.pended _)
  | mayBlock hk _ _ =>
    rw [hk] at h
    exact h.2
  | yield hk | setPending hk | leave hk _ | iret hk =>
    rw [hk] at h
    exact h.2
  | reschedule hk _ =>
    rw [hk] at h
    exact h.2
  | pass hk _ | unlock hk | retry hk _ | relock hk _ | resume hk =>
    rw [hk] at h
    exact ⟨hc _ rfl, h.2⟩
  | restore hk =>
    suffices hall : ∀ k : List (Instr Λ ω β), (∀ i ∈ k, ¬ P i) → Follows P (· = .resume) k from
      hall _ (hsaved _)
    intro k hk
    induction k with
    | nil => trivial
    | cons j k ih =>
      rw [List.forall_mem_cons] at hk
      exact ⟨fun hP => absurd hP hk.1, ih hk.2⟩
  | preempt n => exact Follows.push ⟨hc _ rfl, h⟩ (hM.handler n)
  | pendsv _ _ => exact Follows.push ⟨hc _ rfl, trivial⟩ hM.pickNext

omit [DecidableEq Λ] [DecidableEq τ] in
/-- Where no suspension guard is alive, there is no sheltered code. -/
theorem Follows.not_mem (h : Follows P (· = .resume) k) (hno : ∀ j ∈ k, j.isResume = false) :
    ∀ i ∈ k, ¬ P i := by
  induction k with
  | nil => simp
  | cons j k ih =>
    rw [List.forall_mem_cons] at hno ⊢
    refine ⟨fun hP => ?_, ih h.2 hno.2⟩
    obtain ⟨_, hmem, rfl⟩ := h.1 hP
    exact absurd (hno.2 _ hmem) (by simp [Instr.isResume])

/-- Neither is there any in the contexts of tasks that are switched out. -/
theorem Shelters.saved_free (hsound : Sound own s) (h : Follows P (· = .resume) s.stack)
    (hsaved : ∀ t, ∀ i ∈ s.saved t, ¬ P i) (hstep : Control M s s') : ∀ t, ∀ i ∈ s'.saved t, ¬ P i := by
  cases hstep with
  | restore hk =>
    intro t i hi
    by_cases ht : t = M.cur s.content
    · subst ht
      simp at hi
    · exact hsaved t i (by simpa [Function.update_of_ne ht] using hi)
  | pendsv hsus htask =>
    intro t i hi
    by_cases ht : t = s.running
    · subst ht
      refine h.not_mem (fun j hj => ?_) i (by simpa using hi)
      have hcount := hsound.suspend
      rw [hsus, eq_comm, List.countP_eq_zero] at hcount
      simpa using hcount j hj
    · exact hsaved t i (by simpa [Function.update_of_ne ht] using hi)
  | _ => exact hsaved

-- ---------------------------------------------------------------------------
-- What instructions carry
-- ---------------------------------------------------------------------------

/-- The built-in steps hand on what an instruction carries, such as a reference. An access
takes it over from the code that begins it. -/
structure Conveys {α : Type} (M : Spec Λ ω β σ τ ι χ) (f : Instr Λ ω β → Option α) (s : State Λ ω β σ τ) : Prop where
  control : ∀ i, i.isControl = true → f i = none
  guard : ∀ l must op, f (.guard l must op) = f (.code (.access l must op))
  suspended : ∀ b, .code (.suspended b) ∈ s.stack → f (.code (.body b)) = f (.code (.suspended b))
  full : ∀ l must op, .guard l must op ∈ s.stack →
    (M.full l op).filterMap (fun d => f (.code d)) = (f (.guard l must op)).toList
  pend : ∀ l op, .guard l false op ∈ s.stack →
    (M.pend l op).filterMap (fun d => f (.code d)) = (f (.guard l false op)).toList
  pended : ∀ l, (M.pended l).filterMap (fun d => f (.code d)) = []
  handler : ∀ i, (M.handler i).filterMap (fun d => f (.code d)) = []
  pickNext : M.pickNext.filterMap (fun d => f (.code d)) = []

omit [DecidableEq Λ] [DecidableEq τ] in
theorem filterMap_push {α : Type} {f : Instr Λ ω β → Option α} (cs : List (Code Λ ω β)) :
    (Exec.push cs k).filterMap f = (cs.filterMap fun d => f (.code d)) ++ k.filterMap f := by
  simp [Exec.push, List.filterMap_append, List.filterMap_map]

omit [DecidableEq Λ] [DecidableEq τ] in
theorem filterMap_top {α : Type} {f : Instr Λ ω β → Option α} :
    (i :: k).filterMap f = (f i).toList ++ k.filterMap f := by
  cases hf : f i <;> simp [hf]

/-- What the code on the stack carries after a built-in step. -/
theorem Conveys.control_cases {α : Type} {f : Instr Λ ω β → Option α} (h : Conveys M f s) (hstep : Control M s s') :
    (s'.stack.filterMap f = s.stack.filterMap f ∧ s'.running = s.running ∧ s'.saved = s.saved) ∨
    (s.stack.filterMap f = [] ∧ s'.stack = s.saved (M.cur s.content) ∧ s'.running = M.cur s.content ∧
      s'.saved = Function.update s.saved (M.cur s.content) []) ∨
    (s.suspendCnt = 0 ∧ taskLevel s.stack = true ∧ s'.stack.filterMap f = [] ∧ s'.running = s.running ∧
      s'.saved = Function.update s.saved s.running s.stack) := by
  have hc : ∀ i : Instr Λ ω β, i.isControl = true → f i = none := h.control
  cases hstep with
  | access hk =>
    refine Or.inl ⟨?_, rfl, rfl⟩
    rw [hk, filterMap_top, filterMap_top, filterMap_top, h.guard, hc .resume rfl]
    rfl
  | suspended hk =>
    refine Or.inl ⟨?_, rfl, rfl⟩
    rw [hk, filterMap_top, filterMap_top, filterMap_top, h.suspended _ (by simp [hk]), hc .resume rfl]
    rfl
  | win hk _ =>
    refine Or.inl ⟨?_, rfl, rfl⟩
    rw [hk, filterMap_push, filterMap_top, filterMap_top, h.full _ _ _ (by rw [hk]; exact List.mem_cons_self ..),
      hc (.swapPending _) rfl]
    rfl
  | lose hk _ =>
    refine Or.inl ⟨?_, rfl, rfl⟩
    rw [hk, filterMap_push, filterMap_top, filterMap_top, h.pend _ _ (by simp [hk]), hc (.setPending _) rfl]
    rfl
  | settle hk _ =>
    refine Or.inl ⟨?_, rfl, rfl⟩
    rw [hk, filterMap_push, filterMap_top, filterMap_top, h.pended, hc (.swapPending _) rfl, hc (.unlock _) rfl]
    rfl
  | mayBlock hk _ _ =>
    refine Or.inl ⟨?_, rfl, rfl⟩
    rw [hk, filterMap_top, hc _ rfl, Option.toList_none, List.nil_append]
  | yield hk | setPending hk | leave hk _ | iret hk =>
    refine Or.inl ⟨?_, rfl, rfl⟩
    rw [hk, filterMap_top, hc _ rfl, Option.toList_none, List.nil_append]
  | reschedule hk _ =>
    refine Or.inl ⟨?_, rfl, rfl⟩
    rw [hk, filterMap_top, hc _ rfl, Option.toList_none, List.nil_append]
  | pass hk _ | unlock hk | retry hk _ | relock hk _ | resume hk =>
    refine Or.inl ⟨?_, rfl, rfl⟩
    rw [hk, filterMap_top, filterMap_top, hc _ rfl, hc _ rfl]
  | restore hk =>
    refine Or.inr (Or.inl ⟨?_, rfl, rfl, rfl⟩)
    rw [hk, filterMap_top, hc _ rfl]
    rfl
  | preempt n =>
    refine Or.inl ⟨?_, rfl, rfl⟩
    rw [filterMap_push, filterMap_top, h.handler, hc _ rfl]
    rfl
  | pendsv hsus htask =>
    refine Or.inr (Or.inr ⟨hsus, htask, ?_, rfl, rfl⟩)
    rw [filterMap_push, filterMap_top, h.pickNext, hc _ rfl]
    rfl

/-- Where no context that is switched out carries anything. -/
theorem Conveys.filterMap_eq {α : Type} {f : Instr Λ ω β → Option α} (h : Conveys M f s)
    (hsaved : ∀ t, (s.saved t).filterMap f = [])
    (hclean : s.suspendCnt = 0 → taskLevel s.stack = true → s.stack.filterMap f = []) (hstep : Control M s s') :
    s'.stack.filterMap f = s.stack.filterMap f := by
  rcases h.control_cases hstep with ⟨hstack, -, -⟩ | ⟨hnil, hstack, -, -⟩ | ⟨hsus, htask, hnil, -, -⟩
  · exact hstack
  · rw [hstack, hsaved, hnil]
  · rw [hnil, hclean hsus htask]

/-- What the code of the task `t` carries, whether the task is switched out or not. -/
def carries {α : Type} (f : Instr Λ ω β → Option α) (s : State Λ ω β σ τ) (t : τ) : List α :=
  (s.saved t).filterMap f ++ if t = s.running then s.stack.filterMap f else []

omit [DecidableEq Λ] in
theorem carries_of_ne {α : Type} {f : Instr Λ ω β → Option α} {t : τ} (h : t ≠ s.running) :
    carries f s t = (s.saved t).filterMap f := by
  simp [carries, h]

omit [DecidableEq Λ] in
/-- The context of the running task is not saved while its code is on the stack. -/
theorem carries_running {α : Type} {f : Instr Λ ω β → Option α} (hhome : s.saved s.running = []) :
    carries f s s.running = s.stack.filterMap f := by
  simp [carries, hhome]

/-- A built-in step leaves to every task what its code carries. -/
theorem Conveys.carries_eq {α : Type} {f : Instr Λ ω β → Option α} (h : Conveys M f s) (hsound : Sound own s)
    (hstep : Control M s s') (t : τ) : carries f s' t = carries f s t := by
  unfold carries
  rcases h.control_cases hstep with ⟨hstack, hrunning, hsaved⟩ | ⟨hnil, hstack, hrunning, hsaved⟩ |
    ⟨-, htask, hnil, hrunning, hsaved⟩
  · rw [hstack, hrunning, hsaved]
  · rw [hstack, hrunning, hsaved, hnil]
    by_cases ht : t = M.cur s.content
    · subst ht
      simp
    · simp [ht]
  · rw [hnil, hrunning, hsaved]
    have hhome := hsound.home fun i hi heq => by
      have := List.all_eq_true.mp htask i hi
      simp [heq, Instr.isFrame] at this
    by_cases ht : t = s.running
    · subst ht
      simp [hhome]
    · simp [ht]

end Hopter.Exec
