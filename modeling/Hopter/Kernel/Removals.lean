-- SUMMARY: Tasks that are to be taken out of the sleep queue: each is there once, when no removal is left from an earlier wait.
import Hopter.Kernel.Waits

/-!
# Removals from the sleep queue

A notification takes the task that waits with a timeout out of the mailbox, and then out of the
sleep queue. While the sleep queue is held, the task goes to the delete buffer, and it stays
there when the sleep queue has been drained already. When the task has been woken by its
timeout in the meantime, it can wait again before the delete buffer is drained.
-/

namespace Hopter.Kernel

open Exec Hopter.Task

variable {τ W B : Type} [DecidableEq τ] [DecidableEq W] [DecidableEq B]
  {C : Config} {c c' : Content τ W B} {b : Body τ W B} {cs : List (KCode τ W B)}
  {s s' : State (Lock W B) (Op τ) (Body τ W B) (Content τ W B) τ}
  {k : List (Instr (Lock W B) (Op τ) (Body τ W B))}
  {a : Action (List (HandlerCall τ W B)) (Choice τ W B)}

/-- The tasks that are to be taken out of the sleep queue. -/
def removals (s : State (Lock W B) (Op τ) (Body τ W B) (Content τ W B) τ) : List τ :=
  s.content.deleteBuffer ++ s.stack.filterMap removal

def codeRemovals (cs : List (KCode τ W B)) : List τ := cs.filterMap fun d => removal (.code d)

omit [DecidableEq τ] [DecidableEq W] [DecidableEq B] in
theorem removals_body (hk : s.stack = .code (.body b) :: k) :
    removals s = s.content.deleteBuffer ++ b.removal.toList ++ k.filterMap removal ∧
      removals { s with content := c', stack := push cs k } =
        c'.deleteBuffer ++ codeRemovals cs ++ k.filterMap removal := by
  rw [removals, removals, hk, filterMap_top, filterMap_push, List.append_assoc, List.append_assoc]
  exact ⟨rfl, rfl⟩

/-- A task blocks with a timeout only when no removal of it is left in the delete buffer. -/
def Body.NoneLeft (c : Content τ W B) : Body τ W B → Prop
  | .checkCountTimeout m _ => c.count m = 0 → c.cur ∉ c.deleteBuffer
  | _ => True

omit [DecidableEq τ] [DecidableEq W] [DecidableEq B] in
theorem Body.noneLeft_iff : b.NoneLeft c ↔ ((b.engages c).any (·.2) = true → c.cur ∉ c.deleteBuffer) := by
  cases b with
  | checkCount m | checkCountTimeout m =>
    by_cases hcount : c.count m = 0 <;> simp [Body.NoneLeft, Body.engages, hcount]
  | _ => simp [Body.NoneLeft, Body.engages]

instance : Decidable (b.NoneLeft c) := decidable_of_iff _ Body.noneLeft_iff.symm

/-- What a step does to the waiters with a timeout and to the removals. -/
inductive Removes (c c' : Content τ W B) (b : Body τ W B) (cs : List (KCode τ W B)) : Prop where
  /-- No waiter is new, and no removal. -/
  | keeps (hwait : ∀ m t, c'.waitTask m = .withTimeout t →
      c.waitTask m = .withTimeout t ∧ b ≠ .takeResult m)
    (hremovals : (c'.deleteBuffer ++ codeRemovals cs).Sublist (c.deleteBuffer ++ b.removal.toList))
  /-- A waiter is taken out of its mailbox. -/
  | takes {m t} (hwait : c.waitTask m = .withTimeout t)
    (hwait' : c'.waitTask = Function.update c.waitTask m .noTask) (hb : b.disengages = none)
    (hremovals : c'.deleteBuffer ++ codeRemovals cs = c.deleteBuffer ++ [t] ∧ b.removal = none)
  /-- The current task becomes a waiter. -/
  | blocks {m ms} (hb : b = .checkCountTimeout m ms) (hcount : c.count m = 0)
    (hwait' : c'.waitTask = Function.update c.waitTask m (.withTimeout c.cur))
    (hremovals : c'.deleteBuffer ++ codeRemovals cs = c.deleteBuffer)

omit [DecidableEq τ] [DecidableEq W] in
/-- The step passes on the removal that it is, if it is one. -/
theorem removes_plain (hwait : c'.waitTask = c.waitTask) (hbuffer : c'.deleteBuffer = c.deleteBuffer)
    (hcode : codeRemovals cs = b.removal.toList) (hb : ∀ m, b ≠ .takeResult m) : Removes c c' b cs := by
  refine .keeps (fun m t ht => ⟨hwait ▸ ht, hb m⟩) ?_
  rw [hbuffer, hcode]

theorem Outcome.removes (h : Outcome C c b c' cs) : Removes c c' b cs := by
  -- No waiter with a timeout is new.
  have hupdate : ∀ {m : B} {v : WaitTask τ}, (∀ u, v ≠ .withTimeout u) → c'.waitTask = Function.update c.waitTask m v →
      ∀ m' t, c'.waitTask m' = .withTimeout t → c.waitTask m' = .withTimeout t ∧ m ≠ m' := by
    intro m v hv heq m' t h
    rw [heq] at h
    by_cases hm : m' = m
    · subst hm
      exact absurd (by simpa using h) (hv t)
    · exact ⟨by simpa [hm] using h, fun heq => hm heq.symm⟩
  cases h with
  | blockTimeout _ _ hcount => exact .blocks rfl hcount (by simp) (by simp [codeRemovals, removal, Body.removal])
  | notifyTimeout _ hwait | pendedTimeout _ hwait =>
    exact .takes hwait (by simp) rfl ⟨by simp [codeRemovals, removal, Op.removal, Body.removal], rfl⟩
  | takeNotified | takeTimeout =>
    refine .keeps (fun m' t ht => ?_) (by simp [codeRemovals, removal, Body.removal])
    obtain ⟨hwait, hne⟩ := hupdate (v := .noTask) (by simp) rfl m' t ht
    exact ⟨hwait, by simpa using hne⟩
  | block | notifyWaiter | pendedWaiter =>
    refine .keeps (fun m' t ht => ⟨?_, by simp⟩) (by simp [codeRemovals, removal, Op.removal, Body.removal])
    first
      | exact (hupdate (v := .noTask) (by simp) rfl m' t ht).1
      | exact (hupdate (v := .withoutTimeout c.cur) (by simp) rfl m' t ht).1
  | enqueueDelete => exact .keeps (fun m t ht => ⟨ht, by simp⟩) (by simp [codeRemovals, Body.removal])
  | delete hbuffer | deleteNone hbuffer =>
    refine .keeps (fun m t ht => ⟨ht, by simp⟩) ?_
    simp [codeRemovals, removal, Op.removal, Body.removal, hbuffer]
  | remove | removeNone =>
    exact .keeps (fun m t ht => ⟨by simpa using ht, by simp⟩)
      (by simp [codeRemovals, removal, Op.removal, Body.removal])
  | @subCount m p => cases p <;> exact removes_plain rfl rfl rfl (by simp)
  | app call => cases call <;> exact removes_plain rfl rfl rfl (by simp)
  | _ => exact removes_plain (by simp) (by simp) rfl (by simp)

-- ---------------------------------------------------------------------------
-- Runs
-- ---------------------------------------------------------------------------

/-- A task that waits with a timeout is in the call, and it is not taken out of the sleep queue yet. -/
structure RemovalInv (s : State (Lock W B) (Op τ) (Body τ W B) (Content τ W B) τ) : Prop where
  engaged : ∀ m t, s.content.waitTask m = .withTimeout t → Engaged s t m true
  waits : ∀ m t, s.content.waitTask m = .withTimeout t → t ∉ removals s
  nodup : (removals s).Nodup

/-- The wait of another mailbox does not end. -/
theorem RemovalInv.engaged_body {idle : τ} (hcode : CodeInv idle s) (hcalls : CallInv s) (h : RemovalInv s)
    {x : Choice τ W B} (hk : s.stack = .code (.body b) :: k) (hexec : exec C s.content b x = some (c', cs)) {m : B}
    {t : τ} (hwait : s.content.waitTask m = .withTimeout t) (hb : b ≠ .takeResult m) :
    Engaged { s with content := c', stack := push cs k } t m true := by
  have hengaged := h.engaged m t hwait
  refine (hcalls.engaged_iff hcode hk hexec).mpr (Or.inr ⟨hengaged, ?_⟩)
  rintro ⟨rfl, hover⟩
  cases b with
  | takeResult m' => exact hb (by rw [Option.some.inj hover])
  | resumed m' =>
    -- The call that ends is one without a timeout.
    obtain ⟨hcur, hhome, -⟩ := hcalls.running hcode hk rfl
    have hresumed : InWait s s.content.cur ⟨m', false, true⟩ :=
      (hcalls.inWait_cur hhome hk rfl hcur).mpr ⟨rfl, Or.inl rfl⟩
    cases (hengaged.unique hcode.locks hcalls ⟨true, hresumed⟩).2
  | _ => cases hover

theorem RemovalInv.body {idle : τ} (hcode : CodeInv idle s) (hcalls : CallInv s) (h : RemovalInv s)
    {x : Choice τ W B} (hk : s.stack = .code (.body b) :: k) (hexec : exec C s.content b x = some (c', cs))
    (hok : b.NoneLeft s.content) : RemovalInv { s with content := c', stack := push cs k } := by
  obtain ⟨hbefore, hafter⟩ : _ ∧ removals { s with content := c', stack := push cs k } = _ := removals_body hk
  have hiff : ∀ {t m timed}, Engaged { s with content := c', stack := push cs k } t m timed ↔ _ :=
    hcalls.engaged_iff hcode hk hexec
  have hnodup := h.nodup
  have hwaits := h.waits
  simp only [hbefore] at hnodup hwaits
  cases (exec_outcome hexec).removes with
  | keeps hwait hremovals =>
    have hsub := hremovals.append_right (k.filterMap removal)
    refine ⟨fun m t ht => ?_, fun m t ht => ?_, ?_⟩
    · obtain ⟨ht, hb⟩ := hwait m t ht
      exact h.engaged_body hcode hcalls hk hexec ht hb
    · rw [hafter]
      exact fun hmem => hwaits m t (hwait m t ht).1 (hsub.subset hmem)
    · rw [hafter]
      exact hnodup.sublist hsub
  | @takes m t hwait hwait' hb hremovals =>
    -- The waiter is taken out of one mailbox, and it is in no other.
    have hother : ∀ m' t', c'.waitTask m' = .withTimeout t' → s.content.waitTask m' = .withTimeout t' ∧ t' ≠ t := by
      intro m' t' ht
      rw [hwait'] at ht
      by_cases hm : m' = m
      · simp [hm] at ht
      · have ht : s.content.waitTask m' = .withTimeout t' := by simpa [hm] using ht
        refine ⟨ht, ?_⟩
        rintro rfl
        exact hm ((h.engaged m' t' ht).unique hcode.locks hcalls (h.engaged m t' hwait)).1
    rw [hremovals.2, Option.toList_none, List.append_nil] at hnodup hwaits
    refine ⟨fun m' t' ht => ?_, fun m' t' ht => ?_, ?_⟩
    · exact h.engaged_body hcode hcalls hk hexec (hother m' t' ht).1 (by rintro rfl; cases hb)
    · rw [hafter, hremovals.1]
      have hnot := hwaits m' t' (hother m' t' ht).1
      simp only [List.mem_append, List.mem_singleton, not_or] at hnot ⊢
      exact ⟨⟨hnot.1, (hother m' t' ht).2⟩, hnot.2⟩
    · rw [hafter, hremovals.1]
      have hnot := hwaits m t hwait
      have hperm : (s.content.deleteBuffer ++ [t] ++ k.filterMap removal).Perm
          (t :: (s.content.deleteBuffer ++ k.filterMap removal)) := by simp
      exact hperm.nodup_iff.mpr (List.nodup_cons.mpr ⟨hnot, hnodup⟩)
  | @blocks m ms hb hcount hwait' hremovals =>
    subst hb
    obtain ⟨hcur, hhome, -⟩ := hcalls.running hcode hk rfl
    -- The current task is in no other wait.
    have hnone : ∀ m', s.content.waitTask m' ≠ .withTimeout s.content.cur := fun m' ht => by
      obtain ⟨y, hy⟩ := h.engaged m' _ ht
      cases ((hcalls.inWait_cur hhome hk rfl hcur).mp hy).1
    simp only [Body.removal, Option.toList_none, List.append_nil] at hnodup hwaits
    refine ⟨fun m' t ht => ?_, fun m' t ht => ?_, by rw [hafter, hremovals]; exact hnodup⟩
    · simp only [hwait'] at ht
      by_cases hm : m' = m
      · subst hm
        refine hiff.mpr (Or.inl ⟨?_, by simp [Body.engages, hcount]⟩)
        simpa using ht.symm
      · exact h.engaged_body hcode hcalls hk hexec (by simpa [hm] using ht) (by simp)
    · rw [hafter, hremovals]
      simp only [hwait'] at ht
      by_cases hm : m' = m
      · subst hm
        obtain rfl : s.content.cur = t := by simpa using ht
        have hbelow := hcalls.waits.1
        rw [hk] at hbelow
        rw [hbelow.1.removal rfl, List.append_nil]
        exact hok hcount
      · exact hwaits m' t (by simpa [hm] using ht)

theorem RemovalInv.step {idle : τ} (hcode : CodeInv idle s) (hcalls : CallInv s) (h : RemovalInv s)
    (hok : ∀ b ∈ takes s a, b.NoneLeft s.content) (hstep : step (spec C) s a = some s') : RemovalInv s' := by
  rcases step_takes hstep with ⟨x, b, k, c', cs, htakes, hk, hexec, rfl⟩ | hcontrol
  · exact h.body hcode hcalls hk hexec (hok b htakes)
  · have hremovals : removals s' = removals s := by
      rw [removals, removals, hcalls.removals_eq hcode.locks hcontrol, hcontrol.content_eq]
    refine ⟨fun m t ht => ?_, fun m t ht => ?_, by rw [hremovals]; exact h.nodup⟩
    · rw [hcontrol.content_eq] at ht
      exact (Engaged.control hcode.locks hcontrol).mpr (h.engaged m t ht)
    · rw [hcontrol.content_eq] at ht
      rw [hremovals]
      exact h.waits m t ht

section Runs

variable {idle main : τ} {priority : τ → Nat} {clock : Nat}

omit [DecidableEq W] [DecidableEq B] in
theorem boot_removals :
    removals (boot idle main priority clock : State (Lock W B) (Op τ) (Body τ W B) (Content τ W B) τ) = [] := by
  simp [removals, boot, init, start, code, push, removal, Body.removal]

omit [DecidableEq W] [DecidableEq B] in
theorem boot_removalInv :
    RemovalInv (boot idle main priority clock : State (Lock W B) (Op τ) (Body τ W B) (Content τ W B) τ) where
  engaged m t ht := by simp [boot, init, start] at ht
  waits m t ht := by simp [boot, init, start] at ht
  nodup := by
    rw [boot_removals]
    exact List.nodup_nil

end Runs

end Hopter.Kernel
