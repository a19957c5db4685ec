-- SUMMARY: The cache against hot splits over any sequence of calls: distinct causes, multipliers of at least two, and eviction in turn.
import Hopter.Base.RoundRobin
import Hopter.Base.Run
import Hopter.Task.SegmentedStack

/-!
# The cache against hot splits

`svc_more_stack_anti_hot_split` looks up one call chain in the cache and records another one,
and an empty entry is an entry for the signature zero. A chain is recorded in a new entry only when
no entry has its signature, and the entries are replaced in turn.
-/

namespace Hopter.Task

variable {n : Nat} {cfg : Config} {scb scb' : StackCtrlBlock n}

-- ---------------------------------------------------------------------------
-- The index
-- ---------------------------------------------------------------------------

/-- The entry to replace after this one. -/
theorem next_index {idx : Nat} (h : idx < n) : (if (idx + 1) % n = 0 then 0 else idx + 1) = (idx + 1) % n := by
  split
  · rename_i hwrap
    exact hwrap.symm
  · rename_i hwrap
    -- The index is not the last one, or it would have wrapped.
    have hne : idx + 1 ≠ n := fun hlast => hwrap (by rw [hlast, Nat.mod_self])
    exact (Nat.mod_eq_of_lt (by omega)).symm

theorem StackCtrlBlock.record_index {cause : Reg} (hrecord : scb.record cause = some scb')
    (h : scb.roundRobinIdx < n) : scb'.roundRobinIdx < n := by
  cases StackCtrlBlock.record_cases hrecord with
  | found _ => exact h
  | installed _ _ =>
    rw [next_index h]
    exact Nat.mod_lt _ (by omega)

/-- With such an index the alleviation of hot splits does not fail, and leaves such an index. -/
theorem svcMoreStackAntiHotSplit_index (cfg : Config) (lr frameSize extendCnt : Reg)
    {scb : StackCtrlBlock n} (h : scb.roundRobinIdx < n) :
    ∃ frameSize' scb' extendCnt', svcMoreStackAntiHotSplit cfg lr frameSize scb extendCnt =
      some (frameSize', scb', extendCnt') ∧ scb'.roundRobinIdx < n := by
  simp only [svcMoreStackAntiHotSplit]
  split
  · exact ⟨_, _, _, rfl, h⟩
  · obtain ⟨scb', hrecord⟩ : ∃ scb', StackCtrlBlock.record { scb with
        callChainSignature := extendSignature scb.callChainSignature lr } scb.callChainSignature =
          some scb' := by
      simp only [StackCtrlBlock.record]
      split
      · exact ⟨_, rfl⟩
      · exact ⟨_, dif_pos h⟩
    exact ⟨_, _, _, by rw [hrecord, Option.map_some], StackCtrlBlock.record_index hrecord h⟩

-- ---------------------------------------------------------------------------
-- Calls
-- ---------------------------------------------------------------------------

/-- The two calls that work on the cache, with the `lr` of the trap frame, the requested frame size,
and the `extend_cnt` of the stacklet. -/
inductive HotSplitCall where
  | svcMoreStack (lr frameSize extendCnt : Reg)
  | svcLessStack (lr : Reg)

namespace StackCtrlBlock

def step (cfg : Config) (scb : StackCtrlBlock n) : HotSplitCall → Option (StackCtrlBlock n)
  | .svcMoreStack lr frameSize extendCnt =>
    (svcMoreStackAntiHotSplit cfg lr frameSize scb extendCnt).map fun (_, scb, _) => scb
  | .svcLessStack lr => some (svcLessStackAntiHotSplit lr scb)

/-- The entries that get another signature. -/
def replaced (scb scb' : StackCtrlBlock n) : List (Fin n) :=
  (List.finRange n).filter fun i => scb'.hotSplitCauseSignatures i ≠ scb.hotSplitCauseSignatures i

/-- The entries in which the calls install a signature, in order. -/
def installs (cfg : Config) (scb : StackCtrlBlock n) (calls : List HotSplitCall) : List (Fin n) :=
  Run.outputs (step cfg) replaced scb calls

end StackCtrlBlock

/-- What a call does to the cache. -/
inductive CacheStep (scb scb' : StackCtrlBlock n) : Prop where
  | same (hcauses : scb'.hotSplitCauseSignatures = scb.hotSplitCauseSignatures)
    (hsizes : scb'.addSizes = scb.addSizes) (hindex : scb'.roundRobinIdx = scb.roundRobinIdx)
  | counted {i : Fin n} (hcauses : scb'.hotSplitCauseSignatures = scb.hotSplitCauseSignatures)
    (hsizes : scb'.addSizes = Function.update scb.addSizes i (scb.addSizes i + 1))
    (hindex : scb'.roundRobinIdx = scb.roundRobinIdx)
  | installed {i : Fin n} {cause : Reg} (hi : i.val = scb.roundRobinIdx)
    (hnew : ∀ j, scb.hotSplitCauseSignatures j ≠ cause)
    (hcauses : scb'.hotSplitCauseSignatures = Function.update scb.hotSplitCauseSignatures i cause)
    (hsizes : scb'.addSizes = Function.update scb.addSizes i 2)
    (hindex : scb'.roundRobinIdx = (scb.roundRobinIdx + 1) % n)

theorem StackCtrlBlock.step_cases {call : HotSplitCall} (h : scb.step cfg call = some scb') :
    CacheStep scb scb' := by
  cases call with
  | svcLessStack lr =>
    obtain rfl := Option.some.inj h
    exact .same rfl rfl rfl
  | svcMoreStack lr frameSize extendCnt =>
    simp only [StackCtrlBlock.step, svcMoreStackAntiHotSplit] at h
    split at h
    · obtain rfl := Option.some.inj h
      exact .same rfl rfl rfl
    · simp only [Option.map_map, Option.map_eq_some_iff, Function.comp_apply] at h
      obtain ⟨_, hrecord, rfl⟩ := h
      cases StackCtrlBlock.record_cases hrecord with
      | found _ => exact .counted rfl rfl rfl
      | installed hnone hindex =>
        exact .installed rfl (StackCtrlBlock.lookup_none hnone) rfl rfl (next_index hindex)

theorem StackCtrlBlock.step_total (cfg : Config) (h : scb.roundRobinIdx < n) (call : HotSplitCall) :
    ∃ scb', scb.step cfg call = some scb' := by
  cases call with
  | svcLessStack lr => exact ⟨_, rfl⟩
  | svcMoreStack lr frameSize extendCnt =>
    obtain ⟨_, scb', _, hsplit, -⟩ := svcMoreStackAntiHotSplit_index cfg lr frameSize extendCnt h
    exact ⟨scb', by rw [StackCtrlBlock.step, hsplit, Option.map_some]⟩

-- ---------------------------------------------------------------------------
-- The invariant
-- ---------------------------------------------------------------------------

/-- The cache after `k` calls. -/
structure CacheInv (k : Nat) (scb : StackCtrlBlock n) : Prop where
  index : scb.roundRobinIdx < n
  distinct : ∀ i j, scb.hotSplitCauseSignatures i ≠ 0 →
    scb.hotSplitCauseSignatures i = scb.hotSplitCauseSignatures j → i = j
  sizes : ∀ i, scb.hotSplitCauseSignatures i ≠ 0 → 2 ≤ (scb.addSizes i).toNat
  bounded : ∀ i, (scb.addSizes i).toNat ≤ k + 2

theorem cacheInv_default (hn : 0 < n) : CacheInv 0 (StackCtrlBlock.default n) where
  index := hn
  distinct _ _ hi _ := absurd rfl hi
  sizes _ hi := absurd rfl hi
  bounded _ := Nat.zero_le _

theorem CacheInv.step {k : Nat} (h : CacheInv k scb) (hk : k < 2 ^ 31) (hstep : CacheStep scb scb') :
    CacheInv (k + 1) scb' := by
  have hle : ∀ i, (scb.addSizes i).toNat ≤ k + 1 + 2 := fun i => Nat.le_succ_of_le (h.bounded i)
  cases hstep with
  | same hcauses hsizes hindex =>
    refine ⟨?_, ?_, ?_, ?_⟩
    · rw [hindex]
      exact h.index
    · rw [hcauses]
      exact h.distinct
    · rw [hcauses, hsizes]
      exact h.sizes
    · rw [hsizes]
      exact hle
  | @counted i hcauses hsizes hindex =>
    -- The multiplier does not wrap around.
    have hadd : (scb.addSizes i + 1).toNat = (scb.addSizes i).toNat + 1 := by
      have := h.bounded i
      rw [BitVec.toNat_add, show (1 : Reg).toNat = 1 from rfl, Nat.mod_eq_of_lt (by omega)]
    refine ⟨?_, ?_, fun j hj => ?_, fun j => ?_⟩
    · rw [hindex]
      exact h.index
    · rw [hcauses]
      exact h.distinct
    · rw [hcauses] at hj
      rw [hsizes]
      by_cases hji : j = i
      · subst hji
        rw [Function.update_self, hadd]
        exact Nat.le_succ_of_le (h.sizes j hj)
      · rw [Function.update_of_ne hji]
        exact h.sizes j hj
    · rw [hsizes]
      by_cases hji : j = i
      · subst hji
        rw [Function.update_self, hadd]
        exact Nat.succ_le_succ (h.bounded j)
      · rw [Function.update_of_ne hji]
        exact hle j
  | @installed i cause hi hnew hcauses hsizes hindex =>
    refine ⟨?_, fun j l hj hjl => ?_, fun j hj => ?_, fun j => ?_⟩
    · rw [hindex]
      exact Nat.mod_lt _ (by have := h.index; omega)
    · rw [hcauses] at hj hjl
      -- The new signature was in no entry.
      by_cases hji : j = i
      · by_cases hli : l = i
        · rw [hji, hli]
        · rw [hji, Function.update_self, Function.update_of_ne hli] at hjl
          exact absurd hjl.symm (hnew l)
      · rw [Function.update_of_ne hji] at hj hjl
        by_cases hli : l = i
        · rw [hli, Function.update_self] at hjl
          exact absurd hjl (hnew j)
        · rw [Function.update_of_ne hli] at hjl
          exact h.distinct j l hj hjl
    · rw [hcauses] at hj
      rw [hsizes]
      by_cases hji : j = i
      · rw [hji, Function.update_self]
        decide
      · rw [Function.update_of_ne hji] at hj ⊢
        exact h.sizes j hj
    · rw [hsizes]
      by_cases hji : j = i
      · rw [hji, Function.update_self]
        exact Nat.le_add_left 2 (k + 1)
      · rw [Function.update_of_ne hji]
        exact hle j

-- ---------------------------------------------------------------------------
-- Eviction
-- ---------------------------------------------------------------------------

/-- A call replaces the next entry, or none. -/
theorem CacheStep.replaced (h : CacheStep scb scb') :
    (scb.replaced scb' = [] ∧ scb'.roundRobinIdx = scb.roundRobinIdx) ∨
      ∃ i : Fin n, i.val = scb.roundRobinIdx ∧ scb.replaced scb' = [i] ∧
        scb'.roundRobinIdx = (scb.roundRobinIdx + 1) % n := by
  cases h with
  | same hcauses _ hindex | counted hcauses _ hindex =>
    exact Or.inl ⟨by simp [StackCtrlBlock.replaced, hcauses], hindex⟩
  | @installed i cause hi hnew hcauses _ hindex =>
    refine Or.inr ⟨i, hi, ?_, hindex⟩
    have honly : ∀ j, (decide (scb'.hotSplitCauseSignatures j ≠ scb.hotSplitCauseSignatures j)) = (j == i) := by
      intro j
      rw [hcauses]
      by_cases hji : j = i
      · subst hji
        simpa using (hnew j).symm
      · simp [hji]
    rw [StackCtrlBlock.replaced, List.filter_congr fun j _ => honly j, List.filter_beq,
      List.count_eq_one_of_mem (List.nodup_finRange n) (List.mem_finRange i), List.replicate_one]

/-- The entries are replaced in turn. -/
theorem installs_eq {calls : List HotSplitCall} (h : scb.roundRobinIdx < n) :
    ∃ len, (scb.installs cfg calls).map Fin.val = roundRobin n scb.roundRobinIdx len := by
  induction calls generalizing scb with
  | nil => exact ⟨0, rfl⟩
  | cons call calls ih =>
    obtain ⟨scb', hstep⟩ := StackCtrlBlock.step_total cfg h call
    have hcons : scb.installs cfg (call :: calls) = scb.replaced scb' ++ scb'.installs cfg calls :=
      Run.outputs_cons hstep
    rcases (StackCtrlBlock.step_cases hstep).replaced with ⟨hnone, hindex⟩ | ⟨i, hi, hone, hindex⟩
    · obtain ⟨len, hlen⟩ := ih (hindex ▸ h)
      exact ⟨len, by rw [hcons, hnone, List.nil_append, hlen, hindex]⟩
    · obtain ⟨len, hlen⟩ := ih (hindex ▸ Nat.mod_lt _ (by omega))
      refine ⟨len + 1, ?_⟩
      rw [hcons, hone, List.map_append, hlen, hindex, roundRobin_mod, roundRobin_succ, Nat.mod_eq_of_lt h, ← hi]
      rfl

/-- After any calls, fewer than `2^31`, the index is in range, no two entries have the same cause
except for the empty ones, and the multiplier of every other entry is at least two. Between two
signatures that are installed in an entry, one is installed in every other entry. -/
theorem hotSplitCache_consistent (cfg : Config) (hn : 1 ≤ n) (calls : List HotSplitCall)
    (hcalls : calls.length < 2 ^ 31) :
    ∃ scb, Run.exec (StackCtrlBlock.step cfg) (StackCtrlBlock.default n) calls = some scb ∧
      scb.roundRobinIdx < n ∧
      (∀ i j, scb.hotSplitCauseSignatures i ≠ 0 →
        scb.hotSplitCauseSignatures i = scb.hotSplitCauseSignatures j → i = j) ∧
      (∀ i, scb.hotSplitCauseSignatures i ≠ 0 → 2 ≤ (scb.addSizes i).toNat) ∧
      ∀ pre mid post i, (StackCtrlBlock.default n).installs cfg calls = pre ++ i :: (mid ++ i :: post) →
        i ∉ mid → mid.length = n - 1 ∧ mid.Nodup := by
  have hstep : ∀ {k scb} call, CacheInv k scb → k < 2 ^ 31 →
      ∃ scb', StackCtrlBlock.step cfg scb call = some scb' ∧ CacheInv (n := n) (k + 1) scb' := by
    intro k scb call h hk
    obtain ⟨scb', hstep⟩ := StackCtrlBlock.step_total cfg h.index call
    exact ⟨scb', hstep, h.step hk (StackCtrlBlock.step_cases hstep)⟩
  obtain ⟨scb, hrun, hinv⟩ := Run.exec_total_of_length CacheInv hstep (cacheInv_default hn)
    (show 0 + calls.length ≤ 2 ^ 31 by omega)
  refine ⟨scb, hrun, hinv.index, hinv.distinct, hinv.sizes, fun pre mid post i hinstalls hmid => ?_⟩
  obtain ⟨len, hlen⟩ : ∃ len, ((StackCtrlBlock.default n).installs cfg calls).map Fin.val = roundRobin n 0 len :=
    installs_eq hn
  rw [hinstalls, List.map_append, List.map_cons, List.map_append, List.map_cons] at hlen
  obtain ⟨hlength, hnodup⟩ := roundRobin_between hn hlen.symm
    fun hmem => hmid ((List.mem_map_of_injective fun _ _ => Fin.ext).mp hmem)
  rw [List.length_map] at hlength
  exact ⟨by omega, hnodup.of_map⟩

/-- In a cache of two entries the first cause is replaced by the third one. -/
theorem hotSplitCache_consistent_two :
    (StackCtrlBlock.default 2).installs ⟨true, 1, 0, false, 0, 0⟩
        [.svcMoreStack 1 8 0, .svcMoreStack 2 8 0, .svcMoreStack 0 8 0, .svcMoreStack 0 8 0] = [0, 1, 0] ∧
      ([1] : List (Fin 2)).length = 2 - 1 := by
  have hinstalls : (StackCtrlBlock.default 2).installs ⟨true, 1, 0, false, 0, 0⟩
      [.svcMoreStack 1 8 0, .svcMoreStack 2 8 0, .svcMoreStack 0 8 0, .svcMoreStack 0 8 0] = [0, 1, 0] := by
    decide
  obtain ⟨-, -, -, -, -, hevict⟩ := hotSplitCache_consistent ⟨true, 1, 0, false, 0, 0⟩ (n := 2) (by decide)
    [.svcMoreStack 1 8 0, .svcMoreStack 2 8 0, .svcMoreStack 0 8 0, .svcMoreStack 0 8 0] (by decide)
  exact ⟨hinstalls, (hevict [] [1] [] 0 hinstalls (by decide)).1⟩

end Hopter.Task
