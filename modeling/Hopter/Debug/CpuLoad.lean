-- SUMMARY: The idle time that the load inspector records, and the load that it reports.
import Hopter.Base.Run
import Mathlib.Algebra.Ring.Int.Defs
import Mathlib.Algebra.Ring.Nat

/-!
# CPU load

`src/debug/cpu_load.rs`. The microseconds in which the idle task runs are counted in four slots, one
for each period of `2 ^ 20` microseconds, and used in turn. The arithmetic is that of builds with
overflow checks: `none` is a panic.
-/

namespace Hopter.Debug

/-- `US_PER_SLOT`. -/
def usPerSlot : BitVec 32 := 1 <<< 20

/-- `SLOT_PERIOD_MASK`. -/
def slotPeriodMask : BitVec 32 := usPerSlot - 1

structure LoadInspector where
  idleStartTimeLow : BitVec 32
  idleStartTimeHigh : BitVec 32
  slots : Fin 4 → BitVec 32
  recentSlotIdx : Nat
  completelyIdle : Bool

namespace LoadInspector

def new : LoadInspector where
  idleStartTimeLow := 0
  idleStartTimeHigh := 0
  slots _ := 0
  recentSlotIdx := 0
  completelyIdle := false

/-- The saved timestamp. -/
def idleStartTime (s : LoadInspector) : BitVec 64 :=
  s.idleStartTimeHigh.setWidth 64 <<< 32 ||| s.idleStartTimeLow.setWidth 64

/-- `swap_idle_start_timestamp`. -/
def swapIdleStartTimestamp (s : LoadInspector) (curTs : BitVec 64) : LoadInspector × BitVec 64 :=
  ({ s with
      idleStartTimeLow := curTs.setWidth 32
      idleStartTimeHigh := (curTs >>> 32).setWidth 32 },
    s.idleStartTime)

def clearSlot (s : LoadInspector) (idx : Nat) : LoadInspector :=
  { s with slots := Function.update s.slots (Fin.ofNat 4 idx) 0 }

/-- `fetch_add` wraps. -/
def addToSlot (s : LoadInspector) (idx : Nat) (incr : BitVec 32) : LoadInspector :=
  { s with slots := Function.update s.slots (Fin.ofNat 4 idx) (s.slots (Fin.ofNat 4 idx) + incr) }

/-- The range `first..=last`. -/
def inclusive (first last : Nat) : List Nat := List.range' first (last + 1 - first)

/-- The body of the second loop of `update_slots`. -/
def countSlot (fromTs toTs : BitVec 64) (fromSlotIdx toSlotIdx : Nat) (s : LoadInspector) (idx : Nat) :
    Option LoadInspector :=
  if idx % 4 = fromSlotIdx ∧ idx % 4 = toSlotIdx then
    if toTs < fromTs then none else some (s.addToSlot idx ((toTs - fromTs).setWidth 32))
  else if idx % 4 = fromSlotIdx then
    some (s.addToSlot idx (usPerSlot - (fromTs.setWidth 32 &&& slotPeriodMask)))
  else
    some (s.addToSlot idx (toTs.setWidth 32 &&& slotPeriodMask))

/-- `update_slots`. -/
def updateSlots (s : LoadInspector) (fromTs toTs : BitVec 64) : Option LoadInspector :=
  let fromTsHigh := fromTs / usPerSlot.setWidth 64
  let toTsHigh := toTs / usPerSlot.setWidth 64
  if toTsHigh < fromTsHigh then none
  else if 2 ≤ toTsHigh - fromTsHigh then some { s with completelyIdle := true, slots := fun _ => 0 }
  else
    let fromSlotIdx := (fromTsHigh % 4).toNat
    let toSlotIdx := (toTsHigh % 4).toNat
    let s := (inclusive (toSlotIdx + 1) (toSlotIdx + 2)).foldl clearSlot s
    ((inclusive fromSlotIdx toSlotIdx).foldlM (countSlot fromTs toTs fromSlotIdx toSlotIdx) s).map
      fun s => { s with recentSlotIdx := toSlotIdx }

/-- The end of `get_cpu_load`: the load, from the idle time of a slot. -/
def slotLoad (idleUs : BitVec 32) : Option (BitVec 8 × BitVec 8) :=
  if 2 ^ 32 ≤ idleUs.toNat * 1000 then none
  else
    let idleRatioX1000 := idleUs * 1000 / usPerSlot
    if 1000 < idleRatioX1000 then none
    else
      let loadX1000 := 1000 - idleRatioX1000
      some ((loadX1000 / 10).setWidth 8, (loadX1000 % 10).setWidth 8)

/-- The slot that the report is based on: the one before the recent slot. -/
def reportedSlot (s : LoadInspector) : BitVec 32 := s.slots (Fin.ofNat 4 (s.recentSlotIdx + 3))

/-- `get_cpu_load`. -/
def getCpuLoad (s : LoadInspector) : Option (BitVec 8 × BitVec 8) :=
  if s.completelyIdle = true then some (0, 0) else slotLoad s.reportedSlot

/-- `idle_begin`, at the time `curTs`. -/
def idleBegin (s : LoadInspector) (curTs : BitVec 64) : LoadInspector := (s.swapIdleStartTimestamp curTs).1

/-- `idle_end`, at the time `curTs`. -/
def idleEnd (s : LoadInspector) (curTs : BitVec 64) : Option LoadInspector :=
  let (s, prevTs) := s.swapIdleStartTimestamp curTs
  s.updateSlots prevTs curTs

-- ---------------------------------------------------------------------------
-- The idle time of each slot
-- ---------------------------------------------------------------------------

/-- The number of the period of a time, in microseconds. -/
def period (time : Nat) : Nat := time / 2 ^ 20

/-- How many microseconds from one time to another are in periods that are counted in the given slot. -/
def idleIn (fromTime toTime : Nat) (i : Fin 4) : Nat :=
  (List.range' fromTime (toTime - fromTime)).countP fun t => period t % 4 = i.val

/-- The slots when the two that follow the given period have been cleared. -/
def clearedAfter (s : LoadInspector) (p : Nat) (i : Fin 4) : BitVec 32 :=
  if i.val = (p + 1) % 4 ∨ i.val = (p + 2) % 4 then 0 else s.slots i

/-- The interval starts in the period of the last slot and ends in the next one. -/
def Wraps (fromTime toTime : Nat) : Prop := period fromTime % 4 = 3 ∧ period toTime = period fromTime + 1

instance (fromTime toTime : Nat) : Decidable (Wraps fromTime toTime) :=
  inferInstanceAs (Decidable (_ ∧ _))

section IdleIn

variable {a b c p : Nat} {i : Fin 4}

theorem idleIn_add (hab : a ≤ b) (hbc : b ≤ c) : idleIn a c i = idleIn a b i + idleIn b c i := by
  have hsplit : List.range' a (c - a) = List.range' a (b - a) ++ List.range' b (c - b) := by
    rw [show c - a = (b - a) + (c - b) by omega, ← List.range'_append_1, show a + (b - a) = b by omega]
  rw [idleIn, hsplit, List.countP_append]
  rfl

/-- An interval in one period. -/
theorem idleIn_of_period (h : ∀ t, a ≤ t → t < b → period t = p) :
    idleIn a b i = if i.val = p % 4 then b - a else 0 := by
  have hmem : ∀ t ∈ List.range' a (b - a), period t = p := by
    intro t ht
    rw [List.mem_range'_1] at ht
    exact h t ht.1 (by omega)
  split
  · rename_i hi
    rw [idleIn, List.countP_eq_length.mpr, List.length_range']
    intro t ht
    simp [hmem t ht, hi]
  · rename_i hi
    rw [idleIn, List.countP_eq_zero]
    intro t ht
    simp only [hmem t ht, decide_eq_true_eq]
    exact fun heq => hi heq.symm

/-- An interval in two periods, one after the other. -/
theorem idleIn_of_next (hnext : period b = period a + 1) :
    idleIn a b i = (if i.val = period a % 4 then 2 ^ 20 - a % 2 ^ 20 else 0) +
      if i.val = period b % 4 then b % 2 ^ 20 else 0 := by
  unfold period at hnext
  have hfirst : ∀ t, a ≤ t → t < b / 2 ^ 20 * 2 ^ 20 → period t = period a := by
    intro t hat htb
    unfold period
    omega
  have hsecond : ∀ t, b / 2 ^ 20 * 2 ^ 20 ≤ t → t < b → period t = period b := by
    intro t hbt htb
    unfold period
    omega
  rw [idleIn_add (b := b / 2 ^ 20 * 2 ^ 20) (by omega) (by omega), idleIn_of_period hfirst,
    idleIn_of_period hsecond]
  congr 2 <;> omega

end IdleIn

-- ---------------------------------------------------------------------------
-- One idle period
-- ---------------------------------------------------------------------------

section Update

variable {s s' : LoadInspector} {fromTs toTs : BitVec 64} {idx : Nat}

theorem toNat_div_usPerSlot (ts : BitVec 64) : (ts / usPerSlot.setWidth 64).toNat = period ts.toNat :=
  BitVec.toNat_udiv

theorem toNat_and_slotPeriodMask (ts : BitVec 64) :
    (ts.setWidth 32 &&& slotPeriodMask).toNat = ts.toNat % 2 ^ 20 := by
  have hmask : slotPeriodMask.toNat = 2 ^ 20 - 1 := rfl
  rw [BitVec.toNat_and, BitVec.toNat_setWidth, hmask, Nat.and_two_pow_sub_one_eq_mod]
  omega

theorem clear_next_two (s : LoadInspector) (p : Nat) :
    (inclusive (p % 4 + 1) (p % 4 + 2)).foldl clearSlot s = { s with slots := s.clearedAfter p } := by
  have hrange : inclusive (p % 4 + 1) (p % 4 + 2) = [p % 4 + 1, p % 4 + 2] := by
    rw [inclusive, show p % 4 + 2 + 1 - (p % 4 + 1) = 2 by omega]
    rfl
  rw [hrange]
  simp only [List.foldl_cons, List.foldl_nil, clearSlot]
  congr 1
  funext i
  simp only [clearedAfter, Function.update_apply, Fin.ext_iff, Fin.val_ofNat, Nat.mod_add_mod]
  by_cases hfirst : i.val = (p + 1) % 4
  · simp [hfirst]
  · by_cases hsecond : i.val = (p + 2) % 4 <;> simp [hfirst, hsecond]

theorem slots_addToSlot (s : LoadInspector) (idx : Nat) (incr : BitVec 32) :
    s.addToSlot idx incr = { s with slots := fun i => s.slots i + if i.val = idx % 4 then incr else 0 } := by
  unfold addToSlot
  congr 1
  funext i
  simp only [Function.update_apply, Fin.ext_iff, Fin.val_ofNat]
  split
  · rename_i hi
    obtain rfl : i = Fin.ofNat 4 idx := Fin.ext hi
    simp
  · simp

theorem ofNat_ite (c : Prop) [Decidable c] (n : Nat) :
    BitVec.ofNat 32 (if c then n else 0) = if c then BitVec.ofNat 32 n else 0 := by
  split <;> rfl

/-- The second loop of `update_slots`, for an interval of at most two periods. -/
theorem countSlots_eq (s : LoadInspector) (hle : fromTs.toNat ≤ toTs.toNat)
    (hspan : period toTs.toNat ≤ period fromTs.toNat + 1) :
    (inclusive (period fromTs.toNat % 4) (period toTs.toNat % 4)).foldlM
        (countSlot fromTs toTs (period fromTs.toNat % 4) (period toTs.toNat % 4)) s = some
      { s with
        slots := fun i => s.slots i +
          if Wraps fromTs.toNat toTs.toNat then 0 else BitVec.ofNat 32 (idleIn fromTs.toNat toTs.toNat i) } := by
  have hmono : period fromTs.toNat ≤ period toTs.toNat := Nat.div_le_div_right hle
  rcases Nat.lt_or_ge (period fromTs.toNat) (period toTs.toNat) with hnext | hsame
  · have hnext : period toTs.toNat = period fromTs.toNat + 1 := by omega
    by_cases hwrap : period fromTs.toNat % 4 = 3
    · -- The range of the indices is empty.
      have hrange : inclusive (period fromTs.toNat % 4) (period toTs.toNat % 4) = [] := by
        rw [inclusive, show period toTs.toNat % 4 + 1 - period fromTs.toNat % 4 = 0 by omega]
        rfl
      have hwraps : Wraps fromTs.toNat toTs.toNat := ⟨hwrap, hnext⟩
      simp [hrange, hwraps]
    · have hrange : inclusive (period fromTs.toNat % 4) (period toTs.toNat % 4) =
          [period fromTs.toNat % 4, period toTs.toNat % 4] := by
        rw [inclusive, show period toTs.toNat % 4 = period fromTs.toNat % 4 + 1 by omega,
          show period fromTs.toNat % 4 + 1 + 1 - period fromTs.toNat % 4 = 2 by omega]
        rfl
      have hne : ¬ period fromTs.toNat % 4 = period toTs.toNat % 4 := by omega
      have hne' : ¬ period toTs.toNat % 4 = period fromTs.toNat % 4 := by omega
      have hwraps : ¬ Wraps fromTs.toNat toTs.toNat := fun h => hwrap h.1
      have hfirst : usPerSlot - (fromTs.setWidth 32 &&& slotPeriodMask) =
          BitVec.ofNat 32 (2 ^ 20 - fromTs.toNat % 2 ^ 20) := by
        apply BitVec.eq_of_toNat_eq
        have hmod := toNat_and_slotPeriodMask fromTs
        have husPerSlot : usPerSlot.toNat = 2 ^ 20 := rfl
        rw [BitVec.toNat_sub_of_le (by rw [BitVec.le_def, hmod, husPerSlot]; omega), hmod, husPerSlot,
          BitVec.toNat_ofNat]
        omega
      have hsecond : toTs.setWidth 32 &&& slotPeriodMask = BitVec.ofNat 32 (toTs.toNat % 2 ^ 20) := by
        apply BitVec.eq_of_toNat_eq
        rw [toNat_and_slotPeriodMask, BitVec.toNat_ofNat]
        omega
      simp only [hrange, List.foldlM_cons, List.foldlM_nil, countSlot, Nat.mod_mod, hne, hne', hwraps, and_true,
        true_and, if_false, if_true, Option.bind_eq_bind, Option.bind_some, slots_addToSlot, hfirst, hsecond,
        idleIn_of_next hnext, BitVec.ofNat_add, ofNat_ite, BitVec.add_assoc]
      rfl
  · have hsame : period toTs.toNat = period fromTs.toNat := by omega
    have hrange : inclusive (period fromTs.toNat % 4) (period fromTs.toNat % 4) = [period fromTs.toNat % 4] := by
      rw [inclusive, Nat.add_sub_cancel_left]
      rfl
    have hwraps : ¬ Wraps fromTs.toNat toTs.toNat := fun h => by have := h.2; omega
    have hperiod : ∀ t, fromTs.toNat ≤ t → t < toTs.toNat → period t = period fromTs.toNat := by
      intro t hfrom hto
      unfold period at *
      omega
    have hincr : (toTs - fromTs).setWidth 32 = BitVec.ofNat 32 (toTs.toNat - fromTs.toNat) := by
      apply BitVec.eq_of_toNat_eq
      rw [BitVec.toNat_setWidth, BitVec.toNat_sub_of_le (BitVec.le_def.mpr hle), BitVec.toNat_ofNat]
    have hlt : ¬ toTs < fromTs := fun hlt => by
      rw [BitVec.lt_def] at hlt
      omega
    simp only [hrange, List.foldlM_cons, List.foldlM_nil, countSlot, Nat.mod_mod, hsame, hlt, hwraps, and_self,
      if_false, if_true, Option.bind_eq_bind, Option.bind_some, slots_addToSlot, hincr, idleIn_of_period hperiod,
      ofNat_ite]
    rfl

/-- What `update_slots` does with an interval of at most two periods. -/
theorem updateSlots_eq (s : LoadInspector) (hle : fromTs.toNat ≤ toTs.toNat)
    (hspan : period toTs.toNat ≤ period fromTs.toNat + 1) :
    s.updateSlots fromTs toTs = some
      { s with
        slots := fun i => s.clearedAfter (period toTs.toNat) i +
          if Wraps fromTs.toNat toTs.toNat then 0 else BitVec.ofNat 32 (idleIn fromTs.toNat toTs.toNat i)
        recentSlotIdx := period toTs.toNat % 4 } := by
  have hmono : period fromTs.toNat ≤ period toTs.toNat := Nat.div_le_div_right hle
  have hfrom := toNat_div_usPerSlot fromTs
  have hto := toNat_div_usPerSlot toTs
  have hlt : ¬ toTs / usPerSlot.setWidth 64 < fromTs / usPerSlot.setWidth 64 := by
    rw [BitVec.lt_def, hfrom, hto]
    omega
  have htwo : ¬ 2 ≤ toTs / usPerSlot.setWidth 64 - fromTs / usPerSlot.setWidth 64 := by
    rw [BitVec.le_def, BitVec.toNat_sub_of_le (BitVec.not_lt.mp hlt), hfrom, hto]
    change ¬ 2 ≤ _
    omega
  have hfromIdx : (fromTs / usPerSlot.setWidth 64 % 4).toNat = period fromTs.toNat % 4 := by
    rw [BitVec.toNat_umod, hfrom]
    rfl
  have htoIdx : (toTs / usPerSlot.setWidth 64 % 4).toNat = period toTs.toNat % 4 := by
    rw [BitVec.toNat_umod, hto]
    rfl
  unfold updateSlots
  simp only [hlt, htwo, if_false, hfromIdx, htoIdx, clear_next_two, countSlots_eq _ hle hspan]
  rfl

/-- An interval of more periods. -/
theorem updateSlots_eq_of_completelyIdle (s : LoadInspector)
    (hspan : period fromTs.toNat + 2 ≤ period toTs.toNat) :
    s.updateSlots fromTs toTs = some { s with completelyIdle := true, slots := fun _ => 0 } := by
  have hfrom := toNat_div_usPerSlot fromTs
  have hto := toNat_div_usPerSlot toTs
  have hlt : ¬ toTs / usPerSlot.setWidth 64 < fromTs / usPerSlot.setWidth 64 := by
    rw [BitVec.lt_def, hfrom, hto]
    omega
  have htwo : 2 ≤ toTs / usPerSlot.setWidth 64 - fromTs / usPerSlot.setWidth 64 := by
    rw [BitVec.le_def, BitVec.toNat_sub_of_le (BitVec.not_lt.mp hlt), hfrom, hto]
    change 2 ≤ _
    omega
  unfold updateSlots
  simp only [hlt, htwo, if_false, if_true]

/-- What is conserved when the slots `slots` become `slots'` in an interval: each slot gets the part of the
interval that is in its periods, and all slots together get the whole interval. -/
structure Conserved (slots slots' : Fin 4 → BitVec 32) (fromTime toTime : Nat) : Prop where
  split : ∀ i, slots' i = slots i + BitVec.ofNat 32 (idleIn fromTime toTime i)
  total : ((List.finRange 4).map fun i => (slots' i - slots i).toNat).sum = toTime - fromTime

theorem sum_idleIn (a b : Nat) : ((List.finRange 4).map (idleIn a b)).sum = b - a := by
  have hcount : ∀ l : List Nat, ((List.finRange 4).map fun i => l.countP fun t => period t % 4 = i.val).sum =
      l.length := by
    intro l
    induction l with
    | nil => rfl
    | cons t l ih =>
      have hslots : List.finRange 4 = [0, 1, 2, 3] := rfl
      rw [List.length_cons, ← ih, hslots]
      simp only [List.map_cons, List.map_nil, List.sum_cons, List.sum_nil, List.countP_cons, decide_eq_true_eq,
        Fin.isValue, Fin.val_zero, Fin.val_one, Fin.val_two, show (3 : Fin 4).val = 3 from rfl]
      split <;> split <;> split <;> split <;> omega
  rw [← List.length_range' (s := a) (n := b - a), ← hcount]
  rfl

theorem idleIn_le (a b : Nat) (i : Fin 4) : idleIn a b i ≤ b - a := by
  have hle := List.countP_le_length (p := fun t => decide (period t % 4 = i.val)) (l := List.range' a (b - a))
  rwa [List.length_range'] at hle

/-- The idle time is conserved, unless the interval goes from the period of the last slot to the next one. -/
theorem updateSlots_conserved (s : LoadInspector) (fromTs toTs : BitVec 64) (hle : fromTs.toNat ≤ toTs.toNat)
    (hspan : period toTs.toNat ≤ period fromTs.toNat + 1) :
    ∃ s', s.updateSlots fromTs toTs = some s' ∧
      (Conserved (s.clearedAfter (period toTs.toNat)) s'.slots fromTs.toNat toTs.toNat ↔
        ¬ Wraps fromTs.toNat toTs.toNat) := by
  refine ⟨_, updateSlots_eq s hle hspan, fun hconserved hwraps => ?_, fun hwraps => ⟨fun i => ?_, ?_⟩⟩
  · -- The slot in which the interval starts gets nothing, but a part of the interval is in it.
    have hsplit := hconserved.split 3
    have hpart := idleIn_of_next (i := 3) hwraps.2
    have hfrom := hwraps.1
    have hto : ¬ (3 : Fin 4).val = period toTs.toNat % 4 := by
      rw [hwraps.2]
      change ¬ 3 = _
      omega
    rw [if_pos (show (3 : Fin 4).val = _ from hfrom.symm), if_neg hto] at hpart
    simp only [hwraps, if_true] at hsplit
    have hzero := congrArg BitVec.toNat ((BitVec.add_right_inj _).mp hsplit)
    rw [hpart, BitVec.toNat_ofNat] at hzero
    change 0 = _ at hzero
    omega
  · simp only [hwraps, if_false]
  · have hshort : toTs.toNat - fromTs.toNat < 2 ^ 32 := by
      unfold period at hspan
      omega
    have hpart : ∀ (x : BitVec 32) i, (x + BitVec.ofNat 32 (idleIn fromTs.toNat toTs.toNat i) - x).toNat =
        idleIn fromTs.toNat toTs.toNat i := by
      intro x i
      have := idleIn_le fromTs.toNat toTs.toNat i
      rw [BitVec.add_comm, BitVec.add_sub_cancel, BitVec.toNat_ofNat, Nat.mod_eq_of_lt (by omega)]
    simp only [hwraps, if_false, hpart]
    exact sum_idleIn ..

/-- An interval from the first period to the second. -/
theorem updateSlots_conserved_first : ∃ s', new.updateSlots 0xffff0 0x100010 = some s' ∧
    Conserved (new.clearedAfter 1) s'.slots 0xffff0 0x100010 := by
  obtain ⟨s', hs', hiff⟩ := updateSlots_conserved new 0xffff0 0x100010 (by decide) (by decide)
  exact ⟨s', hs', hiff.mpr (by decide)⟩

/-- The idle time of an interval from the fourth period to the fifth is lost. -/
theorem updateSlots_lost : ∃ s', new.updateSlots 0x3ffff0 0x400010 = some s' ∧ s'.slots 3 = 0 ∧ s'.slots 0 = 0 ∧
    ¬ Conserved (new.clearedAfter 4) s'.slots 0x3ffff0 0x400010 := by
  refine ⟨_, rfl, rfl, rfl, fun hconserved => ?_⟩
  exact absurd hconserved.total (by decide +kernel)

end Update

-- ---------------------------------------------------------------------------
-- The load
-- ---------------------------------------------------------------------------

section Load

variable {idleUs : BitVec 32}

theorem toNat_idleRatio (h : idleUs.toNat * 1000 < 2 ^ 32) :
    (idleUs * 1000 / usPerSlot).toNat = idleUs.toNat * 1000 / 2 ^ 20 := by
  have husPerSlot : usPerSlot.toNat = 2 ^ 20 := rfl
  rw [BitVec.toNat_udiv, BitVec.toNat_mul, husPerSlot]
  change idleUs.toNat * 1000 % 2 ^ 32 / 2 ^ 20 = _
  rw [Nat.mod_eq_of_lt h]

/-- The load is computed when the ratio of the idle time is not more than `1000`. -/
theorem slotLoad_eq (h : idleUs.toNat * 1000 / 2 ^ 20 ≤ 1000) :
    slotLoad idleUs = some
      (BitVec.ofNat 8 ((1000 - idleUs.toNat * 1000 / 2 ^ 20) / 10),
        BitVec.ofNat 8 ((1000 - idleUs.toNat * 1000 / 2 ^ 20) % 10)) := by
  have hmul : ¬ 2 ^ 32 ≤ idleUs.toNat * 1000 := by omega
  have hratio := toNat_idleRatio (Nat.lt_of_not_le hmul)
  have hle : idleUs * 1000 / usPerSlot ≤ 1000 := by
    rw [BitVec.le_def, hratio]
    exact h
  have hload : (1000 - idleUs * 1000 / usPerSlot).toNat = 1000 - idleUs.toNat * 1000 / 2 ^ 20 := by
    rw [BitVec.toNat_sub_of_le hle, hratio]
    rfl
  have hinteger : ((1000 - idleUs * 1000 / usPerSlot) / 10).setWidth 8 =
      BitVec.ofNat 8 ((1000 - idleUs.toNat * 1000 / 2 ^ 20) / 10) := by
    apply BitVec.eq_of_toNat_eq
    rw [BitVec.toNat_setWidth, BitVec.toNat_udiv, hload, BitVec.toNat_ofNat]
    rfl
  have hdecimal : ((1000 - idleUs * 1000 / usPerSlot) % 10).setWidth 8 =
      BitVec.ofNat 8 ((1000 - idleUs.toNat * 1000 / 2 ^ 20) % 10) := by
    apply BitVec.eq_of_toNat_eq
    rw [BitVec.toNat_setWidth, BitVec.toNat_umod, hload, BitVec.toNat_ofNat]
    rfl
  unfold slotLoad
  simp only [hmul, BitVec.not_lt.mpr hle, if_false, hinteger, hdecimal]

/-- A load that the report can express: `x.y` percent, at most `100.0`. -/
def LoadInRange (load : Option (BitVec 8 × BitVec 8)) : Prop :=
  ∃ x y, load = some (x, y) ∧ x.toNat * 10 + y.toNat ≤ 1000 ∧ y.toNat < 10

theorem slotLoad_inRange (h : idleUs.toNat ≤ 2 ^ 20) : LoadInRange (slotLoad idleUs) := by
  have hload : 1000 - idleUs.toNat * 1000 / 2 ^ 20 ≤ 1000 := Nat.sub_le ..
  refine ⟨_, _, slotLoad_eq (by omega), ?_⟩
  generalize 1000 - idleUs.toNat * 1000 / 2 ^ 20 = load at hload
  rw [BitVec.toNat_ofNat, BitVec.toNat_ofNat]
  omega

/-- No load is computed from a ratio of more than `1000`. -/
theorem le_of_slotLoad {x y : BitVec 8} (h : slotLoad idleUs = some (x, y)) : idleUs.toNat * 1000 / 2 ^ 20 ≤ 1000 := by
  unfold slotLoad at h
  split at h
  · cases h
  · rename_i hmul
    dsimp only at h
    split at h
    · cases h
    · rename_i hle
      rw [BitVec.not_lt, BitVec.le_def, toNat_idleRatio (Nat.lt_of_not_le hmul)] at hle
      exact hle

/-- The computed load is zero when the ratio of the idle time is `1000`. -/
theorem slotLoad_eq_zero_iff : slotLoad idleUs = some (0, 0) ↔ idleUs.toNat * 1000 / 2 ^ 20 = 1000 := by
  constructor
  · intro h
    have hle := le_of_slotLoad h
    have hload : 1000 - idleUs.toNat * 1000 / 2 ^ 20 ≤ 1000 := Nat.sub_le ..
    rw [slotLoad_eq hle, Option.some_inj, Prod.mk.injEq] at h
    have hinteger := congrArg BitVec.toNat h.1
    have hdecimal := congrArg BitVec.toNat h.2
    rw [BitVec.toNat_ofNat] at hinteger hdecimal
    change _ = 0 at hinteger hdecimal
    suffices hzero : 1000 - idleUs.toNat * 1000 / 2 ^ 20 = 0 by omega
    generalize 1000 - idleUs.toNat * 1000 / 2 ^ 20 = load at *
    omega
  · intro h
    rw [slotLoad_eq (by omega), h]
    rfl

end Load

end LoadInspector

open LoadInspector

-- ---------------------------------------------------------------------------
-- Histories
-- ---------------------------------------------------------------------------

/-- The callbacks, with the time at which the clock is read. -/
inductive Callback where
  | idleBegin (curTs : BitVec 64)
  | idleEnd (curTs : BitVec 64)

def Callback.curTs : Callback → BitVec 64
  | .idleBegin curTs | .idleEnd curTs => curTs

/-- The idle time of an interval is added to the slots. -/
def Counted (fromTime toTime : Nat) : Prop := period toTime ≤ period fromTime + 1 ∧ ¬ Wraps fromTime toTime

instance (fromTime toTime : Nat) : Decidable (Counted fromTime toTime) :=
  inferInstanceAs (Decidable (_ ∧ _))

/-- An inspector with its history. -/
structure Recording where
  inspector : LoadInspector
  /-- The number of the last period whose slot got idle time. -/
  lastPeriod : Nat
  /-- The idle intervals, from the time that was saved to the one of `idle_end`. -/
  intervals : List (Nat × Nat)

namespace Recording

def new : Recording where
  inspector := LoadInspector.new
  lastPeriod := 0
  intervals := []

/-- The saved timestamp, which is the time of the last callback. -/
def time (r : Recording) : Nat := r.inspector.idleStartTime.toNat

def step (r : Recording) : Callback → Option Recording
  | .idleBegin curTs => some { r with inspector := r.inspector.idleBegin curTs }
  | .idleEnd curTs => (r.inspector.idleEnd curTs).map fun s =>
    { inspector := s
      lastPeriod := if Counted r.time curTs.toNat then period curTs.toNat else r.lastPeriod
      intervals := r.intervals ++ [(r.time, curTs.toNat)] }

/-- The timestamps do not decrease. -/
def Later (r : Recording) (c : Callback) : Prop := r.time ≤ c.curTs.toNat

instance (r : Recording) (c : Callback) : Decidable (r.Later c) := inferInstanceAs (Decidable (_ ≤ _))

/-- A slot that gets idle time of a new period has been cleared. -/
def Fresh (r : Recording) : Callback → Prop
  | .idleBegin _ => True
  | .idleEnd curTs => Counted r.time curTs.toNat → ∀ p, r.lastPeriod < p → period r.time ≤ p →
      p ≤ period curTs.toNat → r.inspector.slots (Fin.ofNat 4 p) = 0

-- ---------------------------------------------------------------------------
-- The range of the load
-- ---------------------------------------------------------------------------

structure InRange (s : LoadInspector) : Prop where
  slots : ∀ i, (s.slots i).toNat ≤ 2 ^ 20
  load : LoadInRange s.getCpuLoad

/-- The slot of the last period holds no more than the part of the period that is over. -/
structure Inv (r : Recording) : Prop where
  slots : ∀ i, (r.inspector.slots i).toNat ≤ 2 ^ 20
  lastPeriod : r.lastPeriod ≤ period r.time
  lastSlot : r.lastPeriod = period r.time →
    (r.inspector.slots (Fin.ofNat 4 (period r.time))).toNat ≤ r.time % 2 ^ 20

variable {r r' : Recording} {c : Callback}

theorem idleStartTime_swap (s : LoadInspector) (curTs : BitVec 64) :
    (s.swapIdleStartTimestamp curTs).1.idleStartTime = curTs := by
  apply BitVec.eq_of_getLsbD_eq
  intro i hi
  simp only [swapIdleStartTimestamp, idleStartTime, BitVec.getLsbD_or, BitVec.getLsbD_shiftLeft,
    BitVec.getLsbD_setWidth, BitVec.getLsbD_ushiftRight]
  by_cases hlow : i < 32
  · simp [hlow, hi]
  · simp [hlow, hi, show i - 32 < 32 by omega, show 32 + (i - 32) = i by omega, show i - 32 < 64 by omega]

/-- A long interval clears all slots. -/
theorem step_idleEnd_long {curTs : BitVec 64} (hspan : period r.time + 2 ≤ period curTs.toNat) :
    r.step (.idleEnd curTs) = some
      { inspector :=
          { (r.inspector.swapIdleStartTimestamp curTs).1 with completelyIdle := true, slots := fun _ => 0 }
        lastPeriod := r.lastPeriod
        intervals := r.intervals ++ [(r.time, curTs.toNat)] } := by
  have hcounted : ¬ Counted r.time curTs.toNat := fun h => by
    have := h.1
    omega
  rw [step, if_neg hcounted, LoadInspector.idleEnd]
  exact congrArg (Option.map _) (updateSlots_eq_of_completelyIdle _ hspan)

theorem step_idleEnd_short {curTs : BitVec 64} (hlater : r.time ≤ curTs.toNat)
    (hspan : period curTs.toNat ≤ period r.time + 1) :
    r.step (.idleEnd curTs) = some
      { inspector :=
          { (r.inspector.swapIdleStartTimestamp curTs).1 with
            slots := fun i => r.inspector.clearedAfter (period curTs.toNat) i +
              if Wraps r.time curTs.toNat then 0 else BitVec.ofNat 32 (idleIn r.time curTs.toNat i)
            recentSlotIdx := period curTs.toNat % 4 }
        lastPeriod := if Counted r.time curTs.toNat then period curTs.toNat else r.lastPeriod
        intervals := r.intervals ++ [(r.time, curTs.toNat)] } := by
  rw [step, LoadInspector.idleEnd]
  exact congrArg (Option.map _) (updateSlots_eq _ hlater hspan)

theorem clearedAfter_le (s : LoadInspector) (p : Nat) (i : Fin 4) :
    (s.clearedAfter p i).toNat ≤ (s.slots i).toNat := by
  unfold clearedAfter
  split
  · exact Nat.zero_le _
  · exact Nat.le_refl _

theorem Inv.inRange (h : r.Inv) : InRange r.inspector := by
  refine ⟨h.slots, ?_⟩
  unfold getCpuLoad
  split
  · exact ⟨0, 0, rfl, by decide, by decide⟩
  · exact slotLoad_inRange (h.slots _)

/-- The part of the current period that is over, for the slot of the last period. -/
theorem Inv.lastSlot_later (h : r.Inv) {time : Nat} (hlater : r.time ≤ time) (hp : r.lastPeriod = period time) :
    (r.inspector.slots (Fin.ofNat 4 (period time))).toNat ≤ time % 2 ^ 20 := by
  have hlast := h.lastPeriod
  have heq : period time = period r.time := by
    unfold period at *
    omega
  have hslot := h.lastSlot (by omega)
  rw [heq]
  unfold period at heq
  omega

/-- What a slot can get in an interval. -/
theorem Inv.slot_add_le (h : r.Inv) {curTs : BitVec 64} (hlater : r.time ≤ curTs.toNat)
    (hcounted : Counted r.time curTs.toNat) (hfresh : r.Fresh (.idleEnd curTs)) (i : Fin 4) :
    (r.inspector.slots i).toNat + idleIn r.time curTs.toNat i ≤
      if i.val = period curTs.toNat % 4 then curTs.toNat % 2 ^ 20 else 2 ^ 20 := by
  have hmono : period r.time ≤ period curTs.toNat := Nat.div_le_div_right hlater
  have hspan := hcounted.1
  have hlast := h.lastPeriod
  -- A slot of a period that is new, or the one of the last period.
  have hslot : ∀ p, period r.time ≤ p → p ≤ period curTs.toNat → i.val = p % 4 →
      (r.inspector.slots i).toNat ≤ if p = period r.time then r.time % 2 ^ 20 else 0 := by
    intro p hfrom hto hi
    obtain rfl : i = Fin.ofNat 4 p := Fin.ext hi
    rcases Nat.lt_or_ge r.lastPeriod p with hnew | hold
    · rw [hfresh hcounted p hnew hfrom hto]
      exact Nat.zero_le _
    · obtain rfl : p = period r.time := by omega
      rw [if_pos rfl]
      exact h.lastSlot (by omega)
  have hbound := h.slots i
  rcases Nat.lt_or_ge (period r.time) (period curTs.toNat) with hlt | hge
  · have hnext : period curTs.toNat = period r.time + 1 := by omega
    rw [idleIn_of_next hnext]
    by_cases hfrom : i.val = period r.time % 4
    · have hto : ¬ i.val = period curTs.toNat % 4 := by omega
      have hslot := hslot _ (Nat.le_refl _) hmono hfrom
      rw [if_pos rfl] at hslot
      rw [if_pos hfrom, if_neg hto, if_neg hto]
      omega
    · rw [if_neg hfrom, Nat.zero_add]
      split
      · rename_i hto
        have hslot := hslot _ hmono (Nat.le_refl _) hto
        rw [if_neg (Nat.ne_of_gt hlt)] at hslot
        omega
      · exact hbound
  · have hsame : period curTs.toNat = period r.time := by omega
    have hperiod : ∀ t, r.time ≤ t → t < curTs.toNat → period t = period r.time := by
      intro t hfrom hto
      unfold period at *
      omega
    rw [idleIn_of_period hperiod, hsame]
    split
    · rename_i hfrom
      have hslot := hslot _ (Nat.le_refl _) hmono hfrom
      rw [if_pos rfl] at hslot
      unfold period at hsame
      omega
    · exact hbound

/-- What a slot holds after an interval that is counted. -/
theorem Inv.counted_slot_le (h : r.Inv) {curTs : BitVec 64} (hlater : r.time ≤ curTs.toNat)
    (hcounted : Counted r.time curTs.toNat) (hfresh : r.Fresh (.idleEnd curTs)) (i : Fin 4) :
    (r.inspector.clearedAfter (period curTs.toNat) i +
      if Wraps r.time curTs.toNat then 0 else BitVec.ofNat 32 (idleIn r.time curTs.toNat i)).toNat ≤
      if i.val = period curTs.toNat % 4 then curTs.toNat % 2 ^ 20 else 2 ^ 20 := by
  have hadd := h.slot_add_le hlater hcounted hfresh i
  have hcleared := clearedAfter_le r.inspector (period curTs.toNat) i
  have hbound : (if i.val = period curTs.toNat % 4 then curTs.toNat % 2 ^ 20 else 2 ^ 20) ≤ 2 ^ 20 := by
    split <;> omega
  generalize (if i.val = period curTs.toNat % 4 then curTs.toNat % 2 ^ 20 else 2 ^ 20) = bound at *
  rw [if_neg hcounted.2, BitVec.toNat_add, BitVec.toNat_ofNat]
  omega

theorem Inv.step (h : r.Inv) (hlater : r.Later c) (hfresh : r.Fresh c) : ∃ r', r.step c = some r' ∧ r'.Inv := by
  have hlast := h.lastPeriod
  cases c with
  | idleBegin curTs =>
    change r.time ≤ curTs.toNat at hlater
    have htime : Recording.time { r with inspector := r.inspector.idleBegin curTs } = curTs.toNat :=
      congrArg BitVec.toNat (idleStartTime_swap _ _)
    refine ⟨_, rfl, h.slots, ?_, ?_⟩
    · rw [htime]
      exact Nat.le_trans hlast (Nat.div_le_div_right hlater)
    · rw [htime]
      exact h.lastSlot_later hlater
  | idleEnd curTs =>
    change r.time ≤ curTs.toNat at hlater
    have htime : (r.inspector.swapIdleStartTimestamp curTs).1.idleStartTime.toNat = curTs.toNat :=
      congrArg BitVec.toNat (idleStartTime_swap _ _)
    rcases Nat.lt_or_ge (period r.time + 1) (period curTs.toNat) with hlong | hshort
    · refine ⟨_, step_idleEnd_long hlong, fun i => Nat.zero_le _, ?_, fun _ => Nat.zero_le _⟩
      change r.lastPeriod ≤ period ((r.inspector.swapIdleStartTimestamp curTs).1.idleStartTime.toNat)
      rw [htime]
      omega
    · by_cases hwraps : Wraps r.time curTs.toNat
      · have hnext := hwraps.2
        refine ⟨_, step_idleEnd_short hlater hshort, fun i => ?_, ?_, fun hp => ?_⟩
        · dsimp only
          rw [if_pos hwraps]
          change (r.inspector.clearedAfter (period curTs.toNat) i + 0#32).toNat ≤ 2 ^ 20
          rw [BitVec.add_zero]
          exact Nat.le_trans (clearedAfter_le ..) (h.slots i)
        · change (if Counted r.time curTs.toNat then _ else r.lastPeriod) ≤
            period ((r.inspector.swapIdleStartTimestamp curTs).1.idleStartTime.toNat)
          rw [if_neg fun hcounted => hcounted.2 hwraps, htime]
          omega
        · change (if Counted r.time curTs.toNat then _ else r.lastPeriod) =
            period ((r.inspector.swapIdleStartTimestamp curTs).1.idleStartTime.toNat) at hp
          rw [if_neg fun hcounted => hcounted.2 hwraps, htime] at hp
          omega
      · have hcounted : Counted r.time curTs.toNat := ⟨hshort, hwraps⟩
        have hslot := h.counted_slot_le hlater hcounted hfresh
        refine ⟨_, step_idleEnd_short hlater hshort, fun i => ?_, ?_, fun _ => ?_⟩
        · refine Nat.le_trans (hslot i) ?_
          split <;> omega
        · change (if Counted r.time curTs.toNat then period curTs.toNat else _) ≤
            period ((r.inspector.swapIdleStartTimestamp curTs).1.idleStartTime.toNat)
          exact Nat.le_of_eq (by rw [if_pos hcounted, htime])
        · have hcurrent : ∀ t, t = curTs.toNat → (r.inspector.clearedAfter (period curTs.toNat) (Fin.ofNat 4 (period t)) +
              if Wraps r.time curTs.toNat then 0
              else BitVec.ofNat 32 (idleIn r.time curTs.toNat (Fin.ofNat 4 (period t)))).toNat ≤ t % 2 ^ 20 := by
            rintro t rfl
            have hslot := hslot (Fin.ofNat 4 (period curTs.toNat))
            rwa [if_pos (Fin.val_ofNat ..)] at hslot
          exact hcurrent _ htime

theorem inv_new : new.Inv where
  slots _ := Nat.zero_le _
  lastPeriod := Nat.zero_le _
  lastSlot _ := Nat.zero_le _

/-- As long as idle time of a new period goes to a slot that has been cleared, the slots and the load stay
in range. -/
theorem exec_inRange {cs : List Callback} (hlater : Run.Allowed step Later new cs)
    (hfresh : Run.Allowed step Fresh new cs) : ∃ r, Run.exec step new cs = some r ∧ InRange r.inspector := by
  have htotal : ∃ r, Run.exec step new cs = some r ∧ Inv r := by
    refine Run.exec_total Inv ?_ inv_new (hlater.and hfresh)
    exact fun h hok => h.step hok.1 hok.2
  obtain ⟨r, hrun, hinv⟩ := htotal
  exact ⟨r, hrun, hinv.inRange⟩

/-- An idle interval in two periods. -/
theorem exec_inRange_two : ∃ r, Run.exec step new [.idleBegin 0x80000, .idleEnd 0x180000] = some r ∧
    InRange r.inspector := by
  refine exec_inRange (by decide +kernel) ⟨trivial, fun r hr => ⟨?_, fun _ _ => trivial⟩⟩
  obtain rfl := Option.some.inj hr
  intro _ p _ _ _
  rfl

/-- The slot of period 0 is used again in period 4 after busy time, without having been cleared, so it holds
twice the idle time, and the load underflows. -/
theorem exec_stale : ∃ cs r, Run.Allowed step Later new cs ∧ Run.exec step new cs = some r ∧
    (r.inspector.slots 0).toNat = 2 * 0xfffff ∧ r.inspector.getCpuLoad = none ∧ ¬ InRange r.inspector := by
  have hrun : (Run.exec step new [.idleBegin 0, .idleEnd 0xfffff, .idleBegin 0x400000, .idleEnd 0x4fffff,
      .idleBegin 0x500000, .idleEnd 0x500001]).map (fun r => ((r.inspector.slots 0).toNat, r.inspector.getCpuLoad)) =
      some (2 * 0xfffff, none) := by decide +kernel
  obtain ⟨r, hrun, hr⟩ := Option.map_eq_some_iff.mp hrun
  obtain ⟨hslot, hload⟩ := Prod.mk.injEq .. ▸ hr
  refine ⟨_, r, by decide +kernel, hrun, hslot, hload, fun hrange => ?_⟩
  have := hrange.slots 0
  omega

-- ---------------------------------------------------------------------------
-- Full idleness
-- ---------------------------------------------------------------------------

/-- The interval spans two or more boundaries between periods. -/
def CompletelyIdle (v : Nat × Nat) : Prop := period v.1 + 2 ≤ period v.2

instance (v : Nat × Nat) : Decidable (CompletelyIdle v) := inferInstanceAs (Decidable (_ ≤ _))

/-- After the last interval that was completely idle, idle time has been recorded in a period that started later,
and in a period after that. -/
def Recovered (intervals : List (Nat × Nat)) : Prop :=
  ∃ pre v post, intervals = pre ++ v :: post ∧ CompletelyIdle v ∧ (∀ w ∈ post, ¬ CompletelyIdle w) ∧
    ∃ p, period v.2 < p ∧ (∃ w ∈ post, Counted w.1 w.2 ∧ period w.1 ≤ p ∧ p ≤ period w.2) ∧
      ∃ w ∈ post, Counted w.1 w.2 ∧ p < period w.2

/-- The flag says whether an interval so far was completely idle. -/
def Flagged (r : Recording) : Prop := r.inspector.completelyIdle = true ↔ ∃ v ∈ r.intervals, CompletelyIdle v

theorem flagged_step (h : r.Flagged) (hlater : r.Later c) (hstep : r.step c = some r') : r'.Flagged := by
  cases c with
  | idleBegin curTs =>
    cases hstep
    exact h
  | idleEnd curTs =>
    change r.time ≤ curTs.toNat at hlater
    rcases Nat.lt_or_ge (period r.time + 1) (period curTs.toNat) with hlong | hshort
    · rw [step_idleEnd_long hlong] at hstep
      cases hstep
      exact ⟨fun _ => ⟨_, List.mem_append_right _ (List.mem_singleton.mpr rfl), hlong⟩, fun _ => rfl⟩
    · rw [step_idleEnd_short hlater hshort] at hstep
      cases hstep
      have hnot : ¬ CompletelyIdle (r.time, curTs.toNat) := Nat.not_le_of_lt (Nat.lt_succ_of_le hshort)
      refine h.trans ?_
      simp [hnot]

/-- The report is the load of the recorded slots exactly when no interval so far was completely idle, or when
that load is zero as well; so it does not recover from full idleness. -/
theorem getCpuLoad_recovers {cs : List Callback} (hlater : Run.Allowed step Later new cs)
    (hrun : Run.exec step new cs = some r) :
    (r.inspector.getCpuLoad = slotLoad r.inspector.reportedSlot ↔
      (∀ v ∈ r.intervals, ¬ CompletelyIdle v) ∨ r.inspector.reportedSlot.toNat * 1000 / 2 ^ 20 = 1000) ∧
    (Recovered r.intervals → (r.inspector.getCpuLoad = slotLoad r.inspector.reportedSlot ↔
      r.inspector.reportedSlot.toNat * 1000 / 2 ^ 20 = 1000)) := by
  have hflagged : r.Flagged := Run.exec_inv_of_allowed Flagged flagged_step
    ⟨fun h => (Bool.false_ne_true h).elim, fun ⟨_, hv, _⟩ => absurd hv List.not_mem_nil⟩ hlater hrun
  have hiff : r.inspector.getCpuLoad = slotLoad r.inspector.reportedSlot ↔
      (∀ v ∈ r.intervals, ¬ CompletelyIdle v) ∨ r.inspector.reportedSlot.toNat * 1000 / 2 ^ 20 = 1000 := by
    have hnone : (∀ v ∈ r.intervals, ¬ CompletelyIdle v) ↔ ¬ r.inspector.completelyIdle = true := by
      rw [hflagged.not]
      simp
    rw [hnone, ← slotLoad_eq_zero_iff, getCpuLoad]
    by_cases hidle : r.inspector.completelyIdle = true
    · simp only [hidle, if_true, not_true_eq_false, false_or]
      exact eq_comm
    · simp [hidle]
  refine ⟨hiff, fun hrecovered => hiff.trans ?_⟩
  obtain ⟨pre, v, post, heq, hv, -⟩ := hrecovered
  refine or_iff_right fun hnone => hnone v ?_ hv
  rw [heq]
  exact List.mem_append_right _ (List.mem_cons_self ..)

/-- A period without load after full idleness. -/
theorem getCpuLoad_recovers_idle : ∃ cs r, Run.exec step new cs = some r ∧ Recovered r.intervals ∧
    r.inspector.getCpuLoad = slotLoad r.inspector.reportedSlot := by
  have hrun : (Run.exec step new [.idleBegin 0, .idleEnd 0x200000, .idleBegin 0x500000, .idleEnd 0x600010]).map
      (fun r => (r.inspector.reportedSlot.toNat, r.intervals)) =
      some (2 ^ 20, [(0, 0x200000), (0x500000, 0x600010)]) := by decide +kernel
  obtain ⟨r, hrun, hr⟩ := Option.map_eq_some_iff.mp hrun
  obtain ⟨hslot, hintervals⟩ := Prod.mk.injEq .. ▸ hr
  have hrecovered : Recovered r.intervals := by
    rw [hintervals]
    exact ⟨[], _, _, rfl, by decide, by decide, 5, by decide, by decide, by decide⟩
  have hfull : r.inspector.reportedSlot.toNat * 1000 / 2 ^ 20 = 1000 := by
    show _ = 2 ^ 20 * 1000 / 2 ^ 20
    rw [hslot]
  exact ⟨_, r, hrun, hrecovered, ((getCpuLoad_recovers (by decide +kernel) hrun).2 hrecovered).mpr hfull⟩

/-- After full idleness the CPU is busy for half of period 5, but the report is a load of zero. -/
theorem getCpuLoad_sticky : ∃ cs r, Run.Allowed step Later new cs ∧ Run.exec step new cs = some r ∧
    Recovered r.intervals ∧ slotLoad r.inspector.reportedSlot = some (50, 0) ∧
    r.inspector.getCpuLoad = some (0, 0) := by
  have hrun : (Run.exec step new [.idleBegin 0, .idleEnd 0x200000, .idleBegin 0x500000, .idleEnd 0x580000,
      .idleBegin 0x600000, .idleEnd 0x600010]).map
      (fun r => (slotLoad r.inspector.reportedSlot, r.inspector.getCpuLoad, r.intervals)) =
      some (some (50, 0), some (0, 0), [(0, 0x200000), (0x500000, 0x580000), (0x600000, 0x600010)]) := by decide +kernel
  obtain ⟨r, hrun, hr⟩ := Option.map_eq_some_iff.mp hrun
  obtain ⟨hload, hrest⟩ := Prod.mk.injEq .. ▸ hr
  obtain ⟨hreport, hintervals⟩ := Prod.mk.injEq .. ▸ hrest
  refine ⟨_, r, by decide +kernel, hrun, ?_, hload, hreport⟩
  rw [hintervals]
  exact ⟨[], _, _, rfl, by decide, by decide, 5, by decide, by decide, by decide⟩

end Recording

end Hopter.Debug
