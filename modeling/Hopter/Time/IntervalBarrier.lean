-- SUMMARY: Wake-up ticks across the wrap of the tick counter, and the interval barrier, which does not drift.
import Hopter.Time.Tick

/-!
# Wake-up ticks and the interval barrier

`sleep_ms`, `IntervalBarrier` and the deadline of `wait_until_timeout`, from `src/time/mod.rs` and
`src/sync/mailbox.rs`. Some of the sums are computed with `wrapping_add`, and some with `+`, which
panics on overflow in builds with overflow checks. A function that loads `TICKS` takes the loaded
values as arguments.
-/

namespace Hopter.Time

/-- Plain `+`. `none` is a panic, in a build with overflow checks. -/
def plainAdd (checks : Bool) (a b : BitVec 32) : Option (BitVec 32) :=
  if checks = true ∧ 2 ^ 32 ≤ a.toNat + b.toNat then none else some (a + b)

inductive SleepError where
  | tooLong
  deriving DecidableEq

/-- What a call of `sleep_ms_unchecked` does. -/
structure Slept where
  wakeAtTick : Tick
  /-- The task is put to sleep. -/
  blocks : Bool

/-- `sleep_ms_unchecked`. -/
def sleepMsUnchecked (checks : Bool) (sleepBeginTick nowTick : Tick) (ms : BitVec 32) : Option Slept :=
  (plainAdd checks sleepBeginTick ms).map fun wakeAtTick => ⟨wakeAtTick, tickCmp nowTick wakeAtTick == .lt⟩

/-- `sleep_ms`. -/
def sleepMs (checks : Bool) (sleepBeginTick nowTick : Tick) (ms : BitVec 32) : Option (Except SleepError Slept) :=
  if 2 ^ 31 - 1 < ms.toNat then some (.error .tooLong)
  else (sleepMsUnchecked checks sleepBeginTick nowTick ms).map .ok

/-- The tick at which `wait_until_timeout` gives up. -/
def timeoutTick (checks : Bool) (tick : Tick) (timeoutMs : BitVec 32) : Option Tick := plainAdd checks tick timeoutMs

structure IntervalBarrier where
  intervalMs : BitVec 32
  nextTickToWake : Tick

namespace IntervalBarrier

def new (ticks : Tick) (intervalMs : BitVec 32) : Except SleepError IntervalBarrier :=
  if 2 ^ 31 - 1 < intervalMs.toNat then .error .tooLong else .ok ⟨intervalMs, ticks + intervalMs⟩

/-- What `wait` passes to `sleep_ms_unchecked`, when it calls it. -/
def msToSleep (b : IntervalBarrier) (curTick : Tick) : Option (BitVec 32) :=
  if tickCmp curTick b.nextTickToWake = .lt then some (b.nextTickToWake - curTick) else none

/-- The end of `wait`. -/
def advance (b : IntervalBarrier) : IntervalBarrier :=
  { b with nextTickToWake := b.nextTickToWake + b.intervalMs }

/-- `wait`. -/
def wait (checks : Bool) (b : IntervalBarrier) (curTick sleepBeginTick nowTick : Tick) :
    Option (IntervalBarrier × Option Slept) :=
  match b.msToSleep curTick with
  | some ms => (sleepMsUnchecked checks sleepBeginTick nowTick ms).map fun slept => (b.advance, some slept)
  | none => some (b.advance, none)

end IntervalBarrier

-- ---------------------------------------------------------------------------
-- The wrap
-- ---------------------------------------------------------------------------

theorem add_eq_of (a b : BitVec 32) : a + b = Tick.of (a.toNat + b.toNat) := by
  rw [Tick.of, BitVec.ofNat_add, BitVec.ofNat_toNat, BitVec.ofNat_toNat]
  simp

/-- With overflow checks a sum is right as long as it does not wrap. -/
theorem plainAdd_eq_some_iff (a b : BitVec 32) :
    plainAdd true a b = some (Tick.of (a.toNat + b.toNat)) ↔ a.toNat + b.toNat < 2 ^ 32 := by
  unfold plainAdd
  split
  · rename_i h
    simp only [reduceCtorEq, false_iff]
    omega
  · rename_i h
    rw [add_eq_of]
    simp only [true_and] at h
    simp only [true_iff]
    omega

/-- A sleep until the given time, as `sleep_ms_unchecked` sees it when it loads `nowTick`. -/
def Slept.until (nowTick : Tick) (time : Nat) : Slept := ⟨Tick.of time, tickCmp nowTick (Tick.of time) == .lt⟩

theorem sleepMsUnchecked_eq_some_iff (sleepBeginTick nowTick ms : BitVec 32) :
    sleepMsUnchecked true sleepBeginTick nowTick ms = some (.until nowTick (sleepBeginTick.toNat + ms.toNat)) ↔
      sleepBeginTick.toNat + ms.toNat < 2 ^ 32 := by
  rw [← plainAdd_eq_some_iff, sleepMsUnchecked, Option.map_eq_some_iff]
  constructor
  · rintro ⟨wakeAtTick, hadd, hslept⟩
    exact hadd.trans (congrArg some (congrArg Slept.wakeAtTick hslept))
  · exact fun hadd => ⟨_, hadd, rfl⟩

/-- A wake-up tick in a build with overflow checks. The barrier is right, but for the sleep in `wait`, and
the others are as long as the tick counter does not wrap before the task is to wake up. -/
theorem wakeTick_wraps (tick nowTick duration : BitVec 32) (hduration : duration.toNat ≤ 2 ^ 31 - 1) :
    (sleepMs true tick nowTick duration = some (.ok (.until nowTick (tick.toNat + duration.toNat))) ↔
      tick.toNat + duration.toNat < 2 ^ 32) ∧
    (timeoutTick true tick duration = some (Tick.of (tick.toNat + duration.toNat)) ↔
      tick.toNat + duration.toNat < 2 ^ 32) ∧
    IntervalBarrier.new tick duration = .ok ⟨duration, Tick.of (tick.toNat + duration.toNat)⟩ ∧
    ∀ b : IntervalBarrier, b.advance = ⟨b.intervalMs, Tick.of (b.nextTickToWake.toNat + b.intervalMs.toNat)⟩ ∧
      (b.msToSleep tick = none → ∀ sleepBeginTick, b.wait true tick sleepBeginTick nowTick = some (b.advance, none)) ∧
      ∀ ms sleepBeginTick, b.msToSleep tick = some ms →
        (b.wait true tick sleepBeginTick nowTick =
            some (b.advance, some (.until nowTick (sleepBeginTick.toNat + ms.toNat))) ↔
          sleepBeginTick.toNat + ms.toNat < 2 ^ 32) := by
  have hnot : ¬ 2 ^ 31 - 1 < duration.toNat := by omega
  refine ⟨?_, plainAdd_eq_some_iff tick duration, ?_, fun b => ⟨?_, fun hnone _ => ?_, fun ms begin hms => ?_⟩⟩
  · rw [sleepMs, if_neg hnot, ← sleepMsUnchecked_eq_some_iff tick nowTick duration, Option.map_eq_some_iff]
    simp
  · rw [IntervalBarrier.new, if_neg hnot, add_eq_of]
  · rw [IntervalBarrier.advance, add_eq_of]
  · simp only [IntervalBarrier.wait, hnone]
  · rw [← sleepMsUnchecked_eq_some_iff begin nowTick ms]
    simp only [IntervalBarrier.wait, hms, Option.map_eq_some_iff, Prod.mk.injEq, true_and, Option.some.injEq,
      exists_eq_right]

/-- A sleep of 7 ticks at tick 100. -/
theorem wakeTick_wraps_seven : sleepMs true 100 100 7 = some (.ok ⟨107, true⟩) :=
  ((wakeTick_wraps 100 100 7 (by decide)).1).mpr (by decide)

/-- One tick before the counter wraps, `sleep_ms(1)` panics, and `IntervalBarrier` does not. -/
theorem sleepMs_panics : sleepMs true 0xffffffff 0xffffffff 1 = none ∧
    IntervalBarrier.new 0xffffffff 1 = .ok ⟨1, 0⟩ ∧
    (⟨1, 0⟩ : IntervalBarrier).wait true 0xffffffff 0xffffffff 0xffffffff = none := by
  refine ⟨by decide, rfl, by decide⟩

-- ---------------------------------------------------------------------------
-- No drift
-- ---------------------------------------------------------------------------

/-- A call of `IntervalBarrier::wait`, in absolute time. -/
structure BarrierWait where
  called : Nat
  /-- What is passed to `sleep_ms_unchecked`. -/
  ms : Option (BitVec 32)
  returned : Nat
  deriving DecidableEq

/-- The calls of a task that waits again the given number of ticks after it has returned, in a build
without overflow checks. The three loads of `TICKS` in a call see the same tick. A task that is put to
sleep for `n` ticks is assumed to wake up `n` ticks later. -/
def barrierWaits (b : IntervalBarrier) (clock : Nat) : List Nat → List BarrierWait
  | [] => []
  | delay :: delays =>
    let called := clock + delay
    let ms := b.msToSleep (Tick.of called)
    match b.wait false (Tick.of called) (Tick.of called) (Tick.of called) with
    | none => []
    | some (b', slept) =>
      let returned := if slept.any Slept.blocks = true then called + (ms.map BitVec.toNat).getD 0 else called
      ⟨called, ms, returned⟩ :: barrierWaits b' returned delays

/-- The distance of two absolute times. -/
theorem toNat_of_sub_of {a b : Nat} (hab : a ≤ b) (hba : b < a + 2 ^ 32) :
    (Tick.of b - Tick.of a).toNat = b - a := by
  rw [Tick.of, Tick.of, BitVec.toNat_sub, BitVec.toNat_ofNat, BitVec.toNat_ofNat]
  omega

/-- The call that is made at the time `called`, for a task that is to wake up at `next`. -/
def BarrierWait.at (called next : Nat) : BarrierWait where
  called := called
  ms := if called < next then some (BitVec.ofNat 32 (next - called)) else none
  returned := max called next

/-- One call, when the task is less than `2 ^ 31` ticks early or late. -/
theorem barrierWaits_cons {b : IntervalBarrier} {clock delay next : Nat} {delays : List Nat}
    (hnext : b.nextTickToWake = Tick.of next) (hearly : next < clock + delay + 2 ^ 31)
    (hlate : clock + delay < next + 2 ^ 31) :
    barrierWaits b clock (delay :: delays) =
      .at (clock + delay) next :: barrierWaits b.advance (max (clock + delay) next) delays := by
  have hcmp := tickCmp_of hlate (Nat.le_of_lt hearly)
  rw [barrierWaits, IntervalBarrier.wait, IntervalBarrier.msToSleep, hnext, hcmp]
  by_cases hlt : clock + delay < next
  · -- The task sleeps until `next`.
    have hms := toNat_of_sub_of (Nat.le_of_lt hlt) (by omega)
    have hwake : Tick.of (clock + delay) + (Tick.of next - Tick.of (clock + delay)) = Tick.of next := by bv_omega
    have hofNat : Tick.of next - Tick.of (clock + delay) = BitVec.ofNat 32 (next - (clock + delay)) := by
      rw [← hms, BitVec.ofNat_toNat, BitVec.setWidth_eq]
    have hsum : clock + delay + (next - (clock + delay)) = next := by omega
    rw [hofNat] at hms hwake
    simp only [Nat.compare_eq_lt.mpr hlt, if_true, sleepMsUnchecked, plainAdd, Bool.false_eq_true, false_and,
      if_false, Option.map_some, hwake, hcmp, beq_self_eq_true, Option.any_some, Option.getD_some, hms, hsum,
      BarrierWait.at, if_pos hlt, Nat.max_eq_right (Nat.le_of_lt hlt), hofNat]
  · have hge : ¬ compare (clock + delay) next = .lt := fun h => hlt (Nat.compare_eq_lt.mp h)
    simp only [if_neg hge, Option.any_none, Bool.false_eq_true, if_false, BarrierWait.at, if_neg hlt,
      Nat.max_eq_left (Nat.le_of_not_lt hlt)]

/-- Without overflow checks a call does not panic. -/
theorem barrierWaits_called (b : IntervalBarrier) (clock delay : Nat) (delays : List Nat) :
    ∃ w, (barrierWaits b clock (delay :: delays))[0]? = some w ∧ w.called = clock + delay := by
  rw [barrierWaits, IntervalBarrier.wait]
  cases b.msToSleep (Tick.of (clock + delay)) with
  | some ms =>
    simp only [sleepMsUnchecked, plainAdd, Bool.false_eq_true, false_and, if_false, Option.map_some]
    exact ⟨_, rfl, rfl⟩
  | none => exact ⟨_, rfl, rfl⟩

theorem BarrierWait.at_ms {called next : Nat} (hearly : next < called + 2 ^ 31) {ms : BitVec 32}
    (h : (BarrierWait.at called next).ms = some ms) : 0 < ms.toNat ∧ ms.toNat ≤ 2 ^ 31 - 1 := by
  unfold BarrierWait.at at h
  split at h
  · obtain rfl := Option.some.inj h
    rw [BitVec.toNat_ofNat]
    omega
  · cases h

/-- The calls from the one on that waits for the time `next`. -/
theorem barrierWaits_onTime {b : IntervalBarrier} {clock next : Nat} {delays : List Nat}
    (hinterval : b.intervalMs.toNat ≤ 2 ^ 31 - 1) (hnext : b.nextTickToWake = Tick.of next)
    (hearly : next ≤ clock + b.intervalMs.toNat)
    (hlate : ∀ k w, (barrierWaits b clock delays)[k]? = some w → w.called < next + k * b.intervalMs.toNat + 2 ^ 31) :
    (barrierWaits b clock delays).length = delays.length ∧
      ∀ k w, (barrierWaits b clock delays)[k]? = some w →
        w.returned = max w.called (next + k * b.intervalMs.toNat) ∧
          ∀ ms, w.ms = some ms → 0 < ms.toNat ∧ ms.toNat ≤ 2 ^ 31 - 1 := by
  induction delays generalizing b clock next with
  | nil => exact ⟨rfl, fun k w hw => by simp [barrierWaits] at hw⟩
  | cons delay delays ih =>
    have hcalled : clock + delay < next + 2 ^ 31 := by
      obtain ⟨w, hw, hcalled⟩ := barrierWaits_called b clock delay delays
      have := hlate 0 w hw
      omega
    have hnext' : b.advance.nextTickToWake = Tick.of (next + b.intervalMs.toNat) := by
      rw [IntervalBarrier.advance, hnext, Tick.of, Tick.of, BitVec.ofNat_add, BitVec.ofNat_toNat, BitVec.setWidth_eq]
    have hearly' : next < clock + delay + 2 ^ 31 := by omega
    rw [barrierWaits_cons hnext hearly' hcalled] at hlate ⊢
    have hshift : ∀ k : Nat, next + b.intervalMs.toNat + k * b.intervalMs.toNat =
        next + (k + 1) * b.intervalMs.toNat := fun k => by
      rw [Nat.add_mul, Nat.one_mul, Nat.add_assoc, Nat.add_comm b.intervalMs.toNat]
    have hearlyNext : next + b.intervalMs.toNat ≤ max (clock + delay) next + b.advance.intervalMs.toNat := by
      change _ ≤ _ + b.intervalMs.toNat
      omega
    obtain ⟨hlength, hwaits⟩ := ih (b := b.advance) hinterval hnext' hearlyNext fun k w hw => by
        have := hlate (k + 1) w hw
        change _ < _ + k * b.intervalMs.toNat + _
        rwa [hshift]
    refine ⟨by rw [List.length_cons, hlength, List.length_cons], fun k w hw => ?_⟩
    cases k with
    | zero =>
      obtain rfl := Option.some.inj hw
      exact ⟨by rw [Nat.zero_mul, Nat.add_zero]; rfl, fun ms hms => BarrierWait.at_ms (by omega) hms⟩
    | succ k =>
      obtain ⟨hreturned, hms⟩ := hwaits k w hw
      change w.returned = max w.called (next + b.intervalMs.toNat + k * b.intervalMs.toNat) at hreturned
      rw [hshift] at hreturned
      exact ⟨hreturned, hms⟩

/-- The barrier does not drift: each call returns at its multiple of the interval after the barrier has been
made, or at once when it is late. -/
theorem barrierWaits_noDrift {created : Nat} {intervalMs : BitVec 32} {b : IntervalBarrier} {delays : List Nat}
    (hnew : IntervalBarrier.new (Tick.of created) intervalMs = .ok b)
    (hlate : ∀ k w, (barrierWaits b created delays)[k]? = some w →
      w.called < created + (k + 1) * intervalMs.toNat + 2 ^ 31) :
    (barrierWaits b created delays).length = delays.length ∧
      ∀ k w, (barrierWaits b created delays)[k]? = some w →
        w.returned = max w.called (created + (k + 1) * intervalMs.toNat) ∧
          ∀ ms, w.ms = some ms → 0 < ms.toNat ∧ ms.toNat ≤ 2 ^ 31 - 1 := by
  unfold IntervalBarrier.new at hnew
  split at hnew
  · cases hnew
  · cases hnew
    have hshift : ∀ k : Nat, created + (k + 1) * intervalMs.toNat =
        created + intervalMs.toNat + k * intervalMs.toNat := fun k => by
      rw [Nat.add_mul, Nat.one_mul, Nat.add_assoc, Nat.add_comm intervalMs.toNat]
    simp only [hshift] at hlate ⊢
    refine barrierWaits_onTime (b := ⟨intervalMs, _⟩) (Nat.le_of_not_lt ‹_›) ?_ (Nat.le_refl _) hlate
    rw [Tick.of, Tick.of, BitVec.ofNat_add, BitVec.ofNat_toNat, BitVec.setWidth_eq]

/-- The task waits at once, is late by 3 ticks, and waits in time again, while the tick counter wraps. -/
theorem barrierWaits_noDrift_wrap : barrierWaits ⟨10, 4⟩ (2 ^ 32 - 6) [0, 13, 1] =
      [⟨2 ^ 32 - 6, some 10, 2 ^ 32 + 4⟩, ⟨2 ^ 32 + 17, none, 2 ^ 32 + 17⟩, ⟨2 ^ 32 + 18, some 6, 2 ^ 32 + 24⟩] ∧
    ∀ k w, (barrierWaits ⟨10, 4⟩ (2 ^ 32 - 6) [0, 13, 1])[k]? = some w →
      w.returned = max w.called (2 ^ 32 - 6 + (k + 1) * 10) := by
  have hwaits : barrierWaits ⟨10, 4⟩ (2 ^ 32 - 6) [0, 13, 1] =
      [⟨2 ^ 32 - 6, some 10, 2 ^ 32 + 4⟩, ⟨2 ^ 32 + 17, none, 2 ^ 32 + 17⟩, ⟨2 ^ 32 + 18, some 6, 2 ^ 32 + 24⟩] := by
    decide +kernel
  have hnew : IntervalBarrier.new (Tick.of (2 ^ 32 - 6)) 10 = .ok ⟨10, 4⟩ := rfl
  refine ⟨hwaits, fun k w hw => ((barrierWaits_noDrift hnew fun k w hw => ?_).2 k w hw).1⟩
  rw [hwaits] at hw
  match k, hw with
  | 0, hw | 1, hw | 2, hw =>
    cases hw
    decide

end Hopter.Time
