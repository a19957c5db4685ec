-- SUMMARY: Slots that are used in turn: between two uses of a slot every other slot is used once.
import Mathlib.Data.List.Nodup
import Mathlib.Data.Nat.ModEq
import Mathlib.Tactic.Common

/-!
# Round robin

The slots `0` to `n - 1` are used one after the other, and after the last one comes the first
one again.
-/

/-- The next `len` slots in turn, from the slot `start` on. -/
def roundRobin (n start len : Nat) : List Nat := (List.range' start len).map (· % n)

variable {n start len : Nat}

@[simp] theorem length_roundRobin : (roundRobin n start len).length = len := by simp [roundRobin]

theorem roundRobin_succ : roundRobin n start (len + 1) = start % n :: roundRobin n (start + 1) len := by
  simp [roundRobin, List.range'_succ]

theorem roundRobin_add (a b : Nat) :
    roundRobin n start (a + b) = roundRobin n start a ++ roundRobin n (start + a) b := by
  rw [roundRobin, ← List.range'_append_1, List.map_append]
  rfl

/-- It is the start modulo `n` that counts. -/
theorem roundRobin_mod : roundRobin n (start % n) len = roundRobin n start len := by
  induction len generalizing start with
  | zero => rfl
  | succ len ih =>
    have hnext : roundRobin n (start % n + 1) len = roundRobin n (start + 1) len := by
      rw [← ih, Nat.mod_add_mod, ih]
    rw [roundRobin_succ, roundRobin_succ, Nat.mod_mod, hnext]

/-- Fewer than `n` slots in turn are different. -/
theorem nodup_roundRobin (h : len ≤ n) : (roundRobin n start len).Nodup := by
  refine List.Nodup.map_on (fun x hx y hy hxy => ?_) (List.nodup_range' ..)
  rw [List.mem_range'_1] at hx hy
  have hmod : x ≡ y [MOD n] := hxy
  rcases Nat.le_total x y with hle | hle
  · have hdvd := (Nat.modEq_iff_dvd' hle).mp hmod
    have := Nat.eq_zero_of_dvd_of_lt hdvd (by omega)
    omega
  · have hdvd := (Nat.modEq_iff_dvd' hle).mp hmod.symm
    have := Nat.eq_zero_of_dvd_of_lt hdvd (by omega)
    omega

/-- From a use of a slot to the next one, every other slot is used once. -/
theorem roundRobin_between {pre mid post : List Nat} {i : Nat} (hn : 0 < n)
    (h : roundRobin n start len = pre ++ i :: (mid ++ i :: post)) (hmid : i ∉ mid) :
    mid.length + 1 = n ∧ mid.Nodup := by
  -- The list is cut where the given one is.
  have hlen : len = pre.length + (1 + (mid.length + (1 + post.length))) := by
    have := congrArg List.length h
    simp only [length_roundRobin, List.length_append, List.length_cons] at this
    omega
  rw [hlen, roundRobin_add, roundRobin_add, roundRobin_add, roundRobin_add] at h
  obtain ⟨-, h⟩ := List.append_inj h (by simp)
  obtain ⟨hfirst, h⟩ := List.append_inj (show _ = [i] ++ _ from h) (by simp)
  obtain ⟨hbetween, h⟩ := List.append_inj h (by simp)
  obtain ⟨hsecond, -⟩ := List.append_inj (show _ = [i] ++ _ from h) (by simp)
  simp only [roundRobin, List.range'_one, List.map_cons, List.map_nil, List.cons.injEq, and_true]
    at hfirst hsecond
  -- The slot comes again after `n` steps, and not before.
  have hlt : mid.length < n := by
    by_contra hge
    refine hmid ?_
    rw [← hbetween, roundRobin, List.mem_map]
    exact ⟨start + pre.length + n, by rw [List.mem_range'_1]; omega, by rw [Nat.add_mod_right, hfirst]⟩
  have hdvd : n ∣ mid.length + 1 := by
    have hmod : start + pre.length ≡ start + pre.length + 1 + mid.length [MOD n] := hfirst.trans hsecond.symm
    have := (Nat.modEq_iff_dvd' (by omega)).mp hmod
    rwa [show start + pre.length + 1 + mid.length - (start + pre.length) = mid.length + 1 by omega] at this
  refine ⟨Nat.le_antisymm hlt (Nat.le_of_dvd (Nat.succ_pos _) hdvd), ?_⟩
  rw [← hbetween]
  exact nodup_roundRobin (Nat.le_of_lt hlt)
