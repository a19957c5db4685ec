-- SUMMARY: Unsigned 32-bit arithmetic on natural numbers: wrapping operations and the bit masks of tagged words.
import Mathlib.Data.Nat.Bitwise
import Mathlib.Tactic.Common

/-!
# Machine words

A machine word of 32 bits is a natural number below `2 ^ 32`. The wrapping
operations reduce modulo `2 ^ 32`. When the mathematical result is in range, the
lemmas below turn a wrapping operation back into the plain one, so that the
proofs can continue with `omega`.

The second half is about *tagged* words: a multiple of four with two flags in
the lowest two bits. Each mask that a program applies to such a word has one
lemma that says what the mask does to the three parts.
-/

namespace Word

/-- Addition modulo `2 ^ 32`. -/
def wadd (a b : Nat) : Nat := (a + b) % 2 ^ 32

/-- Subtraction modulo `2 ^ 32`. -/
def wsub (a b : Nat) : Nat := (a + (2 ^ 32 - b % 2 ^ 32)) % 2 ^ 32

theorem wadd_eq {a b : Nat} (h : a + b < 2 ^ 32) : wadd a b = a + b :=
  Nat.mod_eq_of_lt h

theorem wsub_eq {a b : Nat} (hle : b ≤ a) (ha : a < 2 ^ 32) : wsub a b = a - b := by
  simp only [wsub]
  omega

private theorem testBit_of_ge {w i : Nat} (hw : w < 2 ^ 32) (hi : 32 ≤ i) :
    w.testBit i = false :=
  Nat.testBit_lt_two_pow (lt_of_lt_of_le hw (Nat.pow_le_pow_right (by decide) hi))

/-- A mask that clears the `k` lowest bits rounds down to a multiple of `2 ^ k`. -/
theorem and_clearLow {w mask : Nat} (k : Nat) (hmask : mask = 2 ^ k * (2 ^ (32 - k) - 1))
    (hw : w < 2 ^ 32) (hk : k ≤ 32) : w &&& mask = 2 ^ k * (w / 2 ^ k) := by
  apply Nat.eq_of_testBit_eq
  intro i
  rw [hmask, Nat.testBit_and, Nat.testBit_two_pow_mul, Nat.testBit_two_pow_mul,
    Nat.testBit_two_pow_sub_one, Nat.testBit_div_two_pow]
  by_cases hki : k ≤ i
  · have hsub : i - k + k = i := by omega
    by_cases hi : i < 32
    · have : i - k < 32 - k := by omega
      simp [hki, this, hsub]
    · simp [hki, hsub, testBit_of_ge hw (by omega : 32 ≤ i)]
  · simp [hki]

/-! ## Tagged words -/

/-- A size that is a multiple of four, with a flag in bit 1 and a flag in bit 0. -/
def tagged (size : Nat) (hi lo : Bool) : Nat := size + 2 * hi.toNat + lo.toNat

theorem tagged_lt {size : Nat} {hi lo : Bool} (h4 : size % 4 = 0) (hs : size < 2 ^ 32) :
    tagged size hi lo < 2 ^ 32 := by
  cases hi <;> cases lo <;> simp only [tagged, Bool.toNat_true, Bool.toNat_false] <;> omega

/-- Every word is tagged: its upper part is a multiple of four, and its two
lowest bits are the flags. -/
theorem exists_tagged {w : Nat} (hw : w < 2 ^ 32) :
    ∃ size hi lo, w = tagged size hi lo ∧ size % 4 = 0 ∧ size < 2 ^ 32 := by
  refine ⟨w / 4 * 4, decide (w / 2 % 2 = 1), decide (w % 2 = 1), ?_, by omega, by omega⟩
  by_cases h1 : w / 2 % 2 = 1 <;> by_cases h0 : w % 2 = 1 <;>
    simp only [tagged, h0, h1, decide_true, decide_false, Bool.toNat_true, Bool.toNat_false] <;> omega

/-- Bit `i` of a tagged word. -/
private theorem testBit_tagged {size : Nat} {hi lo : Bool} (h4 : size % 4 = 0) (i : Nat) :
    (tagged size hi lo).testBit i =
      if i = 0 then lo else if i = 1 then hi else size.testBit i := by
  obtain ⟨q, rfl⟩ : ∃ q, size = 2 ^ 2 * q := ⟨size / 4, by omega⟩
  have hflags : 2 * hi.toNat + lo.toNat < 2 ^ 2 := by cases hi <;> cases lo <;> decide
  have hsplit : tagged (2 ^ 2 * q) hi lo = 2 ^ 2 * q + (2 * hi.toNat + lo.toNat) := by
    simp only [tagged]
    omega
  rw [hsplit, Nat.testBit_two_pow_mul_add q hflags]
  match i with
  | 0 => cases hi <;> cases lo <;> rfl
  | 1 => cases hi <;> cases lo <;> rfl
  | i + 2 =>
    have hlt : ¬ (i + 2 < 2) := by omega
    have hge : 2 ≤ i + 2 := by omega
    rw [Nat.testBit_two_pow_mul]
    simp [hlt, hge]

/-- Bit `i` of a mask that keeps the bits from 2 to 31. -/
private theorem testBit_sizeMask (i : Nat) :
    (0xFFFFFFFC : Nat).testBit i = (decide (2 ≤ i) && decide (i < 32)) := by
  have hmask : (0xFFFFFFFC : Nat) = 2 ^ 2 * (2 ^ 30 - 1) := by decide
  rw [hmask, Nat.testBit_two_pow_mul, Nat.testBit_two_pow_sub_one]
  by_cases h : 2 ≤ i
  · have : (i - 2 < 30) ↔ (i < 32) := by omega
    simp [h, this]
  · simp [h]

/-- Two tagged words with the same flags and the same size bits are equal. -/
private theorem eq_tagged {w size : Nat} {hi lo : Bool} (h4 : size % 4 = 0)
    (hw : ∀ i, w.testBit i = if i = 0 then lo else if i = 1 then hi else size.testBit i) :
    w = tagged size hi lo :=
  Nat.eq_of_testBit_eq fun i => by rw [hw i, testBit_tagged h4]

variable {size : Nat} {hi lo : Bool}

/-- Masking the flags away leaves the size. -/
@[simp] theorem tagged_and_sizeMask (h4 : size % 4 = 0) (hs : size < 2 ^ 32) :
    tagged size hi lo &&& 0xFFFFFFFC = size := by
  rw [and_clearLow 2 (by decide) (tagged_lt h4 hs) (by decide)]
  cases hi <;> cases lo <;> simp only [tagged, Bool.toNat_true, Bool.toNat_false] <;> omega

/-- Masking the size away leaves the flags. -/
@[simp] theorem tagged_and_three (h4 : size % 4 = 0) :
    tagged size hi lo &&& 3 = tagged 0 hi lo := by
  have h3 : (3 : Nat) = 2 ^ 2 - 1 := by decide
  rw [h3, Nat.and_two_pow_sub_one_eq_mod]
  cases hi <;> cases lo <;> simp only [tagged, Bool.toNat_true, Bool.toNat_false] <;> omega

/-- Joining a bare size with two flags. -/
@[simp] theorem or_tagged_zero (h4 : size % 4 = 0) :
    size ||| tagged 0 hi lo = tagged size hi lo := by
  apply eq_tagged h4
  intro i
  rw [Nat.testBit_or, testBit_tagged (by decide)]
  have h0 : size.testBit 0 = false := by rw [Nat.testBit_zero]; simp; omega
  have h1 : size.testBit 1 = false := by
    rw [Nat.testBit_eq_decide_div_mod_eq]; simp; omega
  match i with
  | 0 => simp [h0]
  | 1 => simp [h1]
  | i + 2 => simp

@[simp] theorem tagged_or_two (h4 : size % 4 = 0) :
    tagged size hi lo ||| 2 = tagged size true lo := by
  apply eq_tagged h4
  intro i
  rw [Nat.testBit_or, testBit_tagged h4, show (2 : Nat) = tagged 0 true false from rfl,
    testBit_tagged (by decide)]
  match i with
  | 0 => simp
  | 1 => simp
  | i + 2 => simp

@[simp] theorem tagged_or_one (h4 : size % 4 = 0) :
    tagged size hi lo ||| 1 = tagged size hi true := by
  apply eq_tagged h4
  intro i
  rw [Nat.testBit_or, testBit_tagged h4, show (1 : Nat) = tagged 0 false true from rfl,
    testBit_tagged (by decide)]
  match i with
  | 0 => simp
  | 1 => simp
  | i + 2 => simp

/-- A mask of 32 bits that clears flags keeps the size bits. -/
private theorem tagged_and_flagMask (hi lo : Bool) (mask : Nat) (keepHi keepLo : Bool)
    (hmask : mask = tagged 0xFFFFFFFC keepHi keepLo) (h4 : size % 4 = 0) (hs : size < 2 ^ 32) :
    tagged size hi lo &&& mask = tagged size (hi && keepHi) (lo && keepLo) := by
  apply eq_tagged h4
  intro i
  rw [hmask, Nat.testBit_and, testBit_tagged h4, testBit_tagged (by decide), testBit_sizeMask]
  match i with
  | 0 => simp
  | 1 => simp
  | i + 2 =>
    by_cases hi : i + 2 < 32
    · simp [hi]
    · simp [hi, testBit_of_ge hs (by omega : 32 ≤ i + 2)]

@[simp] theorem tagged_and_not_two (h4 : size % 4 = 0) (hs : size < 2 ^ 32) :
    tagged size hi lo &&& 0xFFFFFFFD = tagged size false lo := by
  have h := tagged_and_flagMask hi lo 0xFFFFFFFD false true rfl h4 hs
  simpa using h

@[simp] theorem tagged_and_not_one (h4 : size % 4 = 0) (hs : size < 2 ^ 32) :
    tagged size hi lo &&& 0xFFFFFFFE = tagged size hi false := by
  have h := tagged_and_flagMask hi lo 0xFFFFFFFE true false rfl h4 hs
  simpa using h

@[simp] theorem tagged_and_two (h4 : size % 4 = 0) :
    tagged size hi lo &&& 2 = 2 * hi.toNat := by
  have h : tagged size hi lo &&& 2 = tagged 0 hi false := by
    apply eq_tagged (by decide)
    intro i
    rw [Nat.testBit_and, testBit_tagged h4, show (2 : Nat) = tagged 0 true false from rfl,
      testBit_tagged (by decide)]
    match i with
    | 0 => simp
    | 1 => simp
    | i + 2 => simp
  rw [h]
  cases hi <;> rfl

@[simp] theorem tagged_and_one (h4 : size % 4 = 0) :
    tagged size hi lo &&& 1 = lo.toNat := by
  have h1 : (1 : Nat) = 2 ^ 1 - 1 := by decide
  rw [h1, Nat.and_two_pow_sub_one_eq_mod]
  cases hi <;> cases lo <;> simp only [tagged, Bool.toNat_true, Bool.toNat_false] <;> omega

end Word
