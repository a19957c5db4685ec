-- SUMMARY: Byte-addressed memory with little-endian loads and stores of any width, and its frame lemmas.
import Mathlib.Algebra.Group.Int.Defs
import Mathlib.Algebra.Group.Nat.Defs
import Mathlib.Data.Nat.Basic
import Mathlib.Tactic.Common

/-!
# Memory

A memory maps addresses to bytes. `load` reads `n` bytes in little-endian order
as a natural number, and `store` writes the `n` lowest bytes of a number. A load
sees a store to the same place, and it does not see a store to a disjoint range.
Everything that a proof needs about a store to another place is `store_of_lt`,
`store_of_ge`, and the `load_store_disjoint` lemmas.
-/

/-- A memory of bytes. -/
def Mem : Type := Nat → UInt8

namespace Mem

/-- Read `n` bytes from address `a`, the lowest byte first. -/
def load (m : Mem) (a : Nat) : Nat → Nat
  | 0 => 0
  | n + 1 => (m a).toNat + 256 * load m (a + 1) n

/-- Write the `n` lowest bytes of `v` to address `a`, the lowest byte first. -/
def store (m : Mem) (a n v : Nat) : Mem := fun x =>
  if a ≤ x ∧ x < a + n then UInt8.ofNat (v / 256 ^ (x - a)) else m x

/-- Write one byte. -/
def storeByte (m : Mem) (a : Nat) (b : UInt8) : Mem := fun x => if x = a then b else m x

def load32 (m : Mem) (a : Nat) : Nat := m.load a 4
def load16 (m : Mem) (a : Nat) : Nat := m.load a 2
def store32 (m : Mem) (a v : Nat) : Mem := m.store a 4 v
def store16 (m : Mem) (a v : Nat) : Mem := m.store a 2 v

/-- `m'` agrees with `m` on the addresses from `a` up to but not including `b`. -/
def AgreeOn (m m' : Mem) (a b : Nat) : Prop := ∀ x, a ≤ x → x < b → m' x = m x

theorem AgreeOn.mono {m m' : Mem} {a b a' b' : Nat} (h : m.AgreeOn m' a b)
    (ha : a ≤ a') (hb : b' ≤ b) : m.AgreeOn m' a' b' :=
  fun x hx hx' => h x (le_trans ha hx) (lt_of_lt_of_le hx' hb)

theorem AgreeOn.trans {m m' m'' : Mem} {a b : Nat} (h : m.AgreeOn m' a b)
    (h' : m'.AgreeOn m'' a b) : m.AgreeOn m'' a b :=
  fun x hx hx' => (h' x hx hx').trans (h x hx hx')

theorem AgreeOn.refl {m : Mem} {a b : Nat} : m.AgreeOn m a b := fun _ _ _ => rfl

/-! ## Loads -/

theorem load_lt (m : Mem) (a n : Nat) : m.load a n < 256 ^ n := by
  induction n generalizing a with
  | zero => simp [load]
  | succ n ih =>
    have hbyte : (m a).toNat < 256 := (m a).toNat_lt
    have hrest := ih (a + 1)
    simp only [load, Nat.pow_succ]
    omega

theorem load32_lt (m : Mem) (a : Nat) : m.load32 a < 2 ^ 32 := m.load_lt a 4

theorem load_congr {m m' : Mem} {a n : Nat} (h : m.AgreeOn m' a (a + n)) :
    m'.load a n = m.load a n := by
  induction n generalizing a with
  | zero => rfl
  | succ n ih =>
    have hhead : m' a = m a := h a le_rfl (by omega)
    have htail : m'.load (a + 1) n = m.load (a + 1) n := ih (h.mono (by omega) (by omega))
    simp only [load, hhead, htail]

theorem load32_congr {m m' : Mem} {a : Nat} (h : m.AgreeOn m' a (a + 4)) :
    m'.load32 a = m.load32 a := load_congr h

theorem load16_congr {m m' : Mem} {a : Nat} (h : m.AgreeOn m' a (a + 2)) :
    m'.load16 a = m.load16 a := load_congr h

/-! ## Stores -/

theorem store_of_lt {m : Mem} {a n v x : Nat} (h : x < a) : m.store a n v x = m x := by
  have : ¬ (a ≤ x ∧ x < a + n) := by omega
  simp [store, this]

theorem store_of_ge {m : Mem} {a n v x : Nat} (h : a + n ≤ x) : m.store a n v x = m x := by
  have : ¬ (a ≤ x ∧ x < a + n) := by omega
  simp [store, this]

theorem store32_of_lt {m : Mem} {a v x : Nat} (h : x < a) : m.store32 a v x = m x :=
  store_of_lt h

theorem store32_of_ge {m : Mem} {a v x : Nat} (h : a + 4 ≤ x) : m.store32 a v x = m x :=
  store_of_ge h

/-- A store leaves every range that it does not overlap. -/
theorem agreeOn_store {m : Mem} {a n v b c : Nat} (h : c ≤ a ∨ a + n ≤ b) :
    m.AgreeOn (m.store a n v) b c := by
  intro x hb hc
  rcases h with h | h
  · exact store_of_lt (lt_of_lt_of_le hc h)
  · exact store_of_ge (le_trans h hb)

theorem agreeOn_store32 {m : Mem} {a v b c : Nat} (h : c ≤ a ∨ a + 4 ≤ b) :
    m.AgreeOn (m.store32 a v) b c := agreeOn_store h

theorem agreeOn_store16 {m : Mem} {a v b c : Nat} (h : c ≤ a ∨ a + 2 ≤ b) :
    m.AgreeOn (m.store16 a v) b c := agreeOn_store h

/-- The bytes above the first of a store are a store of the remaining bytes. -/
private theorem load_store_succ {m : Mem} {a n k v : Nat} :
    (m.store a (n + 1) v).load (a + 1) k = (m.store (a + 1) n (v / 256)).load (a + 1) k := by
  apply load_congr
  intro x hx _
  by_cases hin : x < a + (n + 1)
  · have h1 : a ≤ x ∧ x < a + (n + 1) := ⟨by omega, hin⟩
    have h2 : a + 1 ≤ x ∧ x < a + 1 + n := ⟨hx, by omega⟩
    have hexp : x - a = (x - (a + 1)) + 1 := by omega
    simp only [store, h1, h2, and_self, ite_true, hexp, Nat.pow_succ]
    rw [Nat.mul_comm, Nat.div_div_eq_div_mul]
  · rw [store_of_ge (by omega), store_of_ge (by omega)]

theorem load_store_same (m : Mem) (a n v : Nat) : (m.store a n v).load a n = v % 256 ^ n := by
  induction n generalizing a v with
  | zero => simp [load, Nat.mod_one]
  | succ n ih =>
    have hbyte : (m.store a (n + 1) v a).toNat = v % 256 := by
      have : a ≤ a ∧ a < a + (n + 1) := by omega
      simp [store, this]
    simp only [load, hbyte, load_store_succ, ih, Nat.pow_succ]
    rw [Nat.mul_comm (256 ^ n) 256, Nat.mod_mul]

theorem load32_store32_same {m : Mem} {a v : Nat} (hv : v < 2 ^ 32) :
    (m.store32 a v).load32 a = v := by
  simp only [load32, store32, load_store_same]
  exact Nat.mod_eq_of_lt hv

theorem load16_store16_same {m : Mem} {a v : Nat} (hv : v < 2 ^ 16) :
    (m.store16 a v).load16 a = v := by
  simp only [load16, store16, load_store_same]
  exact Nat.mod_eq_of_lt hv

theorem load32_store32_disjoint {m : Mem} {a b v : Nat} (h : a + 4 ≤ b ∨ b + 4 ≤ a) :
    (m.store32 b v).load32 a = m.load32 a := load32_congr (agreeOn_store32 h)

theorem load16_store32_disjoint {m : Mem} {a b v : Nat} (h : a + 2 ≤ b ∨ b + 4 ≤ a) :
    (m.store32 b v).load16 a = m.load16 a := load16_congr (agreeOn_store32 h)

theorem load16_store16_disjoint {m : Mem} {a b v : Nat} (h : a + 2 ≤ b ∨ b + 2 ≤ a) :
    (m.store16 b v).load16 a = m.load16 a := load16_congr (agreeOn_store16 h)

/-- The second of two stores to the same place wins. -/
@[simp] theorem store32_store32_same {m : Mem} {a v w : Nat} :
    (m.store32 a v).store32 a w = m.store32 a w := by
  funext x
  by_cases hx : a ≤ x ∧ x < a + 4
  · simp [store32, store, hx]
  · simp [store32, store, hx]

/-- Stores to disjoint places commute. -/
theorem store_comm {m : Mem} {a b n k v w : Nat} (h : a + n ≤ b ∨ b + k ≤ a) :
    (m.store a n v).store b k w = (m.store b k w).store a n v := by
  funext x
  by_cases ha : a ≤ x ∧ x < a + n
  · have hb : ¬ (b ≤ x ∧ x < b + k) := by omega
    simp [store, ha, hb]
  · simp [store, ha]

theorem store32_comm {m : Mem} {a b v w : Nat} (h : a + 4 ≤ b ∨ b + 4 ≤ a) :
    (m.store32 a v).store32 b w = (m.store32 b w).store32 a v := store_comm h

theorem store16_store32_comm {m : Mem} {a b v w : Nat} (h : a + 4 ≤ b ∨ b + 2 ≤ a) :
    (m.store32 a v).store16 b w = (m.store16 b w).store32 a v := store_comm h

end Mem
