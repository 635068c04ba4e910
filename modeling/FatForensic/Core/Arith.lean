import Mathlib.Tactic

/-!
# Machine integers

The crate computes offsets and sizes in `u32`, `u64` and `usize` (64 bits wide).  The model
computes them in `ℕ`; the operations whose result depends on the width are defined here, in
the words of the standard library.
-/

namespace FatForensic

/-- `u64::checked_add`. -/
def checkedAdd (a b : ℕ) : Option ℕ := if a + b < 2 ^ 64 then some (a + b) else none

/-- `u64::checked_mul`. -/
def checkedMul (a b : ℕ) : Option ℕ := if a * b < 2 ^ 64 then some (a * b) else none

/-- `u64::saturating_add`. -/
def saturatingAdd (a b : ℕ) : ℕ := min (a + b) (2 ^ 64 - 1)

/-- `u32::saturating_add`. -/
def saturatingAdd32 (a b : ℕ) : ℕ := min (a + b) (2 ^ 32 - 1)

/-- `u32::try_from(x).unwrap_or(u32::MAX)`. -/
def u32OrMax (x : ℕ) : ℕ := if x < 2 ^ 32 then x else 2 ^ 32 - 1

/-- `u16::try_from(i).unwrap_or(u16::MAX)`. -/
def u16OrMax (i : ℕ) : UInt16 := if i < 2 ^ 16 then UInt16.ofNat i else 0xFFFF

/-- `u64::div_ceil`. -/
def divCeil (a b : ℕ) : ℕ := if a % b = 0 then a / b else a / b + 1

/-- `u32::is_power_of_two`. -/
def isPowerOfTwo (n : ℕ) : Prop := 2 ^ n.log2 = n

instance (n : ℕ) : Decidable (isPowerOfTwo n) := inferInstanceAs (Decidable (_ = _))

lemma checkedAdd_of_lt {a b : ℕ} (h : a + b < 2 ^ 64) : checkedAdd a b = some (a + b) := by
  rw [checkedAdd, if_pos h]

lemma checkedMul_of_lt {a b : ℕ} (h : a * b < 2 ^ 64) : checkedMul a b = some (a * b) := by
  rw [checkedMul, if_pos h]

lemma u32OrMax_lt (x : ℕ) : u32OrMax x < 2 ^ 32 := by
  unfold u32OrMax
  split <;> omega

lemma u32OrMax_le (x : ℕ) : u32OrMax x ≤ x := by
  unfold u32OrMax
  split <;> omega

lemma toNat_u16OrMax (i : ℕ) : (u16OrMax i).toNat = min i 65535 := by
  rw [u16OrMax]
  split
  next h => rw [UInt16.toNat_ofNat', Nat.mod_eq_of_lt h, Nat.min_eq_left (by omega)]
  next h => rw [Nat.min_eq_right (by omega), show (0xFFFF : UInt16).toNat = 65535 by rfl]

lemma toNat_u16OrMax_of_lt {i : ℕ} (h : i < 2 ^ 16) : (u16OrMax i).toNat = i := by
  rw [toNat_u16OrMax, Nat.min_eq_left (by omega)]

/-- Two 16-bit words are the digits of one 32-bit number. -/
lemma toNat_words (hi lo : UInt16) :
    ((hi.toUInt32 <<< 16) ||| lo.toUInt32).toNat = hi.toNat * 2 ^ 16 + lo.toNat := by
  have hhi := hi.toNat_lt
  have hlo := lo.toNat_lt
  rw [UInt32.toNat_or, UInt32.toNat_shiftLeft, UInt16.toNat_toUInt32, UInt16.toNat_toUInt32,
    show (16 : UInt32).toNat % 32 = 16 by rfl, Nat.mod_eq_of_lt (by
      rw [Nat.shiftLeft_eq]
      omega), ← Nat.shiftLeft_add_eq_or_of_lt hlo, Nat.shiftLeft_eq]

/-- A 32-bit number put together from its two halves. -/
lemma or_halves (x : UInt32) :
    x.toUInt16.toUInt32 ||| ((x >>> 16).toUInt16.toUInt32 <<< 16) = x := by
  have hx := x.toNat_lt
  have hlow : x.toUInt16.toNat = x.toNat % 2 ^ 16 := by simp
  have hhigh : (x >>> 16).toUInt16.toNat = x.toNat / 2 ^ 16 := by
    simp [Nat.shiftRight_eq_div_pow]
    omega
  apply UInt32.toNat_inj.mp
  rw [UInt32.or_comm, toNat_words, hlow, hhigh]
  omega

/-- `div_ceil` rounds up: it is the least number of blocks of size `b` that hold `a`. -/
lemma divCeil_le_iff {a b n : ℕ} (hb : 0 < b) : divCeil a b ≤ n ↔ a ≤ n * b := by
  have hdiv : b * (a / b) + a % b = a := Nat.div_add_mod a b
  unfold divCeil
  split
  next h =>
    rw [← Nat.div_add_mod a b, h, Nat.add_zero, Nat.mul_comm n, Nat.mul_div_cancel_left _ hb]
    exact (Nat.mul_le_mul_left_iff hb).symm
  next h =>
    rw [Nat.succ_le_iff, Nat.div_lt_iff_lt_mul hb]
    constructor
    · exact Nat.le_of_lt
    · intro hle
      refine lt_of_le_of_ne hle ?_
      rintro rfl
      exact h (Nat.mul_mod_left n b)

lemma lt_divCeil_iff {a b n : ℕ} (hb : 0 < b) : n < divCeil a b ↔ n * b < a := by
  rw [← not_le, divCeil_le_iff hb, not_le]

lemma divCeil_pos {a b : ℕ} (hb : 0 < b) (ha : 0 < a) : 0 < divCeil a b := by
  rw [lt_divCeil_iff hb]
  omega

end FatForensic
