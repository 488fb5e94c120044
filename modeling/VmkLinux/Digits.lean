/-
  VmkLinux/Digits.lean
  ====================
  **Digits of a number to a base.**

  The numbers that have all digits from the place `l` on in common are a block of `B ^ l`
  numbers: those with the same `j / B ^ l`.  A block for `l + 1` falls into blocks for `l`,
  one for each digit in the place `l`, in the order of their digits.
-/
import Mathlib.Algebra.Group.Int.Defs
import Mathlib.Algebra.Group.Nat.Defs
import Mathlib.Data.Nat.Bitwise

namespace VmkLinux.Digits

variable {B l i j : Nat}

/-- What is above a digit, and the digit. -/
theorem div_pow_succ (B l j : Nat) : j / B ^ (l + 1) = j / B ^ l / B := by
  rw [Nat.pow_succ, Nat.div_div_eq_div_mul]

/-- The places up to `l`: those below, and the digit in the place `l`. -/
theorem mod_pow_succ_eq_iff :
    j % B ^ (l + 1) = i % B ^ (l + 1) ↔
      j % B ^ l = i % B ^ l ∧ j / B ^ l % B = i / B ^ l % B := by
  constructor
  · intro h
    refine ⟨?_, ?_⟩
    · have hdvd : B ^ l ∣ B ^ (l + 1) := Nat.pow_dvd_pow B (Nat.le_succ l)
      rw [← Nat.mod_mod_of_dvd j hdvd, h, Nat.mod_mod_of_dvd i hdvd]
    · have hdigit : ∀ k, k / B ^ l % B = k % B ^ (l + 1) / B ^ l := fun k => by
        rw [Nat.pow_succ, Nat.mod_mul_right_div_self]
      rw [hdigit j, hdigit i, h]
  · rintro ⟨hlow, hdigit⟩
    rw [Nat.mod_pow_succ, Nat.mod_pow_succ, hlow, hdigit]

/-- The blocks in a block come in the order of their digits. -/
theorem digit_le (hblock : j / B ^ (l + 1) = i / B ^ (l + 1)) (hle : j ≤ i) :
    j / B ^ l % B ≤ i / B ^ l % B := by
  rw [div_pow_succ, div_pow_succ] at hblock
  have hdiv : j / B ^ l ≤ i / B ^ l := Nat.div_le_div_right hle
  have hj := Nat.div_add_mod (j / B ^ l) B
  have hi := Nat.div_add_mod (i / B ^ l) B
  rw [hblock] at hj
  omega

/-- A block in a block is known by its digit. -/
theorem block_eq (hblock : j / B ^ (l + 1) = i / B ^ (l + 1))
    (hdigit : j / B ^ l % B = i / B ^ l % B) : j / B ^ l = i / B ^ l := by
  rw [div_pow_succ, div_pow_succ] at hblock
  rw [← Nat.div_add_mod (j / B ^ l) B, hblock, hdigit, Nat.div_add_mod]

/-- Larger blocks are made of whole blocks. -/
theorem block_mono {k : Nat} (hblock : j / B ^ l = i / B ^ l) (hle : l ≤ k) :
    j / B ^ k = i / B ^ k := by
  rw [← Nat.add_sub_cancel' hle, Nat.pow_add, ← Nat.div_div_eq_div_mul,
    ← Nat.div_div_eq_div_mul, hblock]

/-- Taking one digit out and putting another in. -/
theorem xor_replace {b y m : Nat} (hm : m < 2 ^ b) :
    y ^^^ y % 2 ^ b ^^^ m = 2 ^ b * (y / 2 ^ b) + m := by
  apply Nat.eq_of_testBit_eq
  intro k
  rw [Nat.testBit_two_pow_mul_add _ hm, Nat.testBit_xor, Nat.testBit_xor,
    Nat.testBit_mod_two_pow, Nat.testBit_div_two_pow]
  by_cases hk : k < b
  · simp [hk]
  · have hmk : m.testBit k = false :=
      Nat.testBit_lt_two_pow (Nat.lt_of_lt_of_le hm (Nat.pow_le_pow_right (by omega) (by omega)))
    have hkb : k - b + b = k := by omega
    simp [hk, hmk, hkb]

end VmkLinux.Digits
