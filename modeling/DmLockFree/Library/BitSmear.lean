import Mathlib.Data.Nat.Size
import Mathlib.Data.Nat.Bitwise
import Mathlib.Order.Bounds.Basic

/-!
# Filling a number with ones below its highest bit

Shifting right and combining doubles the run of ones under the highest bit;
after the run covers the number, it is one less than a power of two.
-/

set_option autoImplicit false

namespace DmLockFree.Library

/-- A number of at most `width` bits whose highest `run` bits are ones. -/
structure LeadingOnes (number width run : Nat) : Prop where
  bound : number < 2 ^ width
  ones : ∀ position, position < width → width ≤ position + run → number.testBit position = true

theorem LeadingOnes.of_size (number : Nat) : LeadingOnes number number.size 1 where
  bound := Nat.lt_size_self number
  ones position below top := by
    have last : position + 1 = number.size := by omega
    have large : 2 ^ position ≤ number := Nat.lt_size.mp (by omega)
    have small : number < 2 ^ (position + 1) := last ▸ Nat.lt_size_self number
    rw [Nat.testBit_eq_decide_div_mod_eq, decide_eq_true_eq]
    have quotient : number / 2 ^ position = 1 := by
      rw [Nat.pow_succ] at small
      exact Nat.div_eq_of_lt_le (by omega) (by omega)
    rw [quotient]

theorem LeadingOnes.double {number width run : Nat} (leading : LeadingOnes number width run) :
    LeadingOnes (number ||| number >>> run) width (2 * run) where
  bound := Nat.or_lt_two_pow leading.bound
    ((Nat.shiftRight_le number run).trans_lt leading.bound)
  ones position below top := by
    rw [Nat.testBit_or, Nat.testBit_shiftRight, Bool.or_eq_true]
    by_cases high : width ≤ position + run
    · exact .inl (leading.ones position below high)
    · exact .inr (leading.ones (run + position) (by omega) (by omega))

theorem LeadingOnes.eq_pred_two_pow {number width run : Nat}
    (leading : LeadingOnes number width run) (covered : width ≤ run) :
    number = 2 ^ width - 1 := by
  apply Nat.eq_of_testBit_eq
  intro position
  rw [Nat.testBit_two_pow_sub_one]
  by_cases below : position < width
  · rw [leading.ones position below (by omega), decide_eq_true below]
  · have beyond : number < 2 ^ position :=
      leading.bound.trans_le (Nat.pow_le_pow_right (by decide) (by omega))
    rw [Nat.testBit_lt_two_pow beyond, decide_eq_false below]

/-- The bit length of the predecessor gives the next power of two. -/
theorem isLeast_two_pow_size {number : Nat} (positive : 0 < number) :
    IsLeast {power | (∃ exponent, power = 2 ^ exponent) ∧ number ≤ power}
      (2 ^ (number - 1).size) := by
  constructor
  · have below := Nat.lt_size_self (number - 1)
    exact ⟨⟨_, rfl⟩, by omega⟩
  · intro power member
    obtain ⟨⟨exponent, rfl⟩, atLeast⟩ := member
    apply Nat.pow_le_pow_right (by decide)
    exact Nat.size_le.mpr (by omega)

end DmLockFree.Library
