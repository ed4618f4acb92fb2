import Mathlib.Data.Nat.ModEq
import Mathlib.Data.UInt

/-!
# Wrapping 32-bit counters

A 32-bit index shows an unbounded counter modulo 2 ^ 32. Differences and
offsets in a ring whose size divides the word are those of the counter.
-/

set_option autoImplicit false

namespace DmLockFree.Library

theorem UInt32.toNat_min' (left right : UInt32) :
    (min left right).toNat = min left.toNat right.toNat := by
  by_cases below : left ≤ right
  · rw [Nat.min_eq_left (UInt32.le_iff_toNat_le.mp below)]
    simp [min, below]
  · have above : right.toNat ≤ left.toNat := by
      rw [UInt32.le_iff_toNat_le] at below; omega
    rw [Nat.min_eq_right above]
    simp [min, below]

theorem UInt32.min_eq_of_not_lt {left right : UInt32} (whole : ¬ min left right < left) :
    min left right = left := by
  rw [UInt32.lt_iff_toNat_lt, UInt32.toNat_min'] at whole
  rw [← UInt32.toNat_inj, UInt32.toNat_min']
  omega

/-- The word shows the counter. -/
def Shows (word : UInt32) (counter : Nat) : Prop :=
  word.toNat = counter % 2 ^ 32

theorem Shows.zero : Shows 0 0 := rfl

theorem Shows.add {word : UInt32} {counter : Nat} (shown : Shows word counter)
    (amount : UInt32) : Shows (word + amount) (counter + amount.toNat) := by
  unfold Shows at shown ⊢
  rw [UInt32.toNat_add, shown, Nat.mod_add_mod]

/-- A difference of indices is the difference of the counters, however often
either index has wrapped. -/
theorem Shows.sub {ahead behind : UInt32} {high low : Nat} (showsHigh : Shows ahead high)
    (showsLow : Shows behind low) (ordered : low ≤ high) (close : high - low < 2 ^ 32) :
    (ahead - behind).toNat = high - low := by
  unfold Shows at showsHigh showsLow
  rw [UInt32.toNat_sub, showsHigh, showsLow]
  omega

theorem Shows.eq_iff {left right : UInt32} {high low : Nat} (showsHigh : Shows left high)
    (showsLow : Shows right low) (ordered : low ≤ high) (close : high - low < 2 ^ 32) :
    left = right ↔ high = low := by
  rw [← UInt32.toNat_inj, showsHigh, showsLow]
  omega

/-- Masking an index gives the position of the counter in the ring. -/
theorem Shows.mask {word mask : UInt32} {counter exponent : Nat} (shown : Shows word counter)
    (small : exponent ≤ 32) (ones : mask.toNat = 2 ^ exponent - 1) :
    (word &&& mask).toNat = counter % 2 ^ exponent := by
  unfold Shows at shown
  rw [UInt32.toNat_and, ones, Nat.and_two_pow_sub_one_eq_mod, shown]
  exact Nat.mod_mod_of_dvd counter (Nat.pow_dvd_pow 2 small)

end DmLockFree.Library
