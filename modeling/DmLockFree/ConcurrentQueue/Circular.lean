import Mathlib.Data.Nat.Bitwise
import Mathlib.Data.UInt

/-!
# Indices of `ConcurrentQueue`

Enqueue and dequeue indices wrap around, so they are compared on the circle.
-/

set_option autoImplicit false

namespace DmLockFree.ConcurrentQueue

def BLOCK_SIZE : UInt64 := 32

/-- `details::circular_less_than`. -/
def circularLessThan (a b : UInt64) : Bool :=
  a - b > (1 : UInt64) <<< 63

/-- The index of the first element in the block of an index. -/
def blockBase (index : UInt64) : UInt64 := index &&& ~~~(BLOCK_SIZE - 1)

/-- The place of an index in its block. -/
def blockOffset (index : UInt64) : UInt64 := index &&& (BLOCK_SIZE - 1)

theorem circularLessThan_eq (a b : UInt64) :
    circularLessThan a b = true ↔ 2 ^ 63 < (a - b).toNat := by
  rw [circularLessThan, decide_eq_true_iff, gt_iff_lt, UInt64.lt_iff_toNat_lt]
  rfl

/-- On indices that are not too far apart the comparison is that of the counters. -/
theorem circularLessThan_iff {a b : Nat} (ahead : a ≤ b + 2 ^ 63) (behind : b < a + 2 ^ 63) :
    circularLessThan (.ofNat a) (.ofNat b) = true ↔ a < b := by
  rw [circularLessThan_eq, UInt64.toNat_sub, UInt64.toNat_ofNat', UInt64.toNat_ofNat']
  omega

/-- A bound that is not too far ahead of a counter is below it if the comparison says
so, however far it may be behind. -/
theorem lt_of_circularLessThan {bound counter : Nat} (close : bound ≤ counter + 2 ^ 63)
    (less : circularLessThan (.ofNat bound) (.ofNat counter) = true) : bound < counter := by
  rw [circularLessThan_eq, UInt64.toNat_sub, UInt64.toNat_ofNat', UInt64.toNat_ofNat'] at less
  omega

/-- What the difference then shows is there, and perhaps more. -/
theorem difference_le {bound counter : Nat} (close : bound ≤ counter + 2 ^ 63)
    (positive : circularLessThan 0 (.ofNat counter - .ofNat bound) = true) :
    bound < counter ∧
      (UInt64.ofNat counter - UInt64.ofNat bound).toNat ≤ counter - bound := by
  rw [circularLessThan_eq, UInt64.toNat_sub, UInt64.toNat_zero, UInt64.toNat_sub,
    UInt64.toNat_ofNat', UInt64.toNat_ofNat'] at positive
  rw [UInt64.toNat_sub, UInt64.toNat_ofNat', UInt64.toNat_ofNat']
  omega

theorem positive_iff (difference : UInt64) :
    circularLessThan 0 difference = true ↔ 0 < difference.toNat ∧ difference.toNat < 2 ^ 63 := by
  have small := difference.toNat_lt
  rw [circularLessThan_eq, UInt64.toNat_sub, UInt64.toNat_zero]
  omega

theorem blockOffset_toNat (index : Nat) : (blockOffset (.ofNat index)).toNat = index % 32 := by
  have ones : (BLOCK_SIZE - 1).toNat = 2 ^ 5 - 1 := rfl
  rw [blockOffset, UInt64.toNat_and, ones, Nat.and_two_pow_sub_one_eq_mod, UInt64.toNat_ofNat']
  omega

theorem blockOffset_eq_zero (index : Nat) : blockOffset (.ofNat index) = 0 ↔ index % 32 = 0 := by
  rw [← UInt64.toNat_inj, blockOffset_toNat, UInt64.toNat_zero]

theorem testBit_blockMask (position : Nat) :
    (2 ^ 64 - 32).testBit position = (decide (5 ≤ position) && decide (position < 64)) := by
  rw [show (2 ^ 64 - 32 : Nat) = (2 ^ 59 - 1) <<< 5 from rfl, Nat.testBit_shiftLeft,
    Nat.testBit_two_pow_sub_one]
  by_cases low : 5 ≤ position
  · simp [low]
    omega
  · simp [low]

theorem and_blockMask {number : Nat} (small : number < 2 ^ 64) :
    number &&& (2 ^ 64 - 32) = 32 * (number / 32) := by
  apply Nat.eq_of_testBit_eq
  intro position
  rw [Nat.testBit_and, testBit_blockMask, show 32 * (number / 32) = (number >>> 5) <<< 5 by
    rw [Nat.shiftLeft_eq, Nat.shiftRight_eq_div_pow, Nat.mul_comm], Nat.testBit_shiftLeft,
    Nat.testBit_shiftRight]
  by_cases low : 5 ≤ position
  · by_cases high : position < 64
    · simp [low, high]
    · rw [Nat.testBit_lt_two_pow (Nat.lt_of_lt_of_le small (Nat.pow_le_pow_right (by decide)
        (Nat.le_of_not_lt high)))]
      simp [low, Nat.testBit_lt_two_pow (Nat.lt_of_lt_of_le small
        (Nat.pow_le_pow_right (by decide) (Nat.le_of_not_lt high)))]
  · simp [low]

theorem blockBase_eq (index : Nat) : blockBase (.ofNat index) = .ofNat (32 * (index / 32)) := by
  have mask : (~~~(BLOCK_SIZE - 1)).toNat = 2 ^ 64 - 32 := rfl
  rw [← UInt64.toNat_inj, blockBase, UInt64.toNat_and, mask, and_blockMask (UInt64.toNat_lt _),
    UInt64.toNat_ofNat', UInt64.toNat_ofNat']
  omega

end DmLockFree.ConcurrentQueue
