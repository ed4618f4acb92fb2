import DmLockFree.Library.BitSmear

/-!
# Capacity of the byte fifos

`KFifo` and `AtomicKFifo` choose their capacity by the same computation on the
requested number of bytes.
-/

set_option autoImplicit false

namespace DmLockFree.KFifo

open Library

def roundupPowerOfTwo (v : UInt32) : UInt32 :=
  if v = 0 then 0
  else
    let n := v - 1
    let n := n ||| n >>> 1
    let n := n ||| n >>> 2
    let n := n ||| n >>> 4
    let n := n ||| n >>> 8
    let n := n ||| n >>> 16
    -- The `n >> 32` step is guarded by `sizeof(uint32_t) > 4` and never compiled in.
    n + 1

/-- The capacity set by both constructors; `none` is `std::invalid_argument`. -/
def chosenCapacity (requestedCapacity : UInt32) : Option UInt32 :=
  if requestedCapacity = 0 then none
  else
    let cap := roundupPowerOfTwo requestedCapacity
    some (if cap < 2 then 2 else cap)

/-- The exponent is the bit length of the predecessor; the sum wraps to zero
when that length is the whole word. -/
theorem roundupPowerOfTwo_toNat {v : UInt32} (nonzero : v ≠ 0) :
    (roundupPowerOfTwo v).toNat = 2 ^ (v - 1).toNat.size % 2 ^ 32 := by
  have filled := (LeadingOnes.of_size (v - 1).toNat).double.double.double.double.double
  have word : (v - 1).toNat.size ≤ 32 := Nat.size_le.mpr (v - 1).toNat_lt
  have ones := filled.eq_pred_two_pow (by simpa using word)
  have positive := Nat.two_pow_pos (v - 1).toNat.size
  simp only [Nat.reduceMul] at ones
  simp only [roundupPowerOfTwo, if_neg nonzero, UInt32.toNat_add, UInt32.toNat_or,
    UInt32.toNat_shiftRight, UInt32.reduceToNat, Nat.reduceMod]
  rw [ones]
  congr 1
  omega

/-- Every chosen capacity is a power of two between 2 and 2 ^ 31. -/
theorem chosenCapacity_two_pow {requestedCapacity capacity : UInt32}
    (chosen : chosenCapacity requestedCapacity = some capacity) :
    ∃ exponent, 1 ≤ exponent ∧ exponent ≤ 31 ∧ capacity.toNat = 2 ^ exponent := by
  unfold chosenCapacity at chosen
  split at chosen
  case isTrue => cases chosen
  case isFalse nonzero =>
      cases chosen
      split
      case isTrue => exact ⟨1, by omega, by omega, rfl⟩
      case isFalse large =>
          have value := roundupPowerOfTwo_toNat nonzero
          have atLeast : 2 ≤ (roundupPowerOfTwo requestedCapacity).toNat :=
            UInt32.le_iff_toNat_le.mp (UInt32.not_lt.mp large)
          have word : (requestedCapacity - 1).toNat.size ≤ 32 :=
            Nat.size_le.mpr (requestedCapacity - 1).toNat_lt
          generalize (requestedCapacity - 1).toNat.size = exponent at value word
          have notZero : exponent ≠ 0 := by rintro rfl; simp at value; omega
          have notWord : exponent ≠ 32 := by rintro rfl; simp at value; omega
          refine ⟨exponent, by omega, by omega, ?_⟩
          rw [value, Nat.mod_eq_of_lt (Nat.pow_lt_pow_right (by decide) (by omega))]

theorem chosenCapacity_toNat {requestedCapacity : UInt32} (nonzero : requestedCapacity ≠ 0)
    (fits : requestedCapacity.toNat ≤ 2 ^ 31) :
    ∃ capacity, chosenCapacity requestedCapacity = some capacity ∧
      capacity.toNat = 2 ^ (max 2 requestedCapacity.toNat - 1).size := by
  have value := roundupPowerOfTwo_toNat nonzero
  have positive : requestedCapacity.toNat ≠ 0 := fun zero => nonzero (UInt32.toNat_inj.mp zero)
  have pred : (requestedCapacity - 1).toNat = requestedCapacity.toNat - 1 :=
    UInt32.toNat_sub_of_le requestedCapacity 1
      (UInt32.le_iff_toNat_le.mpr (Nat.one_le_iff_ne_zero.mpr positive))
  have word : (requestedCapacity.toNat - 1).size ≤ 31 := Nat.size_le.mpr (by omega)
  rw [pred, Nat.mod_eq_of_lt (Nat.pow_lt_pow_right (by decide) (by omega))] at value
  rw [chosenCapacity, if_neg nonzero]
  refine ⟨_, rfl, ?_⟩
  by_cases one : requestedCapacity.toNat = 1
  · have clamped : roundupPowerOfTwo requestedCapacity < 2 := by
      rw [UInt32.lt_iff_toNat_lt, value, one]
      decide
    rw [if_pos clamped, one]
    rfl
  · have least := (isLeast_two_pow_size (by omega : 0 < requestedCapacity.toNat)).1.2
    have large : ¬roundupPowerOfTwo requestedCapacity < 2 := by
      rw [UInt32.lt_iff_toNat_lt, value]
      simp only [UInt32.reduceToNat]
      omega
    rw [if_neg large, value, max_eq_right (by omega)]

/-- Above `2 ^ 31` the next power of two wraps to zero, and the clamp hides it. -/
theorem chosenCapacity_wraps {requestedCapacity : UInt32}
    (above : 2 ^ 31 < requestedCapacity.toNat) : chosenCapacity requestedCapacity = some 2 := by
  have nonzero : requestedCapacity ≠ 0 := by
    intro same
    subst same
    exact absurd above (by decide)
  have value := roundupPowerOfTwo_toNat nonzero
  have pred : (requestedCapacity - 1).toNat = requestedCapacity.toNat - 1 :=
    UInt32.toNat_sub_of_le requestedCapacity 1 (UInt32.le_iff_toNat_le.mpr (by
      simp only [UInt32.reduceToNat]; omega))
  have low : 31 < (requestedCapacity.toNat - 1).size := Nat.lt_size.mpr (by omega)
  have high : (requestedCapacity.toNat - 1).size ≤ 32 :=
    Nat.size_le.mpr (by have := requestedCapacity.toNat_lt; omega)
  have whole : (requestedCapacity.toNat - 1).size = 32 := by omega
  rw [pred, whole, Nat.mod_self] at value
  rw [chosenCapacity, if_neg nonzero]
  have wrapped : roundupPowerOfTwo requestedCapacity < 2 := by
    rw [UInt32.lt_iff_toNat_lt, value]
    decide
  simp only [if_pos wrapped]

end DmLockFree.KFifo
