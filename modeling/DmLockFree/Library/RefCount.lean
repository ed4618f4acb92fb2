import Mathlib.Data.Nat.Bitwise
import Mathlib.Data.UInt

/-!
# A flag above a counter in one word

The highest bit of a 32-bit word is a flag, the other bits are a counter. As long
as the counter does not reach the flag, additions to the word act on the two
parts separately.
-/

set_option autoImplicit false

namespace DmLockFree.Library

/-- The word holds the flag and the count. -/
structure Counted (word : UInt32) (flag : Bool) (count : Nat) : Prop where
  toNat : word.toNat = count + if flag then 2 ^ 31 else 0
  small : count < 2 ^ 31

namespace Counted

variable {word amount : UInt32} {flag other : Bool} {count number : Nat}

theorem zero : Counted 0 false 0 := ⟨rfl, by decide⟩

theorem one : Counted 1 false 1 := ⟨rfl, by decide⟩

theorem ofNat (small : count < 2 ^ 31) : Counted (UInt32.ofNat count) false count := by
  refine ⟨?_, small⟩
  rw [UInt32.toNat_ofNat_of_lt' (small.trans (by decide)), if_neg Bool.false_ne_true, Nat.add_zero]

theorem mask (counted : Counted word flag count) :
    word &&& 0x7FFFFFFF = 0 ↔ count = 0 := by
  have ones : (0x7FFFFFFF : UInt32).toNat = 2 ^ 31 - 1 := rfl
  have parts := counted.toNat
  have small := counted.small
  rw [← UInt32.toNat_inj, UInt32.toNat_and, ones, Nat.and_two_pow_sub_one_eq_mod, parts,
    UInt32.toNat_zero]
  cases flag with
  | false => simp only [Bool.false_eq_true, if_false]; omega
  | true => simp only [if_true]; omega

theorem flag_eq (counted : Counted word flag count) :
    word &&& 0x80000000 = 0 ↔ flag = false := by
  have high : (0x80000000 : UInt32).toNat = 2 ^ 31 := rfl
  have parts := counted.toNat
  have small := counted.small
  rw [← UInt32.toNat_inj, UInt32.toNat_and, high, Nat.and_two_pow, parts, UInt32.toNat_zero]
  cases flag with
  | false =>
      rw [if_neg Bool.false_ne_true, Nat.add_zero, Nat.testBit_lt_two_pow small]
      simp
  | true =>
      rw [if_pos rfl, Nat.add_comm, Nat.testBit_two_pow_add_eq, Nat.testBit_lt_two_pow small]
      simp

/-- A word is determined by its two parts. -/
theorem eq_iff (counted : Counted word flag count) (named : Counted amount other number) :
    word = amount ↔ flag = other ∧ count = number := by
  have first := counted.toNat
  have second := named.toNat
  have low := counted.small
  have small := named.small
  rw [← UInt32.toNat_inj, first, second]
  cases flag <;> cases other <;> simp only [Bool.false_eq_true, if_false, if_true] <;> simp <;> omega

theorem raise (counted : Counted word false count) : Counted (word + 0x80000000) true count := by
  have parts := counted.toNat
  have small := counted.small
  refine ⟨?_, small⟩
  rw [UInt32.toNat_add, parts, if_neg Bool.false_ne_true, if_pos rfl,
    show (0x80000000 : UInt32).toNat = 2 ^ 31 from rfl]
  omega

theorem up (counted : Counted word flag count) (small : count + 1 < 2 ^ 31) :
    Counted (word + 1) flag (count + 1) := by
  have parts := counted.toNat
  refine ⟨?_, small⟩
  rw [UInt32.toNat_add, parts, UInt32.toNat_one]
  split <;> omega

theorem down (counted : Counted word flag (count + 1)) : Counted (word - 1) flag count := by
  have parts := counted.toNat
  have small := counted.small
  refine ⟨?_, by omega⟩
  rw [UInt32.toNat_sub, parts, UInt32.toNat_one]
  split <;> omega

theorem downTwo (counted : Counted word flag (count + 2)) : Counted (word - 2) flag count := by
  have parts := counted.toNat
  have small := counted.small
  refine ⟨?_, by omega⟩
  rw [UInt32.toNat_sub, parts, show (2 : UInt32).toNat = 2 from rfl]
  split <;> omega

/-- One count is given back and the flag is set, in one addition. -/
theorem trade (counted : Counted word false (count + 1)) :
    Counted (word + (0x80000000 - 1)) true count := by
  have parts := counted.toNat
  have small := counted.small
  refine ⟨?_, by omega⟩
  rw [UInt32.toNat_add, parts, if_neg Bool.false_ne_true, if_pos rfl,
    show (0x80000000 - 1 : UInt32).toNat = 2 ^ 31 - 1 from rfl]
  omega

end Counted

end DmLockFree.Library
