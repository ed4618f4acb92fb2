import Mathlib.Algebra.Order.Floor.Div
import Mathlib.Data.List.Infix
import Mathlib.Order.Bounds.Basic

/-!
# The peak of a measure over a history

The largest value that a measure of histories has taken so far, and the number
of blocks of one size that are needed to hold it.
-/

set_option autoImplicit false

namespace DmLockFree.Library

section Peak

variable {Event : Type} (measure : List Event → Nat)

/-- The largest value of the measure over all prefixes. -/
def peak (events : List Event) : Nat := (events.inits.map measure).foldr max 0

theorem foldr_max_append (values : List Nat) (last : Nat) :
    (values ++ [last]).foldr max 0 = max (values.foldr max 0) last := by
  induction values with
  | nil => exact (Nat.max_zero last).trans (Nat.zero_max last).symm
  | cons value values ih =>
      simp only [List.cons_append, List.foldr_cons, ih]
      exact (Nat.max_assoc ..).symm

@[simp] theorem peak_nil : peak measure [] = measure [] := Nat.max_zero _

@[simp] theorem peak_snoc (events : List Event) (event : Event) :
    peak measure (events ++ [event]) = max (peak measure events) (measure (events ++ [event])) := by
  have prefixes : (events ++ [event]).inits = events.inits ++ [events ++ [event]] := by
    rw [List.inits_append]
    rfl
  rw [peak, prefixes, List.map_append]
  exact foldr_max_append ..

theorem peak_isGreatest (events : List Event) :
    IsGreatest {value | ∃ earlier, earlier <+: events ∧ measure earlier = value}
      (peak measure events) := by
  induction events using List.reverseRecOn with
  | nil =>
      constructor
      · exact ⟨[], List.nil_prefix, (peak_nil measure).symm⟩
      · intro value ⟨earlier, front, same⟩
        rw [List.prefix_nil.mp front] at same
        exact same.symm.le.trans (peak_nil measure).symm.le
  | append_singleton events event ih =>
      obtain ⟨⟨earlier, front, attained⟩, bound⟩ := ih
      rw [peak_snoc]
      constructor
      · rcases le_total (peak measure events) (measure (events ++ [event])) with less | more
        · exact ⟨_, List.prefix_rfl, (max_eq_right less).symm⟩
        · exact ⟨earlier, front.trans (List.prefix_append ..),
            attained.trans (max_eq_left more).symm⟩
      · intro value ⟨other, before, same⟩
        rcases List.prefix_concat_iff.mp before with rfl | shorter
        · exact same.symm.le.trans (le_max_right ..)
        · exact (bound ⟨other, shorter, same⟩).trans (le_max_left ..)

end Peak

/-- The number of blocks is the least one, but for a first block that is always
there, that holds `top` elements. -/
structure Needed (size top blocks : Nat) : Prop where
  enough : top ≤ size * blocks
  last : blocks = 1 ∨ size * (blocks - 1) < top

section Needed

variable {size top count blocks : Nat}

theorem Needed.rise (needed : Needed size top blocks) (fits : count ≤ size * blocks) :
    Needed size (max top count) blocks where
  enough := max_le needed.enough fits
  last := needed.last.imp_right fun more => lt_of_lt_of_le more (le_max_left ..)

/-- One element more than the blocks hold takes one block more. -/
theorem Needed.grow (needed : Needed size top blocks) (positive : 0 < size) :
    Needed size (max top (size * blocks + 1)) (blocks + 1) where
  enough := by
    have enough := needed.enough
    rw [Nat.mul_succ]
    exact max_le (by omega) (by omega)
  last := .inr (lt_of_lt_of_le (Nat.lt_succ_self _) (le_max_right ..))

theorem Needed.eq (needed : Needed size top blocks)
    (positive : 0 < size) (first : 0 < blocks) : blocks = max 1 (top ⌈/⌉ size) := by
  have fits : top ⌈/⌉ size ≤ blocks := (ceilDiv_le_iff_le_mul positive).mpr needed.enough
  rcases needed.last with rfl | more
  · exact (max_eq_left fits).symm
  · have all : ¬top ⌈/⌉ size ≤ blocks - 1 := by
      rw [ceilDiv_le_iff_le_mul positive]
      exact Nat.not_le.mpr more
    have same : top ⌈/⌉ size = blocks := by omega
    rw [same, max_eq_right first]

end Needed

end DmLockFree.Library
