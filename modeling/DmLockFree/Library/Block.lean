import Mathlib.Data.List.Basic

/-!
# Block copies

`memcpy` between two arrays, undefined when either range leaves its array.
-/

set_option autoImplicit false

namespace DmLockFree.Library

variable {α : Type}

/-- The array after `count` elements of `source` are written at `target`. -/
def splice (cells : List α) (target : Nat) (source : List α) (origin count : Nat) : List α :=
  cells.take target ++ ((source.drop origin).take count ++ cells.drop (target + count))

/-- `memcpy(cells + target, source + origin, count)`. -/
def memcpy (cells : List α) (target : Nat) (source : List α) (origin count : Nat) :
    Option (List α) :=
  if target + count ≤ cells.length ∧ origin + count ≤ source.length then
    some (splice cells target source origin count)
  else none

section Splice

variable {cells source : List α} {target origin count : Nat}

theorem length_splice (inside : target + count ≤ cells.length)
    (supplied : origin + count ≤ source.length) :
    (splice cells target source origin count).length = cells.length := by
  simp only [splice, List.length_append, List.length_take, List.length_drop]
  omega

theorem getElem?_splice_inside {offset : Nat} (inside : target + count ≤ cells.length)
    (supplied : origin + count ≤ source.length) (below : offset < count) :
    (splice cells target source origin count)[target + offset]? = source[origin + offset]? := by
  have front : (cells.take target).length = target := by
    rw [List.length_take]; omega
  have block : offset < ((source.drop origin).take count).length := by
    rw [List.length_take, List.length_drop]; omega
  rw [splice, List.getElem?_append_right (by omega), front, Nat.add_sub_cancel_left,
    List.getElem?_append_left block, List.getElem?_take_of_lt below, List.getElem?_drop]

theorem getElem?_splice_outside {index : Nat} (inside : target + count ≤ cells.length)
    (supplied : origin + count ≤ source.length)
    (outside : index < target ∨ target + count ≤ index) :
    (splice cells target source origin count)[index]? = cells[index]? := by
  have front : (cells.take target).length = target := by
    rw [List.length_take]; omega
  have block : ((source.drop origin).take count).length = count := by
    rw [List.length_take, List.length_drop]; omega
  rw [splice]
  rcases outside with before | after
  · rw [List.getElem?_append_left (by omega), List.getElem?_take_of_lt before]
  · rw [List.getElem?_append_right (by omega), front,
      List.getElem?_append_right (by omega), block, List.getElem?_drop]
    congr 1
    omega

theorem drop_splice (inside : target + count ≤ cells.length)
    (supplied : origin + count ≤ source.length) :
    (splice cells target source origin count).drop (target + count) =
      cells.drop (target + count) := by
  apply List.ext_getElem?
  intro index
  rw [List.getElem?_drop, List.getElem?_drop]
  exact getElem?_splice_outside inside supplied (.inr (Nat.le_add_right _ _))

/-- What a copy does: it fails exactly when a range leaves its array. -/
theorem memcpy_eq_some_iff {result : List α} :
    memcpy cells target source origin count = some result ↔
      target + count ≤ cells.length ∧ origin + count ≤ source.length ∧
        splice cells target source origin count = result := by
  unfold memcpy
  split
  case isTrue ranges => simp [ranges.1, ranges.2]
  case isFalse ranges =>
      simp only [reduceCtorEq, false_iff]
      exact fun accepted => ranges ⟨accepted.1, accepted.2.1⟩

end Splice

section Flatten

variable {size : Nat}

/-- Blocks of one length can be told apart in their concatenation. -/
theorem prefix_of_flatten (positive : 0 < size) {front whole : List (List α)}
    (uniformFront : ∀ block ∈ front, block.length = size)
    (uniformWhole : ∀ block ∈ whole, block.length = size)
    (bytes : front.flatten <+: whole.flatten) : front <+: whole := by
  induction front generalizing whole with
  | nil => exact List.nil_prefix
  | cons block front ih =>
      have length := uniformFront block (List.mem_cons_self ..)
      cases whole with
      | nil =>
          rw [List.flatten_nil, List.prefix_nil, List.flatten_cons, List.append_eq_nil_iff] at bytes
          rw [bytes.1, List.length_nil] at length
          omega
      | cons other whole =>
          obtain ⟨rest, same⟩ := bytes
          rw [List.flatten_cons, List.flatten_cons, List.append_assoc] at same
          have lengths : block.length = other.length :=
            length.trans (uniformWhole other (List.mem_cons_self ..)).symm
          obtain ⟨rfl, behind⟩ := List.append_inj same lengths
          have shorter : front <+: whole := by
            apply ih
            · exact fun block member => uniformFront block (List.mem_cons_of_mem _ member)
            · exact fun block member => uniformWhole block (List.mem_cons_of_mem _ member)
            · exact ⟨rest, behind⟩
          exact (List.prefix_cons_inj block).mpr shorter

end Flatten

end DmLockFree.Library
