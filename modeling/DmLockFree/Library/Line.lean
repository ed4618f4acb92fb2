import Mathlib.Data.List.Basic

/-!
# Segments in line

Stations in a row, each with a list of items, the station with the highest
number in front. An item that enters at station 0, or goes on from the front of
one station to the end of the next, does not change the order of the line; an
item that leaves only drops out of it.
-/

set_option autoImplicit false

namespace DmLockFree.Library

/-- The items of the stations below `count`, front first. -/
def line {Item : Type} (segments : Nat → List Item) : Nat → List Item
  | 0 => []
  | count + 1 => segments count ++ line segments count

namespace line

variable {Item : Type} {before after : Nat → List Item} {count station : Nat}

theorem congr (same : ∀ other, other < count → after other = before other) :
    line after count = line before count := by
  induction count with
  | zero => rfl
  | succ count ih =>
      unfold line
      rw [same count (Nat.lt_succ_self count), ih]
      intro other below
      exact same other (Nat.lt_succ_of_lt below)

theorem enter {items : List Item} (positive : 0 < count)
    (first : after 0 = before 0 ++ items)
    (others : ∀ other, other ≠ 0 → after other = before other) :
    line after count = line before count ++ items := by
  induction count with
  | zero => cases positive
  | succ count ih =>
      unfold line
      cases count with
      | zero => simp [line, first]
      | succ count =>
          rw [others _ (Nat.succ_ne_zero count), ih (Nat.succ_pos count), List.append_assoc]

theorem pass {item : Item} {rest : List Item} (front : before station = item :: rest)
    (left : after station = rest) (arrived : after (station + 1) = before (station + 1) ++ [item])
    (others : ∀ other, other ≠ station → other ≠ station + 1 → after other = before other)
    (inside : station + 1 < count) : line after count = line before count := by
  induction count with
  | zero => cases inside
  | succ count ih =>
      unfold line
      by_cases top : station + 1 = count
      · subst top
        have below : line after station = line before station := by
          apply congr
          intro other less
          exact others other (Nat.ne_of_lt less) (by omega)
        unfold line
        rw [arrived, left, front, below]
        simp
      · rw [others count (by omega) (Ne.symm top), ih (by omega)]

theorem front {item : Item} {rest : List Item} (first : before station = item :: rest)
    (left : after station = rest) (others : ∀ other, other < station → after other = before other) :
    line before (station + 1) = item :: line after (station + 1) := by
  unfold line
  rw [first, left, congr others]
  rfl

theorem leave {item : Item} {rest : List Item} (first : before station = item :: rest)
    (left : after station = rest)
    (others : ∀ other, other ≠ station → other < count → after other = before other) :
    (line after count).Sublist (line before count) := by
  induction count with
  | zero => exact .slnil
  | succ count ih =>
      unfold line
      have below := ih fun other apart less => others other apart (Nat.lt_succ_of_lt less)
      by_cases top : count = station
      · subst top
        rw [first, left]
        exact (List.sublist_cons_self item rest).append below
      · rw [others count top (Nat.lt_succ_self count)]
        exact (List.Sublist.refl _).append below

end line

end DmLockFree.Library
