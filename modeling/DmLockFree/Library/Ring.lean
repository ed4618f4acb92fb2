import Mathlib.Data.Nat.ModEq
import DmLockFree.Library.Block

/-!
# Rings addressed by unbounded counters

A ring of `size` cells is used through two counters that only grow. Cell
`index % size` holds element `index` of the stream while `index` lies between
them; two indices of one window never share a cell.
-/

set_option autoImplicit false

namespace DmLockFree.Library.Ring

variable {α : Type}

theorem mod_ne_of_window {size first second : Nat} (ordered : first < second)
    (close : second < first + size) : first % size ≠ second % size := by
  intro same
  have divides : size ∣ second - first := (Nat.modEq_iff_dvd' ordered.le).mp same
  have atLeast := Nat.le_of_dvd (by omega) divides
  omega

/-- A window has distinct cells, whichever index is the larger. -/
theorem eq_of_mod_eq {size low first second : Nat} (same : first % size = second % size)
    (lowFirst : low ≤ first) (highFirst : first < low + size)
    (lowSecond : low ≤ second) (highSecond : second < low + size) : first = second := by
  rcases Nat.lt_trichotomy first second with ordered | equal | ordered
  · exact absurd same (mod_ne_of_window ordered (by omega))
  · exact equal
  · exact absurd same.symm (mod_ne_of_window ordered (by omega))

/-- An index of the first cell's window is at that cell only for none or all of
the window. -/
theorem mod_eq_first_iff {size first used : Nat} (inside : first < size) (fits : used ≤ size) :
    (first + used) % size = first ↔ used = 0 ∨ used = size := by
  constructor
  · intro same
    by_contra between
    have apart := @mod_ne_of_window size first (first + used) (by omega) (by omega)
    rw [Nat.mod_eq_of_lt inside] at apart
    exact apart same.symm
  · rintro (rfl | rfl)
    · exact Nat.mod_eq_of_lt inside
    · rw [Nat.add_mod_right, Nat.mod_eq_of_lt inside]

theorem add_mod_of_lt {size index offset : Nat} (fits : index % size + offset < size) :
    (index + offset) % size = index % size + offset := by
  rw [Nat.add_mod, Nat.mod_eq_of_lt (a := offset) (by omega), Nat.mod_eq_of_lt fits]

theorem add_mod_end (index : Nat) {size : Nat} (positive : 0 < size) :
    (index + (size - index % size)) % size = 0 := by
  have below := Nat.mod_lt index positive
  rw [← Nat.mod_add_mod, Nat.add_sub_cancel' below.le, Nat.mod_self]

theorem exists_offset {size position : Nat} (first : Nat) (inside : position < size) :
    ∃ offset, offset < size ∧ (first + offset) % size = position := by
  have below := Nat.mod_lt first (Nat.zero_lt_of_lt inside)
  refine ⟨(position + (size - first % size)) % size, Nat.mod_lt _ (by omega), ?_⟩
  rw [Nat.add_mod_mod, ← Nat.mod_add_mod,
    show first % size + (position + (size - first % size)) = position + size by omega,
    Nat.add_mod_right, Nat.mod_eq_of_lt inside]

theorem offset_of_position {size first offset : Nat} (inside : first < size)
    (close : offset < size) : ((first + offset) % size + size - first) % size = offset := by
  by_cases fits : first + offset < size
  · rw [Nat.mod_eq_of_lt fits, show first + offset + size - first = offset + size by omega,
      Nat.add_mod_right, Nat.mod_eq_of_lt close]
  · have wrapped : (first + offset) % size = first + offset - size := by
      rw [Nat.mod_eq_sub_mod (by omega), Nat.mod_eq_of_lt (by omega)]
    rw [wrapped, show first + offset - size + size - first = offset by omega,
      Nat.mod_eq_of_lt close]

/-- The cells of the window `[low, high)` hold the stream. -/
def Holds (size : Nat) (cells stream : List α) (low high : Nat) : Prop :=
  ∀ index, low ≤ index → index < high → cells[index % size]? = stream[index]?

theorem Holds.shrink {size low high newLow newHigh : Nat} {cells stream : List α}
    (holds : Holds size cells stream low high) (lower : low ≤ newLow) (upper : newHigh ≤ high) :
    Holds size cells stream newLow newHigh :=
  fun index above below => holds index (lower.trans above) (below.trans_le upper)

/-- The cells from `first` on hold a block that the stream may not show yet. -/
def HoldsBlock (size : Nat) (cells block : List α) (first count : Nat) : Prop :=
  ∀ offset, offset < count → cells[(first + offset) % size]? = block[offset]?

theorem Holds.append {size low : Nat} {cells stream block : List α} {count : Nat}
    (holds : Holds size cells stream low stream.length)
    (written : HoldsBlock size cells block stream.length count) :
    Holds size cells (stream ++ block.take count) low (stream.length + count) := by
  intro index above below
  by_cases old : index < stream.length
  · rw [List.getElem?_append_left old]
    exact holds index above old
  · have shifted : stream.length + (index - stream.length) = index := by omega
    rw [List.getElem?_append_right (by omega), List.getElem?_take_of_lt (by omega),
      ← written (index - stream.length) (by omega), shifted]

/-- A copy of `count` elements that starts `done` elements into a block leaves
the cells of a window alone if the window and the block fit into the ring. -/
theorem Holds.splice {size low first done count : Nat} {cells stream block : List α}
    (holds : Holds size cells stream low first) (whole : cells.length = size)
    (fits : (first + done) % size + count ≤ size) (supplied : done + count ≤ block.length)
    (room : first + done + count ≤ low + size) :
    Holds size (splice cells ((first + done) % size) block done count) stream low first := by
  intro index above below
  rw [← holds index above below]
  apply getElem?_splice_outside (by omega) supplied
  by_contra inside
  have reached : (first + done + (index % size - (first + done) % size)) % size = index % size := by
    rw [add_mod_of_lt (by omega)]
    omega
  exact mod_ne_of_window (by omega) (by omega) reached.symm

/-- The same copy extends the part of the block that the ring holds. -/
theorem HoldsBlock.splice {size first done count : Nat} {cells block : List α}
    (written : HoldsBlock size cells block first done) (whole : cells.length = size)
    (fits : (first + done) % size + count ≤ size) (supplied : done + count ≤ block.length)
    (room : done + count ≤ size) :
    HoldsBlock size (Library.splice cells ((first + done) % size) block done count) block first
      (done + count) := by
  intro offset below
  by_cases old : offset < done
  · rw [← written offset old]
    apply getElem?_splice_outside (by omega) supplied
    by_contra inside
    have reached : (first + done + ((first + offset) % size - (first + done) % size)) % size =
        (first + offset) % size := by
      rw [add_mod_of_lt (by omega)]
      omega
    exact mod_ne_of_window (by omega) (by omega) reached.symm
  · have position : (first + offset) % size = (first + done) % size + (offset - done) := by
      rw [← add_mod_of_lt (by omega)]
      congr 1
      omega
    rw [position, getElem?_splice_inside (by omega) supplied (by omega)]
    congr 1
    omega

/-- The first `count` elements of a block are those of the stream from `first` on. -/
def Copied (block stream : List α) (first count : Nat) : Prop :=
  ∀ offset, offset < count → block[offset]? = stream[first + offset]?

/-- A copy out of the ring extends the part of the stream that the block holds. -/
theorem Copied.splice {size first high done count : Nat} {cells stream block : List α}
    (copied : Copied block stream first done) (holds : Holds size cells stream first high)
    (whole : cells.length = size) (fits : (first + done) % size + count ≤ size)
    (supplied : done + count ≤ block.length) (present : first + done + count ≤ high) :
    Copied (Library.splice block done cells ((first + done) % size) count) stream first
      (done + count) := by
  intro offset below
  by_cases old : offset < done
  · rw [← copied offset old]
    exact getElem?_splice_outside supplied (by omega) (.inl old)
  · have position : (first + done) % size + (offset - done) = (first + offset) % size := by
      rw [← add_mod_of_lt (by omega)]
      congr 1
      omega
    have split : offset = done + (offset - done) := by omega
    rw [split, getElem?_splice_inside supplied (by omega) (by omega), ← split, position]
    exact holds (first + offset) (by omega) (by omega)

theorem Copied.append {first count : Nat} {block stream added : List α}
    (copied : Copied block stream first count) (present : first + count ≤ stream.length) :
    Copied block (stream ++ added) first count := by
  intro offset below
  rw [copied offset below, List.getElem?_append_left (by omega)]

theorem Copied.take_eq {first count : Nat} {block stream : List α}
    (copied : Copied block stream first count) :
    block.take count = (stream.drop first).take count := by
  apply List.ext_getElem?
  intro offset
  by_cases below : offset < count
  · rw [List.getElem?_take_of_lt below, List.getElem?_take_of_lt below, List.getElem?_drop,
      copied offset below]
  · rw [List.getElem?_take_eq_none (by omega), List.getElem?_take_eq_none (by omega)]

/-- The stored part of a ring as the block of its elements, oldest first. -/
abbrev Stores (size : Nat) (cells elements : List α) (first : Nat) : Prop :=
  HoldsBlock size cells elements first elements.length

/-- Writing the cell behind the stored elements changes none of them. -/
theorem Stores.set_free {size first : Nat} {cells elements : List α}
    (stores : Stores size cells elements first) (room : elements.length < size) (element : α) :
    Stores size (cells.set ((first + elements.length) % size) element) elements first := by
  intro offset below
  have other : (first + elements.length) % size ≠ (first + offset) % size :=
    (mod_ne_of_window (by omega) (by omega)).symm
  rw [List.getElem?_set_ne other]
  exact stores offset below

/-- The cell behind the stored elements joins them. -/
theorem Stores.snoc {size first : Nat} {cells elements : List α} {element : α}
    (stores : Stores size cells elements first)
    (cell : cells[(first + elements.length) % size]? = some element) :
    Stores size cells (elements ++ [element]) first := by
  intro offset below
  rw [List.length_append, List.length_singleton] at below
  by_cases old : offset < elements.length
  · rw [List.getElem?_append_left old]
    exact stores offset old
  · have last : offset = elements.length := by omega
    subst last
    rw [cell, List.getElem?_append_right le_rfl, Nat.sub_self]
    rfl

theorem Stores.head {size first : Nat} {cells rest : List α} {element : α}
    (stores : Stores size cells (element :: rest) first) :
    cells[first % size]? = some element := by
  simpa using stores 0 (Nat.succ_pos _)

theorem Stores.pop {size first : Nat} {cells rest : List α} {element : α}
    (stores : Stores size cells (element :: rest) first) :
    Stores size cells rest ((first + 1) % size) := by
  intro offset below
  have shifted := stores (offset + 1) (Nat.succ_lt_succ below)
  rw [List.getElem?_cons_succ] at shifted
  rw [← shifted, Nat.mod_add_mod, Nat.add_right_comm, Nat.add_assoc]

end DmLockFree.Library.Ring
