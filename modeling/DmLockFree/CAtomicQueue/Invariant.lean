import DmLockFree.CAtomicQueue.Basic
import DmLockFree.Library.Heap
import DmLockFree.Library.SlotRing

/-! The cells of a `CAtomicQueue` between and during operations. The pointers
between the two indices are stored; one more is in front of `tail` while a push
is about to store the index, one less behind `head` while a pop is. -/

set_option autoImplicit false

namespace DmLockFree.CAtomicQueue

open Library

variable {T : Type} {size : Nat} {queue : CAtomicQueue T} {contents : Contents Nat}

/-- The cells of the ring, by position. -/
def ringCell (queue : CAtomicQueue T) (position : Nat) : Option Nat :=
  queue.buffer[position]?.join

structure Sound (size : Nat) (contents : Contents Nat) (queue : CAtomicQueue T) : Prop where
  positive : 0 < size
  capacity : queue.capacity.toNat = size
  buffer : queue.buffer.length = size
  head : queue.head.toNat < size
  tail : queue.tail.toNat = (queue.head.toNat + contents.stored.length) % size
  ring : SlotRing size queue.ringCell queue.head.toNat contents

theorem construct_sound {capacity : UInt64} (positive : 1 ≤ capacity.toNat) :
    Sound capacity.toNat ⟨[], none, false⟩ (construct T capacity) := by
  refine ⟨positive, rfl, List.length_replicate, positive,
    (Nat.mod_eq_of_lt positive).symm, .empty positive fun position inside => ?_⟩
  simp [ringCell, construct, List.getElem?_replicate_of_lt inside]

theorem Sound.next_toNat (sound : Sound size contents queue) {index : UInt64}
    (inside : index.toNat < size) : (queue.next index).toNat = (index.toNat + 1) % size := by
  have word : size < 2 ^ 64 := by
    rw [← sound.capacity]
    exact queue.capacity.toNat_lt
  rw [next, UInt64.toNat_mod, sound.capacity, UInt64.toNat_add, UInt64.toNat_one,
    Nat.mod_eq_of_lt (a := index.toNat + 1) (by omega)]

theorem Sound.tail_lt (sound : Sound size contents queue) : queue.tail.toNat < size := by
  rw [sound.tail]
  exact Nat.mod_lt _ sound.positive

theorem Sound.next_tail (sound : Sound size contents queue) :
    (queue.next queue.tail).toNat =
      (queue.head.toNat + (contents.stored.length + 1)) % size := by
  rw [sound.next_toNat sound.tail_lt, sound.tail, Nat.mod_add_mod, Nat.add_assoc]

/-- The write index runs into the read index exactly when one cell is left. -/
theorem Sound.full_iff (sound : Sound size contents queue) :
    queue.next queue.tail = queue.head ↔ contents.stored.length + 1 = size := by
  have room := sound.ring.room
  rw [← UInt64.toNat_inj, sound.next_tail, Ring.mod_eq_first_iff sound.head room]
  omega

/-- An index that lies `used` cells behind the read index equals it only for none. -/
theorem Sound.empty_iff (sound : Sound size contents queue) {index : UInt64} {used : Nat}
    (fits : used ≤ contents.stored.length)
    (shown : index.toNat = (queue.head.toNat + used) % size) :
    queue.head = index ↔ used = 0 := by
  have room := sound.ring.room
  rw [eq_comm, ← UInt64.toNat_inj, shown, Ring.mod_eq_first_iff sound.head (by omega)]
  omega

theorem Sound.cell_eq (sound : Sound size contents queue) {index : UInt64}
    (inside : index.toNat < size) : queue.cell index = some (queue.ringCell index.toNat) := by
  rw [← sound.buffer] at inside
  rw [cell, ringCell, List.getElem?_eq_getElem inside, Option.join_some]

theorem Sound.cell_tail (sound : Sound size contents queue) :
    queue.cell queue.tail = some contents.ahead := by
  have written := sound.ring.at_write
  rw [← sound.tail] at written
  rw [sound.cell_eq sound.tail_lt, written]

theorem Sound.cell_head (sound : Sound size contents queue) {pointer : Nat} {rest : List Nat}
    (stored : contents.stored = pointer :: rest) :
    queue.cell queue.head = some (if contents.hollow then none else some pointer) := by
  have read := sound.ring.at_read stored
  rw [Nat.mod_eq_of_lt sound.head] at read
  rw [sound.cell_eq sound.head, read]

theorem Sound.setCell_ringCell (sound : Sound size contents queue) {position : Nat}
    (inside : position < size) (index : UInt64) (pointer : Option Nat) :
    (queue.setCell index pointer).ringCell position =
      if position = index.toNat then pointer else queue.ringCell position := by
  rw [← sound.buffer] at inside
  change (queue.buffer.set index.toNat pointer)[position]?.join = _
  by_cases same : position = index.toNat
  · rw [if_pos same, ← same, List.getElem?_set_self inside, Option.join_some]
  · rw [if_neg same, List.getElem?_set_ne (Ne.symm same), ringCell]

theorem Sound.length_setCell (sound : Sound size contents queue) (index : UInt64)
    (pointer : Option Nat) : (queue.setCell index pointer).buffer.length = size := by
  rw [← sound.buffer]
  exact List.length_set

theorem Sound.storeCell (sound : Sound size contents queue) (pointer : Nat) :
    Sound size { contents with ahead := some pointer }
      (queue.setCell queue.tail (some pointer)) := by
  refine ⟨sound.positive, sound.capacity, sound.length_setCell _ _, sound.head, sound.tail,
    sound.ring.fill fun position inside => ?_⟩
  rw [sound.setCell_ringCell inside, sound.tail]

theorem Sound.storeTail (sound : Sound size contents queue) {pointer : Nat}
    (ahead : contents.ahead = some pointer) (room : contents.stored.length + 1 < size) :
    Sound size { contents with stored := contents.stored ++ [pointer], ahead := none }
      { queue with tail := queue.next queue.tail } := by
  refine ⟨sound.positive, sound.capacity, sound.buffer, sound.head, ?_,
    sound.ring.publish ahead room⟩
  simp only [List.length_append, List.length_singleton]
  exact sound.next_tail

theorem Sound.exchange (sound : Sound size contents queue) (present : contents.stored ≠ []) :
    Sound size { contents with hollow := true } (queue.setCell queue.head none) := by
  refine ⟨sound.positive, sound.capacity, sound.length_setCell _ _, sound.head, sound.tail,
    sound.ring.hollowOut present fun position inside => ?_⟩
  rw [sound.setCell_ringCell inside, Nat.mod_eq_of_lt sound.head]

theorem Sound.storeHead (sound : Sound size contents queue) {pointer : Nat} {rest : List Nat}
    (stored : contents.stored = pointer :: rest) (hollow : contents.hollow = true) :
    Sound size { contents with stored := rest, hollow := false }
      { queue with head := queue.next queue.head } := by
  have next := sound.next_toNat sound.head
  refine ⟨sound.positive, sound.capacity, sound.buffer, ?_, ?_, ?_⟩
  · simp only [next]
    exact Nat.mod_lt _ sound.positive
  · simp only [next]
    rw [sound.tail, stored, List.length_cons, Nat.mod_add_mod]
    congr 1
    omega
  · have released := sound.ring.release stored hollow
    rw [← next] at released
    exact released

theorem Sound.setHeap (sound : Sound size contents queue) (pointer : Nat) (object : Option T) :
    Sound size contents (queue.setHeap pointer object) :=
  ⟨sound.positive, sound.capacity, sound.buffer, sound.head, sound.tail, sound.ring⟩

theorem Sound.setSize (sound : Sound size contents queue) (count : UInt64) :
    Sound size contents { queue with size := count } :=
  ⟨sound.positive, sound.capacity, sound.buffer, sound.head, sound.tail, sound.ring⟩

theorem Sound.filled_le (sound : Sound size contents queue)
    (spare : contents.ahead = none ∨ contents.stored.length + 1 < size) :
    queue.buffer.countP Option.isSome ≤ size - 1 := by
  obtain ⟨gap, inside, clear⟩ := sound.ring.exists_empty spare
  rw [← sound.buffer] at inside
  have most := List.countP_le_length (p := Option.isSome) (l := queue.buffer)
  have fewer : queue.buffer.countP Option.isSome ≠ queue.buffer.length := by
    intro full
    rw [List.countP_eq_length] at full
    have filled := full _ (List.getElem_mem inside)
    rw [ringCell, List.getElem?_eq_getElem inside, Option.join_some] at clear
    rw [clear] at filled
    cases filled
  rw [sound.buffer] at most fewer
  omega

end DmLockFree.CAtomicQueue
