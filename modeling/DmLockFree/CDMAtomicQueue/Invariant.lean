import DmLockFree.CDMAtomicQueue.Basic
import DmLockFree.Library.SlotRing

/-! The slots of a `CDMAtomicQueue` between and during operations: the objects
between the two indices, one more in front of `head_` while an emplace is about
to store it, one less behind `tail_` while a pop is. -/

set_option autoImplicit false

namespace DmLockFree.CDMAtomicQueue

open Library

variable {T : Type} {size : Nat} {queue : CDMAtomicQueue T} {contents : Contents T}

/-- The slots of the ring, by position. -/
def ringSlot (queue : CDMAtomicQueue T) (position : Nat) : Option T :=
  queue.slots (queue.slot (UInt64.ofNat position))

structure Sound (size : Nat) (contents : Contents T) (queue : CDMAtomicQueue T) : Prop where
  large : 2 ≤ size
  capacity : queue.capacity.toNat = size
  tail : queue.tail.toNat < size
  head : queue.head.toNat = (queue.tail.toNat + contents.stored.length) % size
  ring : SlotRing size queue.ringSlot queue.tail.toNat contents
  outside : ∀ index, queue.slots index ≠ none →
    ∃ position, position < size ∧ index = queue.slot (UInt64.ofNat position)

theorem Sound.word (sound : Sound size contents queue) : size < 2 ^ 64 := by
  rw [← sound.capacity]
  exact queue.capacity.toNat_lt

theorem Sound.next_toNat (sound : Sound size contents queue) {index : UInt64}
    (inside : index.toNat < size) : (queue.next index).toNat = (index.toNat + 1) % size := by
  have word := sound.word
  have sum : (index + 1).toNat = index.toNat + 1 := by
    rw [UInt64.toNat_add, UInt64.toNat_one, Nat.mod_eq_of_lt (by omega)]
  have wraps : index + 1 = queue.capacity ↔ index.toNat + 1 = size := by
    rw [← UInt64.toNat_inj, sum, sound.capacity]
  by_cases last : index.toNat + 1 = size
  · rw [next, if_pos (wraps.mpr last), last, Nat.mod_self]
    rfl
  · rw [next, if_neg (wraps.not.mpr last), sum, Nat.mod_eq_of_lt (by omega)]

theorem Sound.next_head (sound : Sound size contents queue) :
    (queue.next queue.head).toNat =
      (queue.tail.toNat + (contents.stored.length + 1)) % size := by
  have positive := sound.large
  rw [sound.next_toNat, sound.head, Nat.mod_add_mod, Nat.add_assoc]
  rw [sound.head]
  exact Nat.mod_lt _ (by omega)

/-- The write index runs into the read index exactly when one slot is left. -/
theorem Sound.full_iff (sound : Sound size contents queue) :
    queue.next queue.head = queue.tail ↔ contents.stored.length + 1 = size := by
  have room := sound.ring.room
  rw [← UInt64.toNat_inj, sound.next_head, Ring.mod_eq_first_iff sound.tail room]
  omega

/-- An index that lies `used` elements behind the read index equals it only for none. -/
theorem Sound.empty_iff (sound : Sound size contents queue) {index : UInt64} {used : Nat}
    (fits : used ≤ contents.stored.length)
    (shown : index.toNat = (queue.tail.toNat + used) % size) :
    index = queue.tail ↔ used = 0 := by
  have room := sound.ring.room
  rw [← UInt64.toNat_inj, shown, Ring.mod_eq_first_iff sound.tail (by omega)]
  omega

/-- `size()` is zero exactly for equal indices, also when the capacity is so large
that the signed difference is wrong. -/
theorem sizeOf_eq_zero_iff {head tail : UInt64} (headBound : head.toNat < queue.capacity.toNat)
    (tailBound : tail.toNat < queue.capacity.toNat) :
    queue.sizeOf head tail = 0 ↔ head = tail := by
  have word := queue.capacity.toNat_lt
  have difference : (head - tail).toNat = (2 ^ 64 - tail.toNat + head.toNat) % 2 ^ 64 :=
    UInt64.toNat_sub head tail
  rw [sizeOf, ← UInt64.toNat_inj, ← UInt64.toNat_inj]
  split
  case isTrue negative =>
      rw [UInt64.toNat_add, UInt64.toNat_zero]
      omega
  case isFalse => rw [UInt64.toNat_zero]; omega

theorem ofNat_eq_iff {position : Nat} (small : position < 2 ^ 64) (index : UInt64) :
    UInt64.ofNat position = index ↔ position = index.toNat := by
  rw [← UInt64.toNat_inj, UInt64.toNat_ofNat_of_lt' small]

theorem Sound.slot_eq_iff (sound : Sound size contents queue) {position : Nat}
    (inside : position < size) (index : UInt64) :
    queue.slot (UInt64.ofNat position) = queue.slot index ↔ position = index.toNat := by
  have word := sound.word
  rw [slot, slot, add_left_inj, ofNat_eq_iff (by omega)]

theorem Sound.setSlot_ringSlot (sound : Sound size contents queue) {position : Nat}
    (inside : position < size) (index : UInt64) (object : Option T) :
    (queue.setSlot index object).ringSlot position =
      if position = index.toNat then object else queue.ringSlot position := by
  change Function.update queue.slots (queue.slot index) object
    (queue.slot (UInt64.ofNat position)) = _
  simp only [Function.update_apply, sound.slot_eq_iff inside, ringSlot]

theorem Sound.setSlot_outside (sound : Sound size contents queue) {index : UInt64}
    (inside : index.toNat < size) {object : Option T} (other : UInt64)
    (alive : (queue.setSlot index object).slots other ≠ none) :
    ∃ position, position < size ∧ other = queue.slot (UInt64.ofNat position) := by
  by_cases same : other = queue.slot index
  · exact ⟨index.toNat, inside, by rw [same, UInt64.ofNat_toNat]⟩
  · change Function.update queue.slots (queue.slot index) object other ≠ none at alive
    rw [Function.update_of_ne same] at alive
    exact sound.outside other alive

theorem Sound.slot_head (sound : Sound size contents queue) :
    queue.slots (queue.slot queue.head) = contents.ahead := by
  have slot := sound.ring.at_write
  rwa [← sound.head, ringSlot, UInt64.ofNat_toNat] at slot

theorem Sound.slot_tail (sound : Sound size contents queue) {value : T} {rest : List T}
    (stored : contents.stored = value :: rest) :
    queue.slots (queue.slot queue.tail) = if contents.hollow then none else some value := by
  have slot := sound.ring.at_read stored
  rwa [Nat.mod_eq_of_lt sound.tail, ringSlot, UInt64.ofNat_toNat] at slot

theorem Sound.construct (sound : Sound size contents queue) (value : T) :
    Sound size { contents with ahead := some value } (queue.setSlot queue.head (some value)) := by
  have positive := sound.large
  have inside : queue.head.toNat < size := by
    rw [sound.head]; exact Nat.mod_lt _ (by omega)
  refine ⟨sound.large, sound.capacity, sound.tail, sound.head, sound.ring.fill ?_,
    sound.setSlot_outside inside⟩
  intro position below
  rw [sound.setSlot_ringSlot below, sound.head]

theorem Sound.storeHead (sound : Sound size contents queue) {value : T}
    (ahead : contents.ahead = some value) (room : contents.stored.length + 1 < size) :
    Sound size { contents with stored := contents.stored ++ [value], ahead := none }
      { queue with head := queue.next queue.head } := by
  refine ⟨sound.large, sound.capacity, sound.tail, ?_, sound.ring.publish ahead room,
    sound.outside⟩
  simp only [List.length_append, List.length_singleton]
  exact sound.next_head

theorem Sound.destroy (sound : Sound size contents queue) (present : contents.stored ≠ []) :
    Sound size { contents with hollow := true } (queue.setSlot queue.tail none) := by
  refine ⟨sound.large, sound.capacity, sound.tail, sound.head, sound.ring.hollowOut present ?_,
    sound.setSlot_outside sound.tail⟩
  intro position below
  rw [sound.setSlot_ringSlot below, Nat.mod_eq_of_lt sound.tail]

theorem Sound.storeTail (sound : Sound size contents queue) {value : T} {rest : List T}
    (stored : contents.stored = value :: rest) (hollow : contents.hollow = true) :
    Sound size { contents with stored := rest, hollow := false }
      { queue with tail := queue.next queue.tail } := by
  have positive := sound.large
  have next := sound.next_toNat sound.tail
  refine ⟨sound.large, sound.capacity, ?_, ?_, ?_, sound.outside⟩
  · simp only [next]
    exact Nat.mod_lt _ (by omega)
  · simp only [next]
    rw [sound.head, stored, List.length_cons, Nat.mod_add_mod]
    congr 1
    omega
  · have released := sound.ring.release stored hollow
    rw [← next] at released
    exact released

theorem construct_sound {sizeT capacity : UInt64}
    (built : CDMAtomicQueue.construct T sizeT capacity = some queue) :
    Sound capacity.toNat ⟨[], none, false⟩ queue := by
  unfold CDMAtomicQueue.construct at built
  split at built
  case isTrue => cases built
  case isFalse large =>
      cases built
      have atLeast : 2 ≤ capacity.toNat := UInt64.le_iff_toNat_le.mp (UInt64.not_lt.mp large)
      exact ⟨atLeast, rfl, by simp only [UInt64.toNat_zero]; omega,
        (Nat.mod_eq_of_lt (by simp only [UInt64.toNat_zero]; omega)).symm,
        .empty (by omega) fun _ _ => rfl, fun index alive => absurd rfl alive⟩

end DmLockFree.CDMAtomicQueue
