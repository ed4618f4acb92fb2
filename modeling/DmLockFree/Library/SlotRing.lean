import DmLockFree.Library.Ring

/-!
# Rings of slots filled and emptied before they are published

A ring in which a slot is filled before the write index moves over it and
emptied before the read index does. The contents say which elements lie between
the indices, whether the slot at the write index is already filled and whether
the slot at the read index is already emptied; all other slots are empty.
-/

set_option autoImplicit false

namespace DmLockFree.Library

structure Contents (β : Type) where
  stored : List β
  ahead : Option β
  hollow : Bool

variable {β : Type}

namespace Contents

def front (contents : Contents β) : List (Option β) :=
  if contents.hollow then (contents.stored.map some).set 0 none else contents.stored.map some

/-- All slots, from the read index on. -/
def window (contents : Contents β) (size : Nat) : List (Option β) :=
  contents.front ++
    contents.ahead :: List.replicate (size - (contents.stored.length + 1)) none

/-- The elements that have not been taken out. -/
def remaining (contents : Contents β) : List β :=
  if contents.hollow then contents.stored.tail else contents.stored

/-- Publishing adds an element behind the remaining ones. -/
theorem remaining_append {contents later : Contents β} {added : List β}
    (stored : later.stored = contents.stored ++ added) (hollow : later.hollow = contents.hollow)
    (present : contents.hollow = true → contents.stored ≠ []) :
    later.remaining = contents.remaining ++ added := by
  rw [remaining, remaining, hollow, stored]
  split
  case isTrue taken => exact List.tail_append_of_ne_nil (present taken)
  case isFalse => rfl

@[simp] theorem length_front (contents : Contents β) :
    contents.front.length = contents.stored.length := by
  rw [front]
  split <;> simp

end Contents

/-- The slots of a ring of `size` slots, seen from the read index `first`. -/
structure SlotRing (size : Nat) (slot : Nat → Option β) (first : Nat) (contents : Contents β) :
    Prop where
  room : contents.stored.length < size
  hollow : contents.hollow = true → contents.stored ≠ []
  slots : ∀ offset, offset < size →
    (contents.window size)[offset]? = some (slot ((first + offset) % size))

namespace SlotRing

variable {size first : Nat} {slot after : Nat → Option β} {contents : Contents β}

theorem empty (positive : 0 < size) (clear : ∀ position, position < size → slot position = none) :
    SlotRing size slot first ⟨[], none, false⟩ := by
  refine ⟨positive, nofun, fun offset below => ?_⟩
  rw [clear _ (Nat.mod_lt _ positive)]
  have window : Contents.window ⟨[], none, false⟩ size = List.replicate size (none : Option β) := by
    obtain ⟨more, rfl⟩ := Nat.exists_eq_succ_of_ne_zero positive.ne'
    rfl
  rw [window, List.getElem?_replicate_of_lt below]

theorem at_write (ring : SlotRing size slot first contents) :
    slot ((first + contents.stored.length) % size) = contents.ahead := by
  have slots := ring.slots _ ring.room
  rw [Contents.window, List.getElem?_append_right (by simp)] at slots
  simpa using slots.symm

theorem at_read (ring : SlotRing size slot first contents) {element : β} {rest : List β}
    (stored : contents.stored = element :: rest) :
    slot (first % size) = if contents.hollow then none else some element := by
  have positive := Nat.zero_lt_of_lt ring.room
  have slots := ring.slots 0 positive
  rw [Contents.window, List.getElem?_append_left (by simp [stored])] at slots
  simp only [Contents.front, stored, Nat.add_zero] at slots
  split at slots <;> simpa [*] using slots.symm

theorem set (ring : SlotRing size slot first contents) {offset : Nat} (below : offset < size)
    {filling : Option β}
    (changes : ∀ position, position < size → after position =
      if position = (first + offset) % size then filling else slot position) :
    ∀ other, other < size →
      ((contents.window size).set offset filling)[other]? =
        some (after ((first + other) % size)) := by
  intro other inside
  have positive : 0 < size := by omega
  have slots := ring.slots other inside
  rw [changes _ (Nat.mod_lt _ positive)]
  by_cases same : other = offset
  · subst same
    rw [if_pos rfl, List.getElem?_set_self]
    exact (List.getElem?_eq_some_iff.mp slots).1
  · have apart : (first + other) % size ≠ (first + offset) % size := by
      intro equal
      have := Ring.eq_of_mod_eq equal (Nat.le_add_right first other) (by omega)
        (Nat.le_add_right first offset) (by omega)
      omega
    rw [if_neg apart, List.getElem?_set_ne (Ne.symm same)]
    exact slots

theorem fill (ring : SlotRing size slot first contents) {element : β}
    (changes : ∀ position, position < size → after position =
      if position = (first + contents.stored.length) % size then some element
      else slot position) :
    SlotRing size after first { contents with ahead := some element } := by
  refine ⟨ring.room, ring.hollow, ?_⟩
  have slots := ring.set ring.room changes
  rwa [Contents.window, List.set_append_right _ _ (by simp), Contents.length_front, Nat.sub_self,
    List.set_cons_zero] at slots

/-- The write index moves over the slot that was filled. -/
theorem publish (ring : SlotRing size slot first contents) {element : β}
    (filled : contents.ahead = some element) (room : contents.stored.length + 1 < size) :
    SlotRing size slot first
      { contents with stored := contents.stored ++ [element], ahead := none } := by
  refine ⟨by simpa using room, fun _ => by simp, ?_⟩
  have same : Contents.window
      { contents with stored := contents.stored ++ [element], ahead := none } size =
        contents.window size := by
    obtain ⟨more, split⟩ : ∃ more, size - (contents.stored.length + 1) = more + 1 :=
      ⟨size - (contents.stored.length + 2), by omega⟩
    have fewer : size - (contents.stored.length + 1 + 1) = more := by omega
    have front : Contents.front
        { contents with stored := contents.stored ++ [element], ahead := none } =
          contents.front ++ [some element] := by
      unfold Contents.front
      split
      case isTrue hollow =>
          have present := List.length_pos_of_ne_nil (ring.hollow hollow)
          rw [List.map_append, List.set_append_left _ _ (by simpa using present)]
          rfl
      case isFalse => simp
    simp only [Contents.window, front, filled, split, List.length_append, List.length_singleton,
      fewer, List.replicate_succ, List.append_assoc, List.singleton_append]
  rw [same]
  exact ring.slots

theorem hollowOut (ring : SlotRing size slot first contents) (present : contents.stored ≠ [])
    (changes : ∀ position, position < size → after position =
      if position = first % size then none else slot position) :
    SlotRing size after first { contents with hollow := true } := by
  have positive := Nat.zero_lt_of_lt ring.room
  refine ⟨ring.room, fun _ => present, ?_⟩
  have slots := ring.set positive changes
  have emptied : (contents.window size).set 0 none =
      Contents.window { contents with hollow := true } size := by
    have inside := List.length_pos_of_ne_nil present
    rw [Contents.window, List.set_append_left _ _ (by simpa using inside)]
    simp only [Contents.window, Contents.front, if_true]
    split <;> simp
  rwa [emptied] at slots

/-- The read index moves over the slot that was emptied. -/
theorem release (ring : SlotRing size slot first contents) {element : β} {rest : List β}
    (stored : contents.stored = element :: rest) (emptied : contents.hollow = true) :
    SlotRing size slot ((first + 1) % size) { contents with stored := rest, hollow := false } := by
  have room := ring.room
  rw [stored, List.length_cons] at room
  refine ⟨by simp only; omega, nofun, fun offset below => ?_⟩
  have window : contents.window size =
      none ::
        (rest.map some ++ contents.ahead :: List.replicate (size - (rest.length + 2)) none) := by
    simp [Contents.window, Contents.front, stored, emptied]
  have released : Contents.window { contents with stored := rest, hollow := false } size =
      (rest.map some ++ contents.ahead :: List.replicate (size - (rest.length + 2)) none) ++
        [none] := by
    have more : size - (rest.length + 1) = size - (rest.length + 2) + 1 := by omega
    simp [Contents.window, Contents.front, more, List.replicate_succ']
  have length : (rest.map some ++ contents.ahead ::
      List.replicate (size - (rest.length + 2)) (none : Option β)).length = size - 1 := by
    simp; omega
  rw [released]
  by_cases last : offset = size - 1
  · have slots := ring.slots 0 (by omega)
    rw [window, List.getElem?_cons_zero] at slots
    rw [List.getElem?_append_right (by omega), length, last, Nat.sub_self, Nat.mod_add_mod,
      show first + 1 + (size - 1) = first + size by omega, Nat.add_mod_right]
    simpa using slots
  · have slots := ring.slots (offset + 1) (by omega)
    rw [window, List.getElem?_cons_succ] at slots
    rw [List.getElem?_append_left (by omega), slots, Nat.mod_add_mod, Nat.add_right_comm,
      Nat.add_assoc]

/-- One slot is always empty while the one at the write index is not filled or
another one is free. -/
theorem exists_empty (ring : SlotRing size slot first contents)
    (spare : contents.ahead = none ∨ contents.stored.length + 1 < size) :
    ∃ position, position < size ∧ slot position = none := by
  have positive := Nat.zero_lt_of_lt ring.room
  rcases spare with unfilled | room
  · exact ⟨_, Nat.mod_lt _ positive, ring.at_write.trans unfilled⟩
  · have slots := ring.slots (contents.stored.length + 1) room
    rw [Contents.window, List.getElem?_append_right (by simp), Contents.length_front,
      Nat.add_sub_cancel_left, List.getElem?_cons_succ,
      List.getElem?_replicate_of_lt (by omega)] at slots
    exact ⟨_, Nat.mod_lt _ positive, (Option.some.inj slots).symm⟩

/-- A filled slot lies between the indices, or at the write index. -/
theorem of_filled (ring : SlotRing size slot first contents) {offset : Nat} (below : offset < size)
    (filled : slot ((first + offset) % size) ≠ none) :
    offset < contents.stored.length ∨
      offset = contents.stored.length ∧ contents.ahead ≠ none := by
  have slots := ring.slots offset below
  rw [Contents.window] at slots
  rcases Nat.lt_trichotomy offset contents.stored.length with inside | rfl | outside
  · exact .inl inside
  · rw [ring.at_write] at filled
    exact .inr ⟨rfl, filled⟩
  · obtain ⟨more, rfl⟩ := Nat.exists_eq_add_of_lt outside
    rw [List.getElem?_append_right (by simp; omega), Contents.length_front,
      show contents.stored.length + more + 1 - contents.stored.length = more + 1 by omega,
      List.getElem?_cons_succ, List.getElem?_replicate_of_lt (by omega)] at slots
    exact (filled (Option.some.inj slots).symm).elim

/-- A slot between the indices is filled, but for one emptied at the read index. -/
theorem filled_of_stored (ring : SlotRing size slot first contents) {offset : Nat}
    (inside : offset < contents.stored.length) :
    slot ((first + offset) % size) ≠ none ∨ offset = 0 ∧ contents.hollow = true := by
  have slots := ring.slots offset (inside.trans ring.room)
  rw [Contents.window, List.getElem?_append_left (by simpa using inside), Contents.front] at slots
  split at slots
  case isFalse =>
      left
      intro empty
      simp [empty, inside] at slots
  case isTrue hollow =>
      by_cases start : offset = 0
      · exact .inr ⟨start, hollow⟩
      · left
        intro empty
        rw [List.getElem?_set_ne (Ne.symm start)] at slots
        simp [empty, inside] at slots

/-- Between two operations exactly the slots between the indices are filled. -/
theorem filled_iff (ring : SlotRing size slot first contents) (unfilled : contents.ahead = none)
    (solid : contents.hollow = false) {offset : Nat} (below : offset < size) :
    slot ((first + offset) % size) ≠ none ↔ offset < contents.stored.length := by
  constructor
  · intro filled
    rcases ring.of_filled below filled with inside | ⟨_, written⟩
    · exact inside
    · exact (written unfilled).elim
  · intro inside
    rcases ring.filled_of_stored inside with filled | ⟨_, hollow⟩
    · exact filled
    · rw [solid] at hollow
      cases hollow

theorem all_empty (ring : SlotRing size slot first contents) (nothing : contents.stored = [])
    (unfilled : contents.ahead = none) {position : Nat} (inside : position < size) :
    slot position = none := by
  have solid : contents.hollow = false := by
    rw [← Bool.not_eq_true]
    exact fun hollow => ring.hollow hollow nothing
  obtain ⟨offset, below, reached⟩ := Ring.exists_offset first inside
  by_contra filled
  rw [← reached] at filled
  have stored := (ring.filled_iff unfilled solid below).mp filled
  rw [nothing] at stored
  exact absurd stored (Nat.not_lt_zero offset)

end SlotRing

end DmLockFree.Library
