import DmLockFree.CDMQueue.Basic
import DmLockFree.Library.Ring
import Mathlib.Data.Int.ModEq

/-! `CDMQueue` used by one thread at a time is a bounded first-in first-out
queue of `capacity` pointers: one specification lemma for each member function,
over the list of the stored pointers. -/

set_option autoImplicit false

namespace DmLockFree.CDMQueue

open Library

variable {α : Type} {capacity : Nat} {queue : CDMQueue α} {elements : List (Option α)}

/-- The queue stores `elements`, oldest first, in a ring of `capacity + 1` cells. -/
structure Represents (capacity : Nat) (queue : CDMQueue α) (elements : List (Option α)) :
    Prop where
  size : queue.nSize = capacity + 1
  fits : elements.length ≤ capacity
  head : 0 ≤ queue.nHead ∧ queue.nHead.toNat < capacity + 1
  tail : queue.nTail = ((queue.nHead.toNat + elements.length) % (capacity + 1) : Nat)
  cells : ∃ cells, queue.pArray = some cells ∧ cells.length = capacity + 1 ∧
    Ring.Stores (capacity + 1) cells elements queue.nHead.toNat

/-- The stored pointers, oldest first, read off the fields. -/
def contents (queue : CDMQueue α) : List (Option α) :=
  (List.range ((queue.nTail - queue.nHead) % queue.nSize).toNat).map fun offset =>
    ((queue.pArray.getD []).getD ((queue.nHead.toNat + offset) % queue.nSize.toNat) none)

theorem Represents.contents_eq (represents : Represents capacity queue elements) :
    queue.contents = elements := by
  obtain ⟨cells, array, length, stores⟩ := represents.cells
  have head : (queue.nHead.toNat : Int) = queue.nHead := Int.toNat_of_nonneg represents.head.1
  have fits := represents.fits
  have size : queue.nSize.toNat = capacity + 1 := by rw [represents.size]; omega
  have used : ((queue.nTail - queue.nHead) % queue.nSize).toNat = elements.length := by
    rw [represents.tail, represents.size, ← head]
    have reduced : (((queue.nHead.toNat + elements.length) % (capacity + 1) : Nat) : Int) -
        (queue.nHead.toNat : Int) ≡ (elements.length : Int) [ZMOD (capacity + 1 : Int)] := by
      have wraps : (((queue.nHead.toNat + elements.length) % (capacity + 1) : Nat) : Int) ≡
          (queue.nHead.toNat + elements.length : Int) [ZMOD (capacity + 1 : Int)] := by
        push_cast
        exact Int.mod_modEq _ _
      simpa using wraps.sub_right (queue.nHead.toNat : Int)
    rw [Int.toNat_natCast, reduced, Int.emod_eq_of_lt (by omega) (by omega), Int.toNat_natCast]
  rw [contents, used, array, size]
  apply List.ext_getElem?
  intro offset
  by_cases below : offset < elements.length
  · have cell := stores offset below
    have present := List.getElem?_eq_getElem below
    simp [List.getElem?_range below, cell, present]
  · rw [List.getElem?_eq_none (by simp; omega), List.getElem?_eq_none (by omega)]

theorem Represents.self (represents : Represents capacity queue elements) :
    Represents capacity queue queue.contents := by
  rwa [represents.contents_eq]

theorem int_ok {value : Int} (low : -2 ^ 31 ≤ value) (high : value < 2 ^ 31) :
    int value = .ok value := by
  rw [int, if_pos ⟨by omega, by omega⟩]

theorem int_eq {value result : Int} (computed : int value = .ok result) : result = value := by
  unfold int at computed
  split at computed <;> cases computed
  rfl

theorem int_bounds {value result : Int} (computed : int value = .ok result) :
    -2 ^ 31 ≤ value ∧ value < 2 ^ 31 := by
  unfold int at computed
  split at computed
  case isTrue bounds => omega
  case isFalse => cases computed

theorem bind_ok {Value Result : Type} {computation : Except Fault Value}
    {next : Value → Except Fault Result} {result : Result}
    (accepted : computation >>= next = .ok result) :
    ∃ value, computation = .ok value ∧ next value = .ok result := by
  cases computation with
  | error => cases accepted
  | ok value => exact ⟨value, rfl, accepted⟩

theorem remainder_eq {dividend divisor result : Int}
    (computed : remainder dividend divisor = .ok result) :
    divisor ≠ 0 ∧ result = dividend.tmod divisor := by
  unfold remainder at computed
  split at computed
  case isTrue => cases computed
  case isFalse nonzero => cases computed; exact ⟨nonzero, rfl⟩

/-- Everything that an `Init` can do, on any queue. -/
theorem init_inv {nSize : Int} {allocates : Bool} {after : CDMQueue α} {ret : Option Bool}
    (result : queue.init nSize allocates = .ok (after, ret)) :
    (-2 ^ 31 ≤ nSize + 1 ∧ nSize + 1 < 2 ^ 31) ∧
      ((ret = some true ∧ 0 ≤ nSize + 1 ∧ allocates = true ∧
          after = { queue with
            nSize := nSize + 1
            pArray := some (List.replicate (nSize + 1).toNat none) }) ∨
        (ret = none ∧ ¬(0 ≤ nSize + 1 ∧ allocates = true) ∧
          after = { queue with nSize := nSize + 1 })) := by
  obtain ⟨size, computed, result⟩ := bind_ok result
  have bounds := int_bounds computed
  have value := int_eq computed
  subst value
  refine ⟨bounds, ?_⟩
  simp only at result
  split at result
  case isTrue allocated =>
      cases result
      exact .inl ⟨rfl, allocated.1, allocated.2, rfl⟩
  case isFalse fails =>
      cases result
      exact .inr ⟨rfl, fails, rfl⟩

/-- Everything that a `PushBack` can do, on any queue. -/
theorem pushBack_inv {ptr : Option α} {after : CDMQueue α} {ret : Bool}
    (result : queue.pushBack ptr = .ok (after, ret)) :
    ∃ nUsed, distance queue.nTail queue.nSize queue.nHead = .ok nUsed ∧
      ((ret = false ∧ queue.nSize - 1 ≤ nUsed ∧ after = queue) ∨
        (ret = true ∧ nUsed < queue.nSize - 1 ∧
          ∃ pArray, setCell queue.pArray queue.nTail ptr = .ok pArray ∧
            after = { queue with pArray, nTail := (queue.nTail + 1).tmod queue.nSize })) := by
  obtain ⟨nUsed, measured, result⟩ := bind_ok result
  obtain ⟨limit, computed, result⟩ := bind_ok result
  have value := int_eq computed
  subst value
  refine ⟨nUsed, measured, ?_⟩
  split at result
  case isTrue full =>
      cases result
      exact .inl ⟨rfl, full, rfl⟩
  case isFalse room =>
      obtain ⟨pArray, written, result⟩ := bind_ok result
      obtain ⟨sum, computed, result⟩ := bind_ok result
      obtain ⟨nTail, reduced, result⟩ := bind_ok result
      have value := int_eq computed
      subst value
      obtain ⟨_, rfl⟩ := remainder_eq reduced
      cases result
      exact .inr ⟨rfl, by omega, pArray, written, rfl⟩

/-- Everything that a `PopFront` can do, on any queue. -/
theorem popFront_inv {ptr : Option α} {after : CDMQueue α}
    (result : queue.popFront = .ok (after, ptr)) :
    ∃ nUsed, distance queue.nTail queue.nSize queue.nHead = .ok nUsed ∧
      ((nUsed = 0 ∧ ptr = none ∧ after = queue) ∨
        (nUsed ≠ 0 ∧ cellAt queue.pArray queue.nHead = .ok ptr ∧
          after = { queue with nHead := (queue.nHead + 1).tmod queue.nSize })) := by
  obtain ⟨nUsed, measured, result⟩ := bind_ok result
  refine ⟨nUsed, measured, ?_⟩
  split at result
  case isTrue nothing =>
      cases result
      exact .inl ⟨nothing.symm, rfl, rfl⟩
  case isFalse present =>
      obtain ⟨found, read, result⟩ := bind_ok result
      obtain ⟨sum, computed, result⟩ := bind_ok result
      obtain ⟨nHead, reduced, result⟩ := bind_ok result
      have value := int_eq computed
      subst value
      obtain ⟨_, rfl⟩ := remainder_eq reduced
      cases result
      exact .inr ⟨fun zero => present zero.symm, read, rfl⟩

theorem mod_of_used {size head used : Nat} (headBound : head < size) (usedBound : used < size) :
    (head + used) % size = if head + used < size then head + used else head + used - size := by
  split
  case isTrue below => exact Nat.mod_eq_of_lt below
  case isFalse above => rw [Nat.mod_eq_sub_mod (by omega), Nat.mod_eq_of_lt (by omega)]

theorem distance_ok {size head : Nat} (used : Nat)
    (sum : (head + used) % size + size < 2 ^ 31) (headBound : head < size)
    (usedBound : used < size) :
    distance (((head + used) % size : Nat) : Int) size head = .ok used := by
  have tail := mod_of_used headBound usedBound
  have tailBound := Nat.mod_lt (head + used) (by omega : 0 < size)
  unfold distance
  rw [int_ok (by omega) (by omega)]
  simp only [bind, Except.bind]
  rw [int_ok (by omega) (by omega)]
  simp only [pure, Except.pure]
  split at tail
  case isTrue =>
      rw [if_pos (by omega), int_ok (by omega) (by omega)]
      congr 1
      omega
  case isFalse =>
      rw [if_neg (by omega)]
      congr 1
      omega

/-- A distance is defined if its three differences are. -/
theorem distance_defined {nTail nSize nHead : Int}
    (first : -2 ^ 31 ≤ nTail + nSize ∧ nTail + nSize < 2 ^ 31)
    (second : -2 ^ 31 ≤ nTail + nSize - nHead ∧ nTail + nSize - nHead < 2 ^ 31)
    (third : -2 ^ 31 ≤ nTail - nHead ∧ nTail - nHead < 2 ^ 31) :
    ∃ nUsed, distance nTail nSize nHead = .ok nUsed := by
  simp only [distance, bind, Except.bind]
  rw [int_ok first.1 first.2]
  simp only []
  rw [int_ok second.1 second.2]
  simp only []
  split
  case isTrue => exact ⟨_, int_ok (by omega) (by omega)⟩
  case isFalse => exact ⟨_, rfl⟩

theorem distance_bounds {nTail nSize nHead nUsed : Int}
    (measured : distance nTail nSize nHead = .ok nUsed) :
    -2 ^ 31 ≤ nTail + nSize ∧ nTail + nSize < 2 ^ 31 := by
  obtain ⟨sum, computed, _⟩ := bind_ok measured
  exact int_bounds computed

/-- Whatever the size: a distance that does not overflow is the used size. -/
theorem distance_value {size head used : Nat} (headBound : head < size) (usedBound : used < size)
    {nUsed : Int} (computed : distance (((head + used) % size : Nat) : Int) size head = .ok nUsed) :
    nUsed = used := by
  have tail := mod_of_used headBound usedBound
  simp only [distance, bind, Except.bind] at computed
  cases first : int ((((head + used) % size : Nat) : Int) + size) with
  | error => simp only [first] at computed; cases computed
  | ok sum =>
      cases second : int (sum - head) with
      | error => simp only [first, second] at computed; cases computed
      | ok nDist =>
          have sums := int_eq first
          have dists := int_eq second
          simp only [first, second] at computed
          split at computed
          case isTrue =>
              have result := int_eq computed
              split at tail <;> omega
          case isFalse =>
              cases computed
              split at tail <;> omega

theorem remainder_ok (index : Nat) {size : Nat} (positive : 0 < size) :
    remainder (index + 1) size = .ok (((index + 1) % size : Nat) : Int) := by
  rw [remainder, if_neg (by omega)]
  rfl

namespace Represents

theorem tail_toNat (represents : Represents capacity queue elements) :
    queue.nTail.toNat = (queue.nHead.toNat + elements.length) % (capacity + 1) := by
  rw [represents.tail]
  rfl

theorem tail_bound (represents : Represents capacity queue elements) :
    0 ≤ queue.nTail ∧ queue.nTail.toNat < capacity + 1 := by
  have positive : 0 < capacity + 1 := Nat.succ_pos capacity
  have below := Nat.mod_lt (queue.nHead.toNat + elements.length) positive
  rw [← represents.tail_toNat] at below
  exact ⟨by rw [represents.tail]; exact Int.natCast_nonneg _, below⟩

/-- The first sum of every call is an `int` as long as the ring is small. -/
theorem sum_lt (represents : Represents capacity queue elements)
    (small : capacity + 1 ≤ 2 ^ 30) : queue.nTail + queue.nSize < 2 ^ 31 := by
  have size := represents.size
  obtain ⟨nonneg, below⟩ := represents.tail_bound
  omega

theorem distance_eq (represents : Represents capacity queue elements)
    (sum : queue.nTail + queue.nSize < 2 ^ 31) :
    distance queue.nTail queue.nSize queue.nHead = .ok (elements.length : Int) := by
  have head : (queue.nHead.toNat : Int) = queue.nHead := Int.toNat_of_nonneg represents.head.1
  have tail := represents.tail
  have size := represents.size
  have computed := distance_ok elements.length (by omega) represents.head.2
    (Nat.lt_succ_of_le represents.fits)
  rw [head, ← tail] at computed
  rw [size]
  exact_mod_cast computed

theorem getUsedSize_eq (represents : Represents capacity queue elements)
    (sum : queue.nTail + queue.nSize < 2 ^ 31) :
    queue.getUsedSize = .ok (elements.length : Int) :=
  represents.distance_eq sum

theorem pushBack_full (represents : Represents capacity queue elements)
    (sum : queue.nTail + queue.nSize < 2 ^ 31) (full : elements.length = capacity)
    (ptr : Option α) : queue.pushBack ptr = .ok (queue, false) := by
  have size := represents.size
  have nonneg := represents.tail_bound.1
  simp only [pushBack, represents.distance_eq sum, bind, Except.bind]
  rw [int_ok (by omega) (by omega)]
  simp only []
  rw [if_pos (by omega)]
  rfl

theorem tail_ne_head (represents : Represents capacity queue elements)
    (present : elements ≠ []) (room : elements.length < capacity) :
    queue.nTail ≠ queue.nHead := by
  have some_length := List.length_pos_of_ne_nil present
  have apart := @Ring.mod_ne_of_window (capacity + 1) queue.nHead.toNat
    (queue.nHead.toNat + elements.length) (by omega) (by omega)
  rw [Nat.mod_eq_of_lt represents.head.2, ← represents.tail_toNat] at apart
  exact fun same => apart (congrArg Int.toNat same).symm

/-- The cell at the tail is free to be written while there is room. -/
theorem writeCell (represents : Represents capacity queue elements)
    (room : elements.length < capacity) (ptr : Option α) :
    ∃ pArray, setCell queue.pArray queue.nTail ptr = .ok pArray ∧
      Represents capacity { queue with pArray } elements ∧
      cellAt pArray queue.nTail = .ok ptr := by
  obtain ⟨cells, array, length, stores⟩ := represents.cells
  obtain ⟨nonneg, below⟩ := represents.tail_bound
  have inside : queue.nTail.toNat < cells.length := by rw [length]; exact below
  refine ⟨some (cells.set queue.nTail.toNat ptr), ?_, ⟨represents.size, represents.fits,
    represents.head, represents.tail, _, rfl, by rw [List.length_set, length], ?_⟩, ?_⟩
  · simp only [setCell, array]
    rw [if_pos ⟨nonneg, inside⟩]
  · rw [represents.tail_toNat]
    exact stores.set_free (by omega) ptr
  · simp only [cellAt]
    rw [if_pos nonneg, List.getElem?_set_self inside]

/-- Storing the tail publishes the cell that it leaves behind. -/
theorem writeTail (represents : Represents capacity queue elements)
    (room : elements.length < capacity) {ptr : Option α}
    (cell : cellAt queue.pArray queue.nTail = .ok ptr) :
    Represents capacity
      { queue with nTail := ((queue.nTail.toNat + 1) % (capacity + 1) : Nat) }
      (elements ++ [ptr]) := by
  obtain ⟨cells, array, length, stores⟩ := represents.cells
  obtain ⟨nonneg, below⟩ := represents.tail_bound
  have inside : queue.nTail.toNat < cells.length := by rw [length]; exact below
  have stored : cells[queue.nTail.toNat]? = some ptr := by
    rw [List.getElem?_eq_getElem inside]
    simp only [cellAt, array, if_pos nonneg, List.getElem?_eq_getElem inside] at cell
    exact congrArg some (Except.ok.inj cell)
  refine ⟨represents.size, ?_, represents.head, ?_, cells, array, length, stores.snoc ?_⟩
  · rw [List.length_append, List.length_singleton]; omega
  · simp only [represents.tail_toNat, Nat.mod_add_mod, List.length_append, List.length_singleton,
      Nat.add_assoc]
  · rw [← represents.tail_toNat]
    exact stored

theorem readCell {ptr : Option α} {rest : List (Option α)}
    (represents : Represents capacity queue (ptr :: rest)) :
    cellAt queue.pArray queue.nHead = .ok ptr := by
  obtain ⟨cells, array, length, stores⟩ := represents.cells
  have first := stores.head
  rw [Nat.mod_eq_of_lt represents.head.2] at first
  simp only [cellAt, array]
  rw [if_pos represents.head.1, first]

/-- Storing the head gives the oldest cell back. -/
theorem writeHead {ptr : Option α} {rest : List (Option α)}
    (represents : Represents capacity queue (ptr :: rest)) :
    Represents capacity
      { queue with nHead := ((queue.nHead.toNat + 1) % (capacity + 1) : Nat) } rest := by
  obtain ⟨cells, array, length, stores⟩ := represents.cells
  have fits := represents.fits
  refine ⟨represents.size, ?_, ⟨Int.natCast_nonneg _, ?_⟩, ?_, cells, array, length, stores.pop⟩
  · rw [List.length_cons] at fits; omega
  · exact Nat.mod_lt _ (Nat.succ_pos capacity)
  · rw [represents.tail, List.length_cons, Int.toNat_natCast, Nat.mod_add_mod]
    congr 2
    omega

theorem next_ok (represents : Represents capacity queue elements) {index : Int}
    (bound : capacity + 1 < 2 ^ 31) (nonneg : 0 ≤ index) (below : index.toNat < capacity + 1) :
    int (index + 1) = .ok (index + 1) ∧
      remainder (index + 1) queue.nSize =
        .ok (((index.toNat + 1) % (capacity + 1) : Nat) : Int) := by
  refine ⟨int_ok (by omega) (by omega), ?_⟩
  rw [represents.size, show index + 1 = (index.toNat : Int) + 1 by omega]
  exact remainder_ok index.toNat (Nat.succ_pos capacity)

theorem pushBack_room (represents : Represents capacity queue elements)
    (sum : queue.nTail + queue.nSize < 2 ^ 31) (room : elements.length < capacity)
    (ptr : Option α) :
    ∃ after, queue.pushBack ptr = .ok (after, true) ∧
      Represents capacity after (elements ++ [ptr]) := by
  have size := represents.size
  obtain ⟨nonneg, below⟩ := represents.tail_bound
  have next := represents.next_ok (by omega) nonneg below
  obtain ⟨pArray, written, kept, cell⟩ := represents.writeCell room ptr
  refine ⟨_, ?_, kept.writeTail room cell⟩
  simp only [pushBack, represents.distance_eq sum, bind, Except.bind]
  rw [int_ok (by omega) (by omega)]
  simp only []
  rw [if_neg (by omega), written]
  simp only [next.1, next.2]
  rfl

theorem popFront_empty (represents : Represents capacity queue [])
    (sum : queue.nTail + queue.nSize < 2 ^ 31) : queue.popFront = .ok (queue, none) := by
  simp only [popFront, represents.distance_eq sum, bind, Except.bind]
  rfl

theorem popFront_cons {ptr : Option α} {rest : List (Option α)}
    (represents : Represents capacity queue (ptr :: rest))
    (sum : queue.nTail + queue.nSize < 2 ^ 31) :
    ∃ after, queue.popFront = .ok (after, ptr) ∧ Represents capacity after rest := by
  have size := represents.size
  have nonneg := represents.tail_bound.1
  have next := represents.next_ok (by omega) represents.head.1 represents.head.2
  refine ⟨_, ?_, represents.writeHead⟩
  simp only [popFront, represents.distance_eq sum, bind, Except.bind]
  rw [if_neg (by simp only [List.length_cons]; omega), represents.readCell]
  simp only [next.1, next.2]
  rfl

theorem pushBack_ok (represents : Represents capacity queue elements)
    (sum : queue.nTail + queue.nSize < 2 ^ 31) (ptr : Option α) :
    ∃ result, queue.pushBack ptr = .ok result := by
  rcases Nat.lt_or_eq_of_le represents.fits with room | full
  · obtain ⟨after, pushed, _⟩ := represents.pushBack_room sum room ptr
    exact ⟨_, pushed⟩
  · exact ⟨_, represents.pushBack_full sum full ptr⟩

theorem popFront_ok (represents : Represents capacity queue elements)
    (sum : queue.nTail + queue.nSize < 2 ^ 31) : ∃ result, queue.popFront = .ok result := by
  cases elements with
  | nil => exact ⟨_, represents.popFront_empty sum⟩
  | cons ptr rest =>
      obtain ⟨after, popped, _⟩ := represents.popFront_cons sum
      exact ⟨_, popped⟩

end Represents

/-- An `Init` that returns leaves the indices where they were. Inside the new ring
they enclose cells that nobody has written. -/
theorem represents_of_init_stale {size : Int} {after : CDMQueue α} (nonneg : 0 ≤ size)
    (head : 0 ≤ queue.nHead ∧ queue.nHead ≤ size) (tail : 0 ≤ queue.nTail ∧ queue.nTail ≤ size)
    (built : queue.init size true = .ok (after, some true)) :
    Represents size.toNat after
      (List.replicate ((queue.nTail - queue.nHead) % (size + 1)).toNat none) := by
  obtain ⟨_, ⟨_, _, _, rfl⟩ | ⟨unbuilt, _, _⟩⟩ := init_inv built
  case inr => cases unbuilt
  case inl =>
      have apart := Int.emod_nonneg (queue.nTail - queue.nHead) (by omega : size + 1 ≠ 0)
      have below := Int.emod_lt_of_pos (queue.nTail - queue.nHead) (by omega : 0 < size + 1)
      constructor
      case size => simp only; omega
      case fits => rw [List.length_replicate]; omega
      case head => exact ⟨head.1, by simp only; omega⟩
      case tail =>
          simp only [List.length_replicate]
          push_cast
          rw [Int.toNat_of_nonneg head.1, Int.toNat_of_nonneg apart, Int.toNat_of_nonneg nonneg,
            Int.add_emod_emod, add_sub_cancel]
          exact (Int.emod_eq_of_lt tail.1 (by omega)).symm
      case cells =>
          refine ⟨_, rfl, by rw [List.length_replicate]; omega, ?_⟩
          intro offset enclosed
          rw [List.length_replicate] at enclosed
          have inside : (queue.nHead.toNat + offset) % (size.toNat + 1) < (size + 1).toNat := by
            have bound := Nat.mod_lt (queue.nHead.toNat + offset) (by omega : 0 < size.toNat + 1)
            omega
          rw [List.getElem?_replicate_of_lt enclosed, List.getElem?_replicate_of_lt inside]

/-- An `Init` that returns starts a queue whose indices are zero empty. -/
theorem represents_of_init {size : Int} {after : CDMQueue α} (nonneg : 0 ≤ size)
    (head : queue.nHead = 0) (tail : queue.nTail = 0)
    (built : queue.init size true = .ok (after, some true)) :
    Represents size.toNat after [] := by
  have empty := represents_of_init_stale nonneg (by omega) (by omega) built
  rw [head, tail] at empty
  exact empty

theorem init_ok {size : Int} (low : -1 ≤ size) (high : size + 1 < 2 ^ 31) :
    queue.init size true = .ok
      ({ queue with
          nSize := size + 1
          pArray := some (List.replicate (size + 1).toNat none) }, some true) := by
  unfold init
  rw [int_ok (by omega) (by omega)]
  simp only [bind, Except.bind]
  rw [if_pos ⟨by omega, trivial⟩]
  rfl

theorem init_represents {size : Int} (small : size + 1 ≤ 2 ^ 30) (nonneg : 0 ≤ size)
    (head : queue.nHead = 0) (tail : queue.nTail = 0) :
    ∃ after, queue.init size true = .ok (after, some true) ∧
      Represents size.toNat after [] := by
  have built := @init_ok α queue size (by omega) (by omega)
  exact ⟨_, built, represents_of_init nonneg head tail built⟩

theorem empty_init (α : Type) (small : capacity + 1 ≤ 2 ^ 30) :
    ∃ after : CDMQueue α, CDMQueue.empty.init capacity true = .ok (after, some true) ∧
      Represents capacity after [] :=
  @init_represents α CDMQueue.empty capacity (by omega) (by omega) rfl rfl

end DmLockFree.CDMQueue
