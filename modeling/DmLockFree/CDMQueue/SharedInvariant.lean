import DmLockFree.CDMQueue.Shared
import DmLockFree.CDMQueue.Sequential

/-! One producer and one consumer on a `CDMQueue`: the stored pointers as ghost
state, and for every program point what its thread knows. An index that was read
before the other thread moved on belongs to an occupancy that was observed. -/

set_option autoImplicit false

namespace DmLockFree.CDMQueue

open Library

variable {α : Type}

/-- The pointer that a step publishes. -/
def pushed : Option (Return α) → List α
  | some (.pushBack ptr true) => [ptr]
  | _ => []

/-- The pointer that a step takes out. -/
def popped : Option (Return α) → List α
  | some (.popFront (some ptr)) => [ptr]
  | _ => []

/-- The index behind the given one. -/
abbrev following (capacity : Nat) (index : Int) : Int :=
  ((index.toNat + 1) % (capacity + 1) : Nat)

/-- `observed` are the occupancies at the reads of `m_nHead` in the running call. -/
def ProducerFacts (capacity : Nat) (observed : Nat → Prop) (queue : CDMQueue α)
    (elements : List α) : Pc α → Prop
  | .idle => True
  | .readFirst goal _ => Thread.producer.calls goal = true
  | .readSecond goal .tailFirst first =>
      Thread.producer.calls goal = true ∧ first = queue.nTail
  | .readSecond goal .headFirst first =>
      Thread.producer.calls goal = true ∧ ∃ used, observed used ∧ elements.length ≤ used ∧
        used ≤ capacity ∧ 0 ≤ first ∧ first.toNat < capacity + 1 ∧
        queue.nTail = ((first.toNat + used) % (capacity + 1) : Nat)
  | .pushReadTail _ => elements.length < capacity
  | .pushWriteCell _ index => elements.length < capacity ∧ index = queue.nTail
  | .pushReadTailAgain ptr =>
      elements.length < capacity ∧ cellAt queue.pArray queue.nTail = .ok (some ptr)
  | .pushWriteTail ptr nTail =>
      elements.length < capacity ∧ cellAt queue.pArray queue.nTail = .ok (some ptr) ∧
        nTail = following capacity queue.nTail
  | _ => False

/-- `observed` are the occupancies at the reads of `m_nTail` in the running call. -/
def ConsumerFacts (capacity : Nat) (observed : Nat → Prop) (queue : CDMQueue α)
    (elements : List α) : Pc α → Prop
  | .idle => True
  | .readFirst goal _ => Thread.consumer.calls goal = true
  | .readSecond goal .headFirst first =>
      Thread.consumer.calls goal = true ∧ first = queue.nHead
  | .readSecond goal .tailFirst first =>
      Thread.consumer.calls goal = true ∧ ∃ used, observed used ∧ used ≤ elements.length ∧
        first = ((queue.nHead.toNat + used) % (capacity + 1) : Nat)
  | .popReadHead => elements ≠ []
  | .popReadCell index => elements ≠ [] ∧ index = queue.nHead
  | .popReadHeadAgain ptr => ∃ first rest, elements = first :: rest ∧ ptr = some first
  | .popWriteHead ptr nHead =>
      ∃ first rest, elements = first :: rest ∧ ptr = some first ∧
        nHead = following capacity queue.nHead
  | _ => False

section Interference

variable {capacity : Nat} {observed later : Nat → Prop} {queue after : CDMQueue α}
  {elements : List α} {pc : Pc α}

/-- The consumer takes elements and leaves the cells and the tail alone. -/
theorem ProducerFacts.taken {out rest : List α}
    (facts : ProducerFacts capacity observed queue (out ++ rest) pc)
    (keeps : ∀ used, observed used → later used) (tail : after.nTail = queue.nTail)
    (array : after.pArray = queue.pArray) : ProducerFacts capacity later after rest pc := by
  have shorter : rest.length ≤ (out ++ rest).length := by simp
  cases pc with
  | readSecond goal order first =>
      cases order with
      | tailFirst => exact ⟨facts.1, facts.2.trans tail.symm⟩
      | headFirst =>
          obtain ⟨goals, used, seen, atMost, fits, nonneg, below, same⟩ := facts
          exact ⟨goals, used, keeps used seen, shorter.trans atMost, fits, nonneg, below,
            tail.trans same⟩
  | pushReadTail => exact shorter.trans_lt facts
  | pushWriteCell => exact ⟨shorter.trans_lt facts.1, facts.2.trans tail.symm⟩
  | pushReadTailAgain =>
      refine ⟨shorter.trans_lt facts.1, ?_⟩
      rw [tail, array]
      exact facts.2
  | pushWriteTail =>
      refine ⟨shorter.trans_lt facts.1, ?_⟩
      rw [tail, array]
      exact facts.2
  | _ => exact facts

/-- The producer adds elements and leaves the head alone. -/
theorem ConsumerFacts.added {extra : List α}
    (facts : ConsumerFacts capacity observed queue elements pc)
    (keeps : ∀ used, observed used → later used) (head : after.nHead = queue.nHead) :
    ConsumerFacts capacity later after (elements ++ extra) pc := by
  have longer : elements.length ≤ (elements ++ extra).length := by simp
  cases pc with
  | readSecond goal order first =>
      cases order with
      | headFirst => exact ⟨facts.1, facts.2.trans head.symm⟩
      | tailFirst =>
          obtain ⟨goals, used, seen, atMost, same⟩ := facts
          refine ⟨goals, used, keeps used seen, atMost.trans longer, ?_⟩
          rw [head]
          exact same
  | popReadHead => exact List.append_ne_nil_of_left_ne_nil facts extra
  | popReadCell =>
      exact ⟨List.append_ne_nil_of_left_ne_nil facts.1 extra, facts.2.trans head.symm⟩
  | popReadHeadAgain ptr =>
      obtain ⟨first, rest, rfl, same⟩ := facts
      exact ⟨first, rest ++ extra, rfl, same⟩
  | popWriteHead ptr nHead =>
      obtain ⟨first, rest, rfl, same, next⟩ := facts
      refine ⟨first, rest ++ extra, rfl, same, ?_⟩
      rw [head]
      exact next
  | _ => exact facts

end Interference

/-- What a step of the producer owes. -/
structure ProducerKeeps (capacity : Nat) (later : Nat → Prop) (queue : CDMQueue α)
    (elements : List α) (after : CDMQueue α) (next : Pc α) (returned : Option (Return α)) :
    Prop where
  stored : after.Represents capacity ((elements ++ pushed returned).map some)
  facts : ProducerFacts capacity later after (elements ++ pushed returned) next
  head : after.nHead = queue.nHead
  takes : popped returned = []
  refused : ∀ ptr, returned = some (.pushBack ptr false) → later capacity
  found : returned ≠ some (.popFront none)
  measured : ∀ used, returned = some (.getUsedSize used) →
    ∃ count : Nat, used = count ∧ count ≤ capacity ∧ later count

/-- What a step of the consumer owes; `rest` is stored after it. -/
structure ConsumerKeeps (capacity : Nat) (later : Nat → Prop) (queue : CDMQueue α)
    (elements rest : List α) (after : CDMQueue α) (next : Pc α)
    (returned : Option (Return α)) : Prop where
  split : elements = popped returned ++ rest
  stored : after.Represents capacity (rest.map some)
  facts : ConsumerFacts capacity later after rest next
  tail : after.nTail = queue.nTail
  array : after.pArray = queue.pArray
  gives : pushed returned = []
  refused : ∀ ptr, returned ≠ some (.pushBack ptr false)
  found : returned = some (.popFront none) → later 0
  measured : ∀ used, returned = some (.getUsedSize used) →
    ∃ count : Nat, used = count ∧ count ≤ capacity ∧ later count

section Steps

variable {capacity : Nat} {observed later : Nat → Prop} {queue after : CDMQueue α}
  {elements : List α} {pc next : Pc α} {output : Output α}

theorem ProducerKeeps.quiet
    (stored : after.Represents capacity (elements.map some))
    (facts : ProducerFacts capacity later after elements next)
    (head : after.nHead = queue.nHead) :
    ProducerKeeps capacity later queue elements after next none where
  stored := by simpa [pushed] using stored
  facts := by simpa [pushed] using facts
  head := head
  takes := rfl
  refused := nofun
  found := nofun
  measured := nofun

theorem ConsumerKeeps.quiet
    (stored : after.Represents capacity (elements.map some))
    (facts : ConsumerFacts capacity later after elements next)
    (tail : after.nTail = queue.nTail) (array : after.pArray = queue.pArray) :
    ConsumerKeeps capacity later queue elements elements after next none where
  split := rfl
  stored := stored
  facts := facts
  tail := tail
  array := array
  gives := rfl
  refused := nofun
  found := nofun
  measured := nofun

theorem ok_of_toOption {Value : Type} {computation : Except Fault Value} {value : Value}
    (accepted : computation.toOption = some value) : computation = .ok value := by
  cases computation with
  | error => cases accepted
  | ok => cases accepted; rfl

/-- The two indices that a call computes with lie `used` cells apart. -/
def Apart (capacity used : Nat) (indices : Int × Int) : Prop :=
  ∃ head : Nat, head < capacity + 1 ∧
    indices = ((((head + used) % (capacity + 1) : Nat) : Int), (head : Int))

theorem Apart.distance_ok {used : Nat} {indices : Int × Int} (apart : Apart capacity used indices)
    (small : capacity + 1 ≤ 2 ^ 30) (fits : used ≤ capacity) :
    distance indices.1 (capacity + 1) indices.2 = .ok (used : Int) := by
  obtain ⟨head, below, rfl⟩ := apart
  have tail := Nat.mod_lt (head + used) (by omega : 0 < capacity + 1)
  exact CDMQueue.distance_ok used (by omega) below (Nat.lt_succ_of_le fits)

theorem Apart.distance_value {used : Nat} {indices : Int × Int}
    (apart : Apart capacity used indices) (fits : used ≤ capacity) {nUsed : Int}
    (computed : distance indices.1 (capacity + 1) indices.2 = .ok nUsed) : nUsed = used := by
  obtain ⟨head, below, rfl⟩ := apart
  exact CDMQueue.distance_value below (Nat.lt_succ_of_le fits) computed

theorem indices_apart (stored : queue.Represents capacity (elements.map some)) :
    Apart capacity elements.length (queue.nTail, queue.nHead) := by
  have tail := stored.tail
  rw [List.length_map] at tail
  refine ⟨queue.nHead.toNat, stored.head.2, ?_⟩
  rw [← tail, Int.toNat_of_nonneg stored.head.1]

/-- The producer's distance is the occupancy at its read of `m_nHead`. -/
theorem producer_distance (stored : queue.Represents capacity (elements.map some))
    {goal : Goal α} {order : Order} {first : Int}
    (facts : ProducerFacts capacity observed queue elements (.readSecond goal order first))
    (keeps : ∀ used, observed used → later used)
    (now : (order.readSecond queue first).2 = .readHead → later elements.length) :
    ∃ used : Nat, Apart capacity used (order.readSecond queue first).1 ∧
      elements.length ≤ used ∧ used ≤ capacity ∧ later used := by
  have fits := stored.fits
  rw [List.length_map] at fits
  cases order with
  | tailFirst =>
      obtain ⟨_, rfl⟩ := facts
      exact ⟨elements.length, indices_apart stored, le_rfl, fits, now rfl⟩
  | headFirst =>
      obtain ⟨_, used, seen, atMost, bound, nonneg, below, tail⟩ := facts
      refine ⟨used, ⟨first.toNat, below, ?_⟩, atMost, bound, keeps used seen⟩
      rw [← tail, Int.toNat_of_nonneg nonneg]
      rfl

/-- The consumer's distance is the occupancy at its read of `m_nTail`. -/
theorem consumer_distance (stored : queue.Represents capacity (elements.map some))
    {goal : Goal α} {order : Order} {first : Int}
    (facts : ConsumerFacts capacity observed queue elements (.readSecond goal order first))
    (keeps : ∀ used, observed used → later used)
    (now : (order.readSecond queue first).2 = .readTail → later elements.length) :
    ∃ used : Nat, Apart capacity used (order.readSecond queue first).1 ∧
      used ≤ elements.length ∧ used ≤ capacity ∧ later used := by
  have fits := stored.fits
  rw [List.length_map] at fits
  cases order with
  | headFirst =>
      obtain ⟨_, rfl⟩ := facts
      exact ⟨elements.length, indices_apart stored, le_rfl, fits, now rfl⟩
  | tailFirst =>
      obtain ⟨_, used, seen, atMost, rfl⟩ := facts
      refine ⟨used, ⟨queue.nHead.toNat, stored.head.2, ?_⟩, atMost, atMost.trans fits,
        keeps used seen⟩
      rw [Int.toNat_of_nonneg stored.head.1]
      rfl

theorem next_eq (stored : queue.Represents capacity (elements.map some))
    (small : capacity + 1 ≤ 2 ^ 30) {index : Int} (nonneg : 0 ≤ index)
    (below : index.toNat < capacity + 1) : queue.next index = some (following capacity index) := by
  have computed := stored.next_ok (by omega) nonneg below
  simp only [CDMQueue.next, Except.bind, computed.1, computed.2]
  rfl

theorem next_value (stored : queue.Represents capacity (elements.map some)) {index nextIndex : Int}
    (nonneg : 0 ≤ index) (computed : queue.next index = some nextIndex) :
    nextIndex = following capacity index := by
  unfold CDMQueue.next at computed
  cases sum : int (index + 1) with
  | error => simp only [sum, Except.bind] at computed; cases computed
  | ok value =>
      have sums := int_eq sum
      subst sums
      have result := remainder_ok index.toNat (Nat.succ_pos capacity)
      rw [Int.toNat_of_nonneg nonneg] at result
      rw [Nat.cast_succ] at result
      simp only [sum, Except.bind, stored.size, result] at computed
      cases computed
      rfl

theorem ProducerFacts.goals {goal : Goal α} {order : Order} {first : Int}
    (facts : ProducerFacts capacity observed queue elements (.readSecond goal order first)) :
    Thread.producer.calls goal = true := by
  cases order <;> exact facts.1

theorem ConsumerFacts.goals {goal : Goal α} {order : Order} {first : Int}
    (facts : ConsumerFacts capacity observed queue elements (.readSecond goal order first)) :
    Thread.consumer.calls goal = true := by
  cases order <;> exact facts.1

theorem room_of_map (room : elements.length < capacity) :
    (elements.map some).length < capacity := by
  simpa using room

/-- The branch that the producer takes on an occupancy it has observed. -/
theorem ProducerKeeps.decide (stored : queue.Represents capacity (elements.map some))
    {goal : Goal α} (allowed : Thread.producer.calls goal = true) {used : Nat}
    (atMost : elements.length ≤ used) (fits : used ≤ capacity) (seen : later used) :
    ProducerKeeps capacity later queue elements queue (queue.decideUsed used goal).1
      (queue.decideUsed used goal).2 := by
  have size := stored.size
  cases goal with
  | pushBack ptr =>
      simp only [decideUsed]
      split
      case isTrue full =>
          have all : used = capacity := by omega
          subst all
          exact {
            stored := by simpa [pushed] using stored
            facts := trivial
            head := rfl
            takes := rfl
            refused := fun _ _ => seen
            found := nofun
            measured := nofun }
      case isFalse room =>
          have free : elements.length < capacity := by omega
          exact .quiet stored free rfl
  | popFront => cases allowed
  | getUsedSize =>
      exact {
        stored := by simpa [pushed, decideUsed] using stored
        facts := trivial
        head := rfl
        takes := rfl
        refused := nofun
        found := nofun
        measured := by rintro _ ⟨⟩; exact ⟨used, rfl, fits, seen⟩ }

/-- One access of the producer, with the occupancy observed if it reads `m_nHead`. -/
theorem producer_advance (stored : queue.Represents capacity (elements.map some))
    (facts : ProducerFacts capacity observed queue elements pc)
    (taken : advance queue pc = some (after, next, output))
    (keeps : ∀ used, observed used → later used)
    (now : output.access = .readHead → later elements.length) :
    ProducerKeeps capacity later queue elements after next output.returned := by
  cases pc with
  | idle => cases taken
  | readFirst goal order =>
      have fits := stored.fits
      have tail := stored.tail
      rw [List.length_map] at fits tail
      cases order with
      | tailFirst => cases taken; exact .quiet stored ⟨facts, rfl⟩ rfl
      | headFirst =>
          cases taken
          exact .quiet stored ⟨facts, elements.length, now rfl, le_rfl, fits, stored.head.1,
            stored.head.2, tail⟩ rfl
  | readSecond goal order first =>
      unfold advance at taken
      obtain ⟨nUsed, measured, same⟩ := Option.map_eq_some_iff.mp taken
      cases same
      obtain ⟨used, apart, atMost, fits, seen⟩ := producer_distance stored facts keeps now
      rw [stored.size] at measured
      obtain rfl := apart.distance_value fits (ok_of_toOption measured)
      exact .decide stored facts.goals atMost fits seen
  | pushReadTail ptr => cases taken; exact .quiet stored ⟨facts, rfl⟩ rfl
  | pushWriteCell ptr index =>
      obtain ⟨room, rfl⟩ := facts
      obtain ⟨pArray, written, kept, cell⟩ := stored.writeCell (room_of_map room) (some ptr)
      simp only [advance, written] at taken
      cases taken
      exact .quiet kept ⟨room, cell⟩ rfl
  | pushReadTailAgain ptr =>
      simp only [advance, Option.map_eq_some_iff] at taken
      obtain ⟨nTail, computed, same⟩ := taken
      cases same
      exact .quiet stored ⟨facts.1, facts.2, next_value stored stored.tail_bound.1 computed⟩ rfl
  | pushWriteTail ptr nTail =>
      obtain ⟨room, cell, rfl⟩ := facts
      have published := stored.writeTail (room_of_map room) cell
      cases taken
      exact {
        stored := by simpa [pushed] using published
        facts := trivial
        head := rfl
        takes := rfl
        refused := nofun
        found := nofun
        measured := nofun }
  | _ => exact facts.elim

/-- The branch that the consumer takes on an occupancy it has observed. -/
theorem ConsumerKeeps.decide (stored : queue.Represents capacity (elements.map some))
    {goal : Goal α} (allowed : Thread.consumer.calls goal = true) {used : Nat}
    (atMost : used ≤ elements.length) (fits : used ≤ capacity) (seen : later used) :
    ConsumerKeeps capacity later queue elements elements queue (queue.decideUsed used goal).1
      (queue.decideUsed used goal).2 := by
  cases goal with
  | pushBack => cases allowed
  | popFront =>
      simp only [decideUsed]
      split
      case isTrue empty =>
          have none : used = 0 := by omega
          subst none
          exact {
            split := rfl
            stored := stored
            facts := trivial
            tail := rfl
            array := rfl
            gives := rfl
            refused := nofun
            found := fun _ => seen
            measured := nofun }
      case isFalse present =>
          refine .quiet stored ?_ rfl rfl
          intro same
          subst same
          have none : used = 0 := Nat.le_zero.mp atMost
          exact present (by rw [none]; rfl)
  | getUsedSize =>
      exact {
        split := rfl
        stored := stored
        facts := trivial
        tail := rfl
        array := rfl
        gives := rfl
        refused := nofun
        found := nofun
        measured := by rintro _ ⟨⟩; exact ⟨used, rfl, fits, seen⟩ }

/-- One access of the consumer, with the occupancy observed if it reads `m_nTail`. -/
theorem consumer_advance (stored : queue.Represents capacity (elements.map some))
    (facts : ConsumerFacts capacity observed queue elements pc)
    (taken : advance queue pc = some (after, next, output))
    (keeps : ∀ used, observed used → later used)
    (now : output.access = .readTail → later elements.length) :
    ∃ rest, ConsumerKeeps capacity later queue elements rest after next output.returned := by
  cases pc with
  | idle => cases taken
  | readFirst goal order =>
      have tail := stored.tail
      rw [List.length_map] at tail
      cases order with
      | headFirst => cases taken; exact ⟨_, .quiet stored ⟨facts, rfl⟩ rfl rfl⟩
      | tailFirst =>
          cases taken
          exact ⟨_, .quiet stored ⟨facts, elements.length, now rfl, le_rfl, tail⟩ rfl rfl⟩
  | readSecond goal order first =>
      unfold advance at taken
      obtain ⟨nUsed, measured, same⟩ := Option.map_eq_some_iff.mp taken
      cases same
      obtain ⟨used, apart, atMost, fits, seen⟩ := consumer_distance stored facts keeps now
      rw [stored.size] at measured
      obtain rfl := apart.distance_value fits (ok_of_toOption measured)
      exact ⟨elements, .decide stored facts.goals atMost fits seen⟩
  | popReadHead => cases taken; exact ⟨_, .quiet stored ⟨facts, rfl⟩ rfl rfl⟩
  | popReadCell index =>
      obtain ⟨present, rfl⟩ := facts
      obtain ⟨first, rest, rfl⟩ := List.exists_cons_of_ne_nil present
      simp only [advance, stored.readCell] at taken
      cases taken
      exact ⟨_, .quiet stored ⟨first, rest, rfl, rfl⟩ rfl rfl⟩
  | popReadHeadAgain ptr =>
      obtain ⟨first, rest, rfl, rfl⟩ := facts
      simp only [advance, Option.map_eq_some_iff] at taken
      obtain ⟨nHead, computed, same⟩ := taken
      cases same
      exact ⟨_, .quiet stored
        ⟨first, rest, rfl, rfl, next_value stored stored.head.1 computed⟩ rfl rfl⟩
  | popWriteHead ptr nHead =>
      obtain ⟨first, rest, rfl, rfl, rfl⟩ := facts
      cases taken
      exact ⟨rest, {
        split := rfl
        stored := stored.writeHead
        facts := trivial
        tail := rfl
        array := rfl
        gives := rfl
        refused := nofun
        found := nofun
        measured := nofun }⟩
  | _ => exact facts.elim

theorem producer_goes_on (stored : queue.Represents capacity (elements.map some))
    (small : capacity + 1 ≤ 2 ^ 30) (facts : ProducerFacts capacity observed queue elements pc)
    (busy : pc ≠ .idle) : (advance queue pc).isSome := by
  cases pc with
  | idle => exact absurd rfl busy
  | readFirst | pushReadTail | pushWriteTail => rfl
  | readSecond goal order first =>
      obtain ⟨used, apart, _, fits, _⟩ := @producer_distance _ _ _ (fun _ => True) _ _ stored
        _ _ _ facts (fun _ _ => trivial) fun _ => trivial
      simp only [advance, stored.size, apart.distance_ok small fits]
      rfl
  | pushWriteCell ptr index =>
      obtain ⟨room, rfl⟩ := facts
      obtain ⟨pArray, written, _⟩ := stored.writeCell (room_of_map room) (some ptr)
      simp only [advance, written]
      rfl
  | pushReadTailAgain ptr =>
      obtain ⟨nonneg, below⟩ := stored.tail_bound
      simp only [advance, next_eq stored small nonneg below]
      rfl
  | _ => exact facts.elim

theorem consumer_goes_on (stored : queue.Represents capacity (elements.map some))
    (small : capacity + 1 ≤ 2 ^ 30) (facts : ConsumerFacts capacity observed queue elements pc)
    (busy : pc ≠ .idle) : (advance queue pc).isSome := by
  cases pc with
  | idle => exact absurd rfl busy
  | readFirst | popReadHead | popWriteHead => rfl
  | readSecond goal order first =>
      obtain ⟨used, apart, _, fits, _⟩ := @consumer_distance _ _ _ (fun _ => True) _ _ stored
        _ _ _ facts (fun _ _ => trivial) fun _ => trivial
      simp only [advance, stored.size, apart.distance_ok small fits]
      rfl
  | popReadCell index =>
      obtain ⟨present, rfl⟩ := facts
      obtain ⟨first, rest, rfl⟩ := List.exists_cons_of_ne_nil present
      simp only [advance, stored.readCell]
      rfl
  | popReadHeadAgain ptr =>
      simp only [advance, next_eq stored small stored.head.1 stored.head.2]
      rfl
  | _ => exact facts.elim

end Steps

end DmLockFree.CDMQueue
