import DmLockFree.CDMAtomicQueue.Basic

/-!
# A producer that runs alone

Whole pushes of one thread while the others rest, in any program whose threads
run the code of the queue. They take `head_` to every index behind `tail_`.
-/

set_option autoImplicit false

namespace DmLockFree.CDMAtomicQueue

open Library Program

variable {Thread T : Type}

/-- The thread may call `try_push` whenever it is between two calls. -/
structure Producing (code : Program Thread (CDMAtomicQueue T) (Pc T) (Call T) (Output T))
    (thread : Thread) : Prop where
  advance : code.advance = advance
  enter : ∀ ready outcome, code.enter thread (.idle ready) (.tryPush outcome) =
    some (.emplaceLoadHead .tryEmplace outcome)

/-- The events of one push that constructs its object in the given slot. -/
def pushEvents (thread : Thread) (value : T) (slot : UInt64) :
    List (Threads.Event Thread (Call T) (Output T)) :=
  [.called thread (.tryPush (some value)), .ran thread ⟨.loadHead, none⟩,
    .ran thread ⟨.loadTail, none⟩, .ran thread ⟨.construct slot (some value), none⟩,
    .ran thread ⟨.storeHead, some (.emplaced value)⟩]

def pushesEvents (thread : Thread) (value : T) (queue : CDMAtomicQueue T) (count : Nat) :
    List (Threads.Event Thread (Call T) (Output T)) :=
  (List.range count).flatMap fun done =>
    pushEvents thread value (queue.slot (queue.head + UInt64.ofNat done))

variable {code : Program Thread (CDMAtomicQueue T) (Pc T) (Call T) (Output T)} {thread : Thread}
  {start queue : CDMAtomicQueue T}

theorem push_alone (producing : Producing code thread) (room : queue.next queue.head ≠ queue.tail)
    (ready : Bool) (value : T) :
    code.alone thread [some (.tryPush (some value)), none, none, none, none] queue (.idle ready) =
      some (pushEvents thread value (queue.slot queue.head),
        { queue.setSlot queue.head (some value) with head := queue.next queue.head },
        .idle false) := by
  simp only [alone, producing.enter, producing.advance, advance, if_neg room, Option.map_some]
  rfl

theorem next_eq (inside : queue.head.toNat + 1 < queue.capacity.toNat) :
    queue.next queue.head = queue.head + 1 := by
  have small := queue.capacity.toNat_lt
  have sum : (queue.head + 1).toNat = queue.head.toNat + 1 := by
    rw [UInt64.toNat_add, UInt64.toNat_one, Nat.mod_eq_of_lt (by omega)]
  have before : queue.head + 1 ≠ queue.capacity := by
    intro same
    rw [← same, sum] at inside
    omega
  rw [next, if_neg before]

/-- Pushes of one thread alone, as long as they do not reach the end of the ring. -/
theorem pushes_alone [DecidableEq Thread] (producing : Producing code thread) (value : T)
    {state : Threads Thread (CDMAtomicQueue T) (Pc T)} {ready : Bool}
    (resting : state.pc thread = .idle ready) (behind : state.shared.tail ≤ state.shared.head)
    {count : Nat} (fits : state.shared.head.toNat + count < state.shared.capacity.toNat) :
    ∃ after, (code.machine start).Path state (pushesEvents thread value state.shared count) after ∧
      after.shared.head = state.shared.head + UInt64.ofNat count ∧
      after.shared.tail = state.shared.tail ∧ after.shared.capacity = state.shared.capacity ∧
      after.shared.kPadding = state.shared.kPadding ∧ ∃ ready, after.pc thread = .idle ready := by
  have small := state.shared.capacity.toNat_lt
  induction count with
  | zero =>
      refine ⟨state, .refl, ?_, rfl, rfl, rfl, ready, resting⟩
      exact (UInt64.add_zero _).symm
  | succ count ih =>
      obtain ⟨middle, path, head, tail, capacity, padding, now, rests⟩ := ih (by omega)
      have sum : middle.shared.head.toNat = state.shared.head.toNat + count := by
        have few : count < UInt64.size := by
          show count < 2 ^ 64
          omega
        rw [head, UInt64.toNat_add, UInt64.toNat_ofNat_of_lt' few, Nat.mod_eq_of_lt (by omega)]
      have inside : middle.shared.head.toNat + 1 < middle.shared.capacity.toNat := by
        rw [sum, capacity]
        omega
      have room : middle.shared.next middle.shared.head ≠ middle.shared.tail := by
        rw [next_eq inside, tail]
        intro same
        have le := UInt64.le_iff_toNat_le.mp behind
        rw [← same, UInt64.toNat_add, UInt64.toNat_one, sum, Nat.mod_eq_of_lt (by omega)] at le
        omega
      have pushed := push_alone producing room now value
      rw [← rests] at pushed
      refine ⟨middle.moved { middle.shared.setSlot middle.shared.head (some value) with
          head := middle.shared.next middle.shared.head } thread (.idle false), ?_, ?_, tail,
        capacity, padding, false, Threads.moved_pc_self ..⟩
      · rw [pushesEvents, List.range_succ, List.flatMap_append, List.flatMap_singleton]
        have slot : state.shared.slot (state.shared.head + UInt64.ofNat count) =
            middle.shared.slot middle.shared.head := by
          simp only [CDMAtomicQueue.slot, head, padding]
        rw [slot]
        exact path.trans (alone_path pushed)
      · rw [Threads.moved_shared]
        show middle.shared.next middle.shared.head = _
        rw [next_eq inside, head, UInt64.add_assoc, UInt64.ofNat_add]
        rfl

/-- The pushes of one thread alone fill a fresh queue. -/
theorem pushes_run [DecidableEq Thread] (producing : Producing code thread)
    (idle : code.idle = .idle false) (value : T) (fresh : start.head = 0 ∧ start.tail = 0)
    {count : Nat} (fits : count < start.capacity.toNat) :
    ∃ after, (code.machine start).Run (pushesEvents thread value start count) after ∧
      after.shared.head = UInt64.ofNat count ∧ after.shared.tail = 0 ∧
      after.shared.capacity = start.capacity ∧ ∃ ready, after.pc thread = .idle ready := by
  obtain ⟨empty, origin⟩ := fresh
  let state : Threads Thread (CDMAtomicQueue T) (Pc T) := ⟨start, fun _ => code.idle⟩
  have behind : state.shared.tail ≤ state.shared.head := by
    show start.tail ≤ start.head
    rw [empty, origin]
    exact UInt64.le_refl 0
  have inside : state.shared.head.toNat + count < state.shared.capacity.toNat := by
    show start.head.toNat + count < start.capacity.toNat
    rw [empty, UInt64.toNat_zero, Nat.zero_add]
    exact fits
  obtain ⟨after, path, head, tail, capacity, _, rests⟩ :=
    @pushes_alone _ _ _ _ start _ producing value state false idle behind count inside
  refine ⟨after, path, ?_, tail.trans origin, capacity, rests⟩
  rw [head]
  show start.head + UInt64.ofNat count = UInt64.ofNat count
  rw [empty, UInt64.zero_add]

end DmLockFree.CDMAtomicQueue
