import DmLockFree.CAtomicQueue.Run

/-! What one producer and one consumer can rely on in every run of a
`CAtomicQueue`. -/

set_option autoImplicit false

namespace DmLockFree.CAtomicQueue

open Library Program

variable {T : Type} {size : Nat} {ghost : Ghost T} {queue : CAtomicQueue T}

/-- The positions from `head` up to `tail`, around the ring. -/
def inRange (queue : CAtomicQueue T) (position : Nat) : Prop :=
  (position + queue.capacity.toNat - queue.head.toNat) % queue.capacity.toNat <
    (queue.tail.toNat + queue.capacity.toNat - queue.head.toNat) % queue.capacity.toNat

theorem Sound.filled_iff_inRange {contents : Contents Nat} (sound : Sound size contents queue)
    (unfilled : contents.ahead = none) (solid : contents.hollow = false) {position : Nat}
    (inside : position < size) : queue.ringCell position ≠ none ↔ queue.inRange position := by
  obtain ⟨offset, close, rfl⟩ := Ring.exists_offset queue.head.toNat inside
  rw [sound.ring.filled_iff unfilled solid close, inRange, sound.capacity, sound.tail,
    Ring.offset_of_position sound.head close, Ring.offset_of_position sound.head sound.ring.room]

theorem ProducerFacts.spare {pc : Pc T} (facts : ProducerFacts size ghost queue pc) :
    ghost.contents.ahead = none ∨ ghost.contents.stored.length + 1 < size := by
  cases pc with
  | idle | pushLoadTail | pushCountUp => exact .inl facts.ahead
  | pushLoadHead | pushAllocate | pushStoreCell => exact .inl facts.1.ahead
  | pushStoreTail =>
      obtain ⟨_, _, _, room⟩ := facts
      exact .inr room.room
  | _ => exact facts.elim

/-- The value of a `try_push` that has stored `tail`. All that is left of it is
`++size` and to return true. -/
def Pc.publishing : Pc T → List T
  | .pushCountUp value => [value]
  | _ => []

theorem ProducerFacts.publishing {pc : Pc T} (facts : ProducerFacts size ghost queue pc) :
    ghost.publishing = pc.publishing := by
  cases pc with
  | idle | pushLoadTail | pushCountUp => exact Offers.publishing facts
  | pushLoadHead | pushAllocate | pushStoreCell => exact facts.1.publishing
  | pushStoreTail =>
      obtain ⟨_, offers, _⟩ := facts
      exact offers.publishing
  | _ => exact facts.elim

theorem ConsumerFacts.held_alive {memory : Memory} {pc : Pc T} {pointer : Nat}
    (facts : ConsumerFacts size ghost queue memory pc) (owns : Owns ghost.owned queue.heap)
    (holds : memory.held = some pointer) : queue.heap pointer ≠ none := by
  have waiting : Waiting ghost memory → queue.heap pointer ≠ none := by
    intro waiting
    obtain ⟨rest, stored⟩ := waiting.held pointer holds
    rw [owns.alive]
    simp [Ghost.owned, Contents.remaining, waiting.solid, stored]
  have popping : ∀ {hollow : Bool} {removed : Option Nat}, Popping ghost memory hollow removed →
      queue.heap pointer ≠ none := by
    intro hollow removed popping
    rw [popping.forgotten] at holds
    cases holds
  cases pc with
  | idle | frontLoadHead | emptyFirst => exact waiting facts
  | frontLoadTail | frontLoadCell => exact waiting facts.1
  | emptySecond order => cases order <;> exact waiting facts.1
  | popLoadHead | popDelete | popCountDown => exact popping facts
  | popLoadTail | popExchange | popStoreHead => exact popping facts.1
  | _ => exact facts.elim

/-- What a step may do to cells and objects, and what it may answer to a consumer
with the given memory; `missing` is what was published and not popped. -/
structure Disciplined (queue : CAtomicQueue T) (memory : Memory) (missing : List (Option T))
    (output : Output T) : Prop where
  exchanges : ∀ index pointer object, output.access = .exchange index pointer object →
    pointer ≠ none
  refuses : output.returned = some (.popped false) →
    output.access = .loadTail ∧ queue.head = queue.tail ∧ missing = []
  stores : ∀ index pointer, output.access = .storeCell index pointer →
    queue.cell index = some none
  fronts : ∀ pointer, memory.ready = true → output.returned = some (.front pointer) →
    pointer ≠ none
  deletes : ∀ pointer object, output.access = .delete pointer object →
    ∃ value, queue.heap pointer = some value ∧ object = some value

/-- The step exchanges, stores and deletes nothing, and does not answer a `front()`
or refuse a `pop()`. -/
def Output.quiet : Output T → Bool
  | ⟨.exchange _ _ _, _⟩ | ⟨.storeCell _ _, _⟩ | ⟨.delete _ _, _⟩ => false
  | ⟨_, some (.popped false)⟩ | ⟨_, some (.front _)⟩ => false
  | _ => true

section Disciplined

variable {memory : Memory} {missing : List (Option T)}

theorem Disciplined.of_quiet {output : Output T} (quiet : output.quiet = true) :
    Disciplined queue memory missing output where
  exchanges := by
    intro _ _ _ same
    cases output
    cases same
    cases quiet
  refuses := by
    intro same
    obtain ⟨access, returned⟩ := output
    cases same
    cases access <;> cases quiet
  stores := by
    intro _ _ same
    cases output
    cases same
    cases quiet
  fronts := by
    intro _ _ same
    obtain ⟨access, returned⟩ := output
    cases same
    cases access <;> cases quiet
  deletes := by
    intro _ _ same
    cases output
    cases same
    cases quiet

theorem Disciplined.storeCell {index : UInt64} {pointer : Nat}
    (free : queue.cell index = some none) :
    Disciplined queue memory missing ⟨.storeCell index pointer, none⟩ where
  exchanges := nofun
  refuses := nofun
  stores _ _ same := by
    cases same
    exact free
  fronts := nofun
  deletes := nofun

theorem Disciplined.exchange {index : UInt64} {pointer : Nat} {object : Option T} :
    Disciplined queue memory missing ⟨.exchange index (some pointer) object, none⟩ where
  exchanges _ _ _ same := by
    cases same
    exact Option.some_ne_none pointer
  refuses := nofun
  stores := nofun
  fronts := nofun
  deletes := nofun

theorem Disciplined.delete {pointer : Nat} {value : T} (alive : queue.heap pointer = some value) :
    Disciplined queue memory missing ⟨.delete pointer (queue.heap pointer), none⟩ where
  exchanges := nofun
  refuses := nofun
  stores := nofun
  fronts := nofun
  deletes _ _ same := by
    cases same
    exact ⟨value, alive, alive⟩

theorem Disciplined.refused (same : queue.head = queue.tail) (nothing : missing = []) :
    Disciplined queue memory missing ⟨.loadTail, some (.popped false)⟩ where
  exchanges := nofun
  refuses _ := ⟨rfl, same, nothing⟩
  stores := nofun
  fronts := nofun
  deletes := nofun

theorem Disciplined.front_null (unknown : memory.ready ≠ true) :
    Disciplined queue memory missing ⟨.loadTail, some (.front none)⟩ where
  exchanges := nofun
  refuses := nofun
  stores := nofun
  fronts _ known _ := absurd known unknown
  deletes := nofun

theorem Disciplined.front_object {index : UInt64} {pointer : Nat} :
    Disciplined queue memory missing
      ⟨.loadCell index (some pointer), some (.front (some pointer))⟩ where
  exchanges := nofun
  refuses := nofun
  stores := nofun
  fronts _ _ same := by
    cases same
    exact Option.some_ne_none pointer
  deletes := nofun

end Disciplined

section Steps

variable {after : CAtomicQueue T} {memory : Memory} {pc next : Pc T} {output : Output T}

theorem producer_disciplined {missing : List (Option T)} (sound : Sound size ghost.contents queue)
    (facts : ProducerFacts size ghost queue pc)
    (taken : advance queue pc = some (after, next, output)) :
    Disciplined queue memory missing output := by
  cases advances taken with
  | pushStoreCell =>
      obtain ⟨offers, _, rfl, _⟩ := facts
      have free := sound.cell_tail
      rw [offers.ahead] at free
      exact .storeCell free
  | pushLoadTail | pushRefuses | pushLoadHead | pushAllocate | pushStoreTail | pushCountUp =>
      exact .of_quiet rfl
  | _ => exact facts.elim

theorem consumer_disciplined (sound : Sound size ghost.contents queue)
    (owns : Owns ghost.owned queue.heap) (facts : ConsumerFacts size ghost queue memory pc)
    (taken : advance queue pc = some (after, next, output)) :
    Disciplined queue memory (ghost.contents.remaining.map queue.heap) output := by
  cases advances taken with
  | frontNull currentHead same =>
      obtain ⟨waiting, rfl⟩ := facts
      apply Disciplined.front_null
      intro known
      have nothing := (sound.empty_iff le_rfl sound.tail).mp same
      exact waiting.present known (List.length_eq_zero_iff.mp nothing)
  | frontLoadCell currentHead pointer found =>
      obtain ⟨waiting, rfl, present⟩ := facts
      obtain ⟨first, rest, stored⟩ := List.exists_cons_of_ne_nil present
      rw [sound.cell_head stored, waiting.solid] at found
      cases found
      exact .front_object
  | popRefuses currentHead same =>
      obtain ⟨popping, rfl⟩ := facts
      have nothing := (sound.empty_iff le_rfl sound.tail).mp same
      apply Disciplined.refused same
      simp [Contents.remaining, popping.hollow, List.length_eq_zero_iff.mp nothing]
  | popNull currentHead found =>
      obtain ⟨popping, rfl, present⟩ := facts
      obtain ⟨first, rest, stored⟩ := List.exists_cons_of_ne_nil present
      rw [sound.cell_head stored, popping.hollow] at found
      cases found
  | popExchange => exact .exchange
  | popDelete pointer =>
      have owned : pointer ∈ ghost.owned := by simp [Ghost.owned, facts.removed]
      obtain ⟨value, alive⟩ := owns.exists_object owned
      exact .delete alive
  | frontLoadHead | frontLoadTail | popLoadHead | popLoadTail | popStoreHead | popCountDown
  | emptyHead | emptyTail | emptyTailSecond | emptyHeadSecond =>
      exact .of_quiet rfl
  | _ => exact facts.elim

end Steps

section Runs

variable {capacity : UInt64} {events : List (Event Unit T)} {state : State Unit T}

/-- No access of a call in progress is outside the buffer; only the allocator has
to find a pointer of its own. -/
theorem calls_never_stuck (positive : 1 ≤ capacity.toNat)
    (run : ((program Unit T).machine (construct T capacity)).Run events state)
    {thread : Thread Unit} (busy : state.pc thread ≠ .idle)
    (fresh : ∀ value pointer currentTail nextTail,
      state.pc thread = .pushAllocate value pointer currentTail nextTail →
        state.shared.heap pointer = none) :
    (advance state.shared (state.pc thread)).isSome := by
  obtain ⟨ghost, ⟨sound, _⟩, facts⟩ := run_invariant (construct_sound positive) rfl run
  have own := facts thread
  have inside : ∀ {index : UInt64}, index = state.shared.head ∨ index = state.shared.tail →
      ∃ pointer, state.shared.cell index = some pointer := by
    rintro index (rfl | rfl)
    · exact ⟨_, sound.cell_eq sound.head⟩
    · exact ⟨_, sound.cell_eq sound.tail_lt⟩
  cases point : state.pc thread with
  | idle => exact absurd point busy
  | pushLoadHead value pointer currentTail nextTail =>
      by_cases full : nextTail = state.shared.head
      · simp only [advance, if_pos full, Option.isSome_some]
      · simp only [advance, if_neg full, Option.isSome_some]
  | pushAllocate value pointer currentTail nextTail =>
      simp only [advance, fresh value pointer currentTail nextTail point, Option.isSome_some]
  | pushStoreCell value pointer currentTail nextTail =>
      rw [point] at own
      cases thread with
      | producer =>
          obtain ⟨cell, found⟩ := inside (.inr own.2.2.1)
          simp only [advance, found, Option.map_some, Option.isSome_some]
      | consumer => exact own.elim
  | popLoadTail currentHead | frontLoadTail currentHead =>
      by_cases empty : currentHead = state.shared.tail
      · simp only [advance, if_pos empty, Option.isSome_some]
      · simp only [advance, if_neg empty, Option.isSome_some]
  | popExchange currentHead | frontLoadCell currentHead =>
      rw [point] at own
      cases thread with
      | producer => exact own.elim
      | consumer =>
          obtain ⟨cell, found⟩ := inside (.inl own.2.1)
          simp only [advance, found, Option.map_some, Option.isSome_some]
  | emptyFirst order => cases order <;> rfl
  | emptySecond order => cases order <;> rfl
  | _ => rfl

theorem step_disciplined (positive : 1 ≤ capacity.toNat)
    (run : ((program Unit T).machine (construct T capacity)).Run events state)
    {thread : Thread Unit} {after : CAtomicQueue T} {pc : Pc T} {output : Output T}
    (taken : advance state.shared (state.pc thread) = some (after, pc, output)) :
    ∃ missing, (pushed events ++ (state.pc .producer).publishing).map some =
        popped events ++ missing ∧
      Disciplined state.shared (memory events) missing output := by
  obtain ⟨ghost, ⟨sound, owns, balance⟩, facts⟩ := run_invariant (construct_sound positive) rfl run
  rw [ProducerFacts.publishing (facts .producer)] at balance
  refine ⟨_, balance, ?_⟩
  have own := facts thread
  cases thread with
  | producer => exact producer_disciplined sound own taken
  | consumer => exact consumer_disciplined sound owns own taken

end Runs

/-- One producer and one consumer on a new queue, in any interleaving: between
operations the cells from `head` to `tail` are the ones that are filled, and one
cell is always empty; every step keeps to its cell and its object; values come
out in the order of the pushes that succeed, and an object that the consumer
looks at stays alive. A value counts as pushed from the store of `tail` on, before
`++size` and the return. -/
theorem cells_and_objects {T : Type} {capacity : UInt64} {events : List (Event Unit T)}
    {state : State Unit T} (positive : 1 ≤ capacity.toNat)
    (run : ((program Unit T).machine (construct T capacity)).Run events state) :
    ((∀ thread, state.pc thread = .idle) → ∀ position, position < capacity.toNat →
      (state.shared.ringCell position ≠ none ↔ state.shared.inRange position)) ∧
    state.shared.buffer.countP Option.isSome ≤ capacity.toNat - 1 ∧
    popped events <+: (pushed events ++ (state.pc .producer).publishing).map some ∧
    (∀ pointer, (memory events).held = some pointer → state.shared.heap pointer ≠ none) ∧
    ∀ thread after pc output,
      advance state.shared (state.pc thread) = some (after, pc, output) →
        ∃ missing, (pushed events ++ (state.pc .producer).publishing).map some =
            popped events ++ missing ∧
          Disciplined state.shared (memory events) missing output := by
  obtain ⟨ghost, ⟨sound, owns, balance⟩, facts⟩ := run_invariant (construct_sound positive) rfl run
  have producer := facts .producer
  have consumer := facts (.consumer ())
  rw [ProducerFacts.publishing producer] at balance
  refine ⟨fun idle position inside => ?_, sound.filled_le (ProducerFacts.spare producer),
    ⟨_, balance.symm⟩, fun pointer holds => ConsumerFacts.held_alive consumer owns holds,
    fun thread after pc output taken => step_disciplined positive run taken⟩
  rw [idle .producer] at producer
  rw [idle (.consumer ())] at consumer
  exact sound.filled_iff_inRange (Offers.ahead producer) (Waiting.solid consumer) inside

/-- A push whose pointer is taken out before it returns, and another one that
reuses the pointer. -/
def reuse : List (Threads.Label (Thread Unit) (Call Nat)) :=
  [.call .producer (.tryPush 7 100), .run .producer, .run .producer, .run .producer,
    .run .producer, .run .producer, .call (.consumer ()) (.empty .headFirst),
    .run (.consumer ()), .run (.consumer ()), .call (.consumer ()) .front, .run (.consumer ()),
    .run (.consumer ()), .run (.consumer ()), .call (.consumer ()) .pop, .run (.consumer ()),
    .run (.consumer ()), .run (.consumer ()), .run .producer, .run (.consumer ()),
    .run (.consumer ()), .call .producer (.tryPush 8 100), .run .producer, .run .producer,
    .run .producer, .run (.consumer ()), .run .producer, .run .producer, .run .producer]

theorem cells_and_objects_reuse :
    ∃ (events : List (Event Unit Nat)) (state : State Unit Nat),
      ((program Unit Nat).machine (construct Nat 2)).Run events state ∧
      pushed events = [7, 8] ∧ popped events = [some 7] ∧
      ∀ position, position < 2 →
        (state.shared.ringCell position ≠ none ↔ state.shared.inRange position) := by
  have run := Machine.exec_run ((program Unit Nat).machine (construct Nat 2)) reuse rfl
  refine ⟨_, _, run, rfl, rfl, (cells_and_objects (by decide) run).1 ?_⟩
  rintro (_ | _) <;> rfl

end DmLockFree.CAtomicQueue
