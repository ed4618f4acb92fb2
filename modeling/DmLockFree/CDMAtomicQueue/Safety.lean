import DmLockFree.CDMAtomicQueue.Run
import Mathlib.Data.Set.Card

/-! What the objects of a `CDMAtomicQueue` go through over every run of one
producer and one consumer, and in the destructor after it. -/

set_option autoImplicit false

namespace DmLockFree.CDMAtomicQueue

open Library Program

variable {T : Type} {size : Nat} {queue start : CDMAtomicQueue T} {contents : Contents T}

/-- The slots that hold a live object. -/
def live (queue : CDMAtomicQueue T) : Set UInt64 := {index | queue.slots index ≠ none}

theorem Sound.live_card (sound : Sound size contents queue)
    (spare : contents.ahead = none ∨ contents.stored.length + 1 < size) :
    queue.live.Finite ∧ queue.live.ncard ≤ size - 1 := by
  obtain ⟨gap, inside, clear⟩ := sound.ring.exists_empty spare
  have covered : queue.live ⊆ (((Finset.range size).erase gap).image
      fun position => queue.slot (UInt64.ofNat position) : Finset UInt64) := by
    intro index alive
    obtain ⟨position, below, rfl⟩ := sound.outside index alive
    refine Finset.mem_coe.mpr (Finset.mem_image.mpr ⟨position, ?_, rfl⟩)
    refine Finset.mem_erase.mpr ⟨?_, Finset.mem_range.mpr below⟩
    intro same
    subst same
    exact alive clear
  have finite := Finset.finite_toSet (((Finset.range size).erase gap).image
    fun position => queue.slot (UInt64.ofNat position))
  refine ⟨finite.subset covered, (Set.ncard_le_ncard covered finite).trans ?_⟩
  rw [Set.ncard_coe_finset]
  refine Finset.card_image_le.trans ?_
  rw [Finset.card_erase_of_mem (Finset.mem_range.mpr inside), Finset.card_range]

theorem ProducerFacts.spare {pc : Pc T} (facts : ProducerFacts size contents queue pc) :
    contents.ahead = none ∨ contents.stored.length + 1 < size := by
  cases pc with
  | idle | emplaceLoadHead => exact .inl facts
  | emplaceLoadTail | emplaceConstruct => exact .inl facts.1
  | emplaceStoreHead => exact .inr facts.2.2
  | _ => exact facts.elim

/-- The program points of an emplace whose constructor is going to throw. -/
def Pc.throwing : Pc T → Bool
  | .emplaceLoadHead _ none | .emplaceLoadTail _ none _ _ | .emplaceConstruct none _ _ => true
  | _ => false

/-- Such a call changes nothing, up to and including the throw. -/
theorem throwing_unchanged {pc next : Pc T} {after : CDMAtomicQueue T} {output : Output T}
    (throws : pc.throwing = true) (taken : advance queue pc = some (after, next, output)) :
    after = queue ∧ (next.throwing = true ∨ next = .idle false) := by
  cases advances taken with
  | emplaceLoadHead _ outcome | emplaceSpins outcome | emplaceLoadTail _ outcome =>
      cases outcome with
      | none => exact ⟨rfl, .inl rfl⟩
      | some => cases throws
  | emplaceRefuses | emplaceThrows => exact ⟨rfl, .inr rfl⟩
  | _ => cases throws

/-- What a step may do to the slots, and what it may answer to a consumer with
the given memory. -/
structure Disciplined (queue : CDMAtomicQueue T) (memory : Memory) (event : Event T) : Prop where
  constructs : ∀ thread index outcome returned,
    event = .ran thread ⟨.construct index outcome, returned⟩ → queue.slots index = none
  destroys : ∀ thread index object returned,
    event = .ran thread ⟨.destroy index object, returned⟩ →
      ∃ value, queue.slots index = some value ∧ object = some value
  fronts : ∀ access pointer, memory.ready = true →
    event = .ran .consumer ⟨access, some (.front pointer)⟩ → pointer ≠ none

/-- The step constructs and destroys nothing and does not answer a `front`. -/
def Output.quiet : Output T → Bool
  | ⟨.construct _ _, _⟩ | ⟨.destroy _ _, _⟩ | ⟨_, some (.front _)⟩ => false
  | _ => true

theorem Disciplined.of_quiet {memory : Memory} {thread : Thread} {output : Output T}
    (quiet : output.quiet = true) : Disciplined queue memory (.ran thread output) where
  constructs := by
    intro _ _ _ _ same
    cases same
    cases quiet
  destroys := by
    intro _ _ _ _ same
    cases same
    cases quiet
  fronts := by
    intro access _ _ same
    cases same
    cases access <;> cases quiet

theorem Disciplined.construct {memory : Memory} {thread : Thread} {index : UInt64}
    {outcome : Option T} {returned : Option (Return T)} (free : queue.slots index = none)
    (answers : ∀ pointer, returned ≠ some (.front pointer)) :
    Disciplined queue memory (.ran thread ⟨.construct index outcome, returned⟩) where
  constructs := by
    intro _ _ _ _ same
    cases same
    exact free
  destroys := by
    intro _ _ _ _ same
    cases same
  fronts := by
    intro _ _ _ same
    cases same
    exact absurd rfl (answers _)

theorem Disciplined.destroy {memory : Memory} {thread : Thread} {index : UInt64} {value : T}
    (alive : queue.slots index = some value) :
    Disciplined queue memory (.ran thread ⟨.destroy index (queue.slots index), none⟩) where
  constructs := by
    intro _ _ _ _ same
    cases same
  destroys := by
    intro _ _ _ _ same
    cases same
    exact ⟨value, alive, alive⟩
  fronts := by
    intro _ _ _ same
    cases same

theorem Disciplined.front {memory : Memory} {thread : Thread} {pointer : Option UInt64}
    (shown : memory.ready = true → pointer ≠ none) :
    Disciplined queue memory (.ran thread ⟨.loadHead, some (.front pointer)⟩) where
  constructs := by
    intro _ _ _ _ same
    cases same
  destroys := by
    intro _ _ _ _ same
    cases same
  fronts := by
    intro _ _ ready same
    cases same
    exact shown ready

theorem producer_disciplined {memory : Memory} {pc next : Pc T} {after : CDMAtomicQueue T}
    {output : Output T} (sound : Sound size contents queue)
    (facts : ProducerFacts size contents queue pc)
    (taken : advance queue pc = some (after, next, output)) :
    Disciplined queue memory (.ran .producer output) := by
  cases advances taken with
  | emplaceThrows | emplaceConstruct =>
      obtain ⟨ahead, rfl, -⟩ := facts
      exact .construct (sound.slot_head.trans ahead) fun _ same => by cases same
  | emplaceLoadHead | emplaceSpins | emplaceRefuses | emplaceLoadTail | emplaceStoreHead =>
      exact .of_quiet rfl
  | _ => exact facts.elim

theorem consumer_disciplined {memory : Memory} {pc next : Pc T} {after : CDMAtomicQueue T}
    {output : Output T} (sound : Sound size contents queue)
    (facts : ConsumerFacts size contents queue memory pc)
    (taken : advance queue pc = some (after, next, output)) :
    Disciplined queue memory (.ran .consumer output) := by
  cases advances taken with
  | frontNull ready tail empty =>
      obtain ⟨waiting, rfl⟩ := facts
      apply Disciplined.front
      intro known
      have nothing := (sound.empty_iff le_rfl sound.head).mp empty
      exact absurd (List.length_eq_zero_iff.mp nothing) (waiting.present known)
  | frontLoadHead => exact .front fun _ => Option.some_ne_none _
  | popDestroy =>
      obtain ⟨popping, rfl⟩ := facts
      obtain ⟨value, rest, stored⟩ := List.exists_cons_of_ne_nil popping.present
      have object := sound.slot_tail stored
      rw [popping.hollow, if_neg Bool.false_ne_true] at object
      exact .destroy object
  | observeTailSecond observer | observeHeadSecond observer =>
      cases observer <;> exact .of_quiet rfl
  | frontLoadTail | popLoadTail | popAssert | popStoreTail | observeHead | observeTail =>
      exact .of_quiet rfl
  | _ => exact facts.elim

theorem ConsumerFacts.held_alive {memory : Memory} {pc : Pc T} {pointer : UInt64}
    (facts : ConsumerFacts size contents queue memory pc) (sound : Sound size contents queue)
    (holds : memory.held = some pointer) : queue.slots pointer ≠ none := by
  have waiting : ∀ {ready : Bool}, Waiting contents queue memory ready →
      queue.slots pointer ≠ none := by
    intro ready waiting
    obtain ⟨rfl, present⟩ := waiting.held pointer holds
    obtain ⟨value, rest, stored⟩ := List.exists_cons_of_ne_nil present
    rw [sound.slot_tail stored, waiting.solid, if_neg Bool.false_ne_true]
    exact Option.some_ne_none value
  have popping : ∀ {hollow : Bool}, Popping contents memory hollow →
      queue.slots pointer ≠ none := by
    intro hollow popping
    rw [popping.forgotten] at holds
    cases holds
  cases pc with
  | idle | frontLoadTail | observeFirst => exact waiting facts
  | frontLoadHead => exact waiting facts.1
  | observeSecond observer order => cases order <;> exact waiting facts.1
  | popLoadTail => exact popping facts
  | popAssert | popDestroy | popStoreTail => exact popping facts.1
  | _ => exact facts.elim

theorem front_alone (queue : CDMAtomicQueue T) :
    runAlone 2 queue (.frontLoadTail false) = some (queue, [.loadTail, .loadHead],
      .front (if queue.head = queue.tail then none else some (queue.slot queue.tail))) := by
  by_cases empty : queue.head = queue.tail
  · simp only [runAlone, advance, empty, if_true, Option.map_some]
  · simp only [runAlone, advance, empty, if_false, Option.map_some]

theorem pop_alone (present : queue.head ≠ queue.tail) :
    runAlone 4 queue .popLoadTail =
      some ({ queue.setSlot queue.tail none with tail := queue.next queue.tail },
        [.loadTail, .loadHead, .destroy (queue.slot queue.tail)
          (queue.slots (queue.slot queue.tail)), .storeTail], .popped) := by
  simp only [runAlone, advance, if_pos present, Option.map_some]

/-- The loop of the destructor takes out one object a round and stops when none
is left. -/
theorem destroy_empties {fuel : Nat} (sound : Sound size contents queue)
    (unfilled : contents.ahead = none) (solid : contents.hollow = false)
    (enough : contents.stored.length < fuel) :
    ∃ after accesses, destroy fuel queue = some (after, accesses) ∧
      accesses.flatMap Access.destroyed = contents.stored ∧
      ∀ index, after.slots index = none := by
  induction fuel generalizing queue contents with
  | zero => cases enough
  | succ fuel ih =>
      have isEmpty := sound.empty_iff le_rfl sound.head
      cases stored : contents.stored with
      | nil =>
          rw [stored] at isEmpty
          refine ⟨queue, [.loadTail, .loadHead],
            by simp only [destroy, front_alone, if_pos (isEmpty.mpr rfl)], rfl, ?_⟩
          intro index
          by_contra alive
          obtain ⟨position, below, rfl⟩ := sound.outside index alive
          exact alive (sound.ring.all_empty stored unfilled below)
      | cons value rest =>
          have object := sound.slot_tail stored
          rw [solid, if_neg Bool.false_ne_true] at object
          rw [stored] at isEmpty enough
          have present : queue.head ≠ queue.tail := fun same => absurd (isEmpty.mp same) (by simp)
          have emptied := sound.destroy (by rw [stored]; exact List.cons_ne_nil _ _)
          have shorter := emptied.storeTail stored rfl
          obtain ⟨after, accesses, rounds, destroyed, clear⟩ := ih shorter unfilled rfl
            (Nat.lt_of_succ_lt_succ enough)
          have loop : destroy fuel { queue.setSlot queue.tail none with
              tail := queue.next queue.tail } = some (after, accesses) := rounds
          refine ⟨after, _, by
            simp only [destroy, front_alone, if_neg present, pop_alone present, loop,
              Option.map_some]
            rfl, ?_, clear⟩
          simp [Access.destroyed, object, destroyed]

section Runs

variable {T : Type} {sizeT capacity : UInt64} {queue start : CDMAtomicQueue T}
  {events : List (Event T)} {state : State T}

/-- No access of a call in progress is refused: the assertion of `pop` holds. -/
theorem calls_never_stuck (built : construct T sizeT capacity = some start)
    (run : ((program T).machine start).Run events state) {thread : Thread}
    (busy : ∀ ready, state.pc thread ≠ .idle ready) :
    (advance state.shared (state.pc thread)).isSome := by
  obtain ⟨contents, ⟨sound, _⟩, facts⟩ := run_invariant (construct_sound built) run
  have own := facts thread
  cases point : state.pc thread with
  | idle ready => exact absurd point (busy ready)
  | emplaceLoadTail kind outcome head nextHead =>
      by_cases full : nextHead = state.shared.tail
      · cases kind <;> simp only [advance, if_pos full, Option.isSome_some]
      · simp only [advance, if_neg full, Option.isSome_some]
  | emplaceConstruct outcome head nextHead => cases outcome <;> rfl
  | frontLoadHead ready tail =>
      by_cases empty : state.shared.head = tail
      · simp only [advance, if_pos empty, Option.isSome_some]
      · simp only [advance, if_neg empty, Option.isSome_some]
  | popAssert tail =>
      rw [point] at own
      cases thread with
      | producer => exact own.elim
      | consumer =>
          obtain ⟨popping, rfl⟩ := own
          have present : state.shared.head ≠ state.shared.tail := by
            intro same
            have none := (sound.empty_iff le_rfl sound.head).mp same
            exact popping.present (List.length_eq_zero_iff.mp none)
          simp only [advance, if_pos present, Option.isSome_some]
  | observeFirst observer order ready => cases order <;> rfl
  | observeSecond observer order ready first => cases order <;> rfl
  | _ => rfl

theorem step_disciplined (built : Sound size ⟨[], none, false⟩ start)
    (run : ((program T).machine start).Run events state)
    {label : Threads.Label Thread (Call T)} {after : State T} {event : Event T}
    (taken : ((program T).machine start).step state label = some (after, event)) :
    Disciplined state.shared (memory events) event := by
  obtain ⟨contents, ⟨sound, _⟩, facts⟩ := run_invariant built run
  cases label with
  | call thread call =>
      obtain ⟨_, _, same⟩ := Option.map_eq_some_iff.mp taken
      cases same
      exact ⟨nofun, nofun, nofun⟩
  | run thread =>
      obtain ⟨⟨shared, pc, output⟩, advanced, same⟩ := Option.map_eq_some_iff.mp taken
      cases same
      have own := facts thread
      cases thread with
      | producer => exact producer_disciplined sound own advanced
      | consumer => exact consumer_disciplined sound own advanced

end Runs

/-- One producer and one consumer on a new queue, in any interleaving: objects are
constructed in empty slots and destroyed in occupied ones, come out in the order
they were put in, never fill the ring, stay alive while the consumer holds them,
are untouched by a constructor that throws, and are all destroyed in the end. -/
theorem slots_constructed_and_destroyed {T : Type} {sizeT capacity : UInt64}
    {start : CDMAtomicQueue T} {events : List (Event T)} {state : State T}
    (built : construct T sizeT capacity = some start)
    (run : ((program T).machine start).Run events state) :
    (∀ label after event,
      ((program T).machine start).step state label = some (after, event) →
        Disciplined state.shared (memory events) event) ∧
    popped events <+: accepted events ∧
    (state.shared.live.Finite ∧ state.shared.live.ncard ≤ capacity.toNat - 1) ∧
    (∀ pointer, (memory events).held = some pointer → state.shared.slots pointer ≠ none) ∧
    (∀ thread after pc output, (state.pc thread).throwing = true →
      advance state.shared (state.pc thread) = some (after, pc, output) →
        after = state.shared ∧ (pc.throwing = true ∨ pc = .idle false)) ∧
    ((∀ thread, ∃ ready, state.pc thread = .idle ready) →
      ∃ after accesses, destroy capacity.toNat state.shared = some (after, accesses) ∧
        accepted events = popped events ++ accesses.flatMap Access.destroyed ∧
        ∀ index, after.slots index = none) := by
  obtain ⟨contents, ⟨sound, balance⟩, facts⟩ := run_invariant (construct_sound built) run
  refine ⟨fun label after event taken => step_disciplined (construct_sound built) run taken,
    ⟨contents.remaining, balance.symm⟩,
    sound.live_card (facts .producer).spare,
    fun pointer holds => ConsumerFacts.held_alive (facts .consumer) sound holds,
    fun thread after pc output throws taken => throwing_unchanged throws taken, ?_⟩
  intro idle
  obtain ⟨_, producerIdle⟩ := idle .producer
  obtain ⟨_, consumerIdle⟩ := idle .consumer
  have unfilled := facts .producer
  have waiting := facts .consumer
  rw [producerIdle] at unfilled
  rw [consumerIdle] at waiting
  obtain ⟨after, accesses, loop, destroyed, clear⟩ :=
    destroy_empties sound unfilled waiting.solid sound.ring.room
  refine ⟨after, accesses, loop, ?_, clear⟩
  rw [balance, destroyed, Contents.remaining, waiting.solid, if_neg Bool.false_ne_true]

/-- One object emplaced, seen and popped while another construction throws, and
one left for the destructor. -/
def throwingRun : List (Threads.Label Thread (Call Nat)) :=
  [.call .producer (.tryPush (some 5)), .run .producer, .run .producer, .run .producer,
    .run .producer, .call .consumer (.observe .empty .headFirst), .run .consumer, .run .consumer,
    .call .consumer .front, .run .consumer, .call .producer (.emplace .emplace none),
    .run .consumer, .run .producer, .run .producer, .call .consumer .pop, .run .consumer,
    .run .producer, .run .consumer, .run .consumer, .call .producer (.push (some 9)),
    .run .producer, .run .consumer, .run .producer, .run .producer, .run .producer]

theorem slots_constructed_and_destroyed_throwing :
    ∃ (start : CDMAtomicQueue Nat) (events : List (Event Nat)) (state : State Nat),
      construct Nat 8 3 = some start ∧ ((program Nat).machine start).Run events state ∧
      accepted events = [5, 9] ∧ popped events = [5] ∧
      ∃ after accesses, destroy 3 state.shared = some (after, accesses) ∧
        accepted events = popped events ++ accesses.flatMap Access.destroyed ∧
        ∀ index, after.slots index = none := by
  have built : construct Nat 8 3 = some ⟨3, padding 8, fun _ => none, 0, 0⟩ := rfl
  have run := Machine.exec_run ((program Nat).machine ⟨3, padding 8, fun _ => none, 0, 0⟩)
    throwingRun rfl
  refine ⟨_, _, _, built, run, rfl, rfl, ?_⟩
  refine (slots_constructed_and_destroyed built run).2.2.2.2.2 ?_
  rintro (_ | _)
  · exact ⟨false, rfl⟩
  · exact ⟨false, rfl⟩

end DmLockFree.CDMAtomicQueue
