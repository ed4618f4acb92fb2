import DmLockFree.ConcurrentQueue.BlockPool
import DmLockFree.ConcurrentQueue.Implicit.Memory
import DmLockFree.Library.Alike

/-!
# One memory for all blocks

The producers of a queue work on the same blocks, each on a block while it has it. What
a producer does there is what it would do with a memory of its own.
-/

set_option autoImplicit false

namespace DmLockFree.ConcurrentQueue.SharedBlocks

open Library BlockPool

variable {Name Worker Consumer T : Type}

/-- Every producer works on the blocks `common`. -/
def sharing (state : State Name Worker Consumer T) (common : Nat → Block T) :
    State Name Worker Consumer T where
  list := state.list
  producers name := ImplicitProducer.elsewhere (state.producers name) common
  standing := state.standing

variable [DecidableEq Name] [DecidableEq Worker] [DecidableEq Consumer]

/-- What a producer does to its blocks is done for all. -/
def machine (Name Worker Consumer T : Type) [DecidableEq Name] [DecidableEq Worker]
    [DecidableEq Consumer] (maxSubqueueSize : UInt64) (allocated : Name → Bool) :
    Machine (State Name Worker Consumer T) (Label Name Worker Consumer T)
      (Event Name Worker Consumer T) where
  start := (BlockPool.machine Name Worker Consumer T maxSubqueueSize allocated).start
  step state
    | .list label =>
        (BlockPool.machine Name Worker Consumer T maxSubqueueSize allocated).step state
          (.list label)
    | .producer name label =>
        ((BlockPool.machine Name Worker Consumer T maxSubqueueSize allocated).step state
          (.producer name label)).map fun (after, event) =>
            (sharing after (after.producers name).shared.blocks, event)

/-- Every producer sees its own in the blocks that it has. The others are empty. -/
structure Covers (common : Nat → Block T) (state : State Name Worker Consumer T) : Prop where
  sees : ∀ name, ImplicitProducer.Sees (state.producers name) common
  vacant : ∀ block, (∀ name, state.requisitioned name block = false) →
    ∀ offset, offset < 32 → (common block).elements offset = none

section Steps

variable {maxSubqueueSize : UInt64} {allocated : Name → Bool}
  {events : List (Event Name Worker Consumer T)} {state after : State Name Worker Consumer T}
  {common later : Nat → Block T} {event : Event Name Worker Consumer T}

omit [DecidableEq Worker] [DecidableEq Consumer] in
theorem settle_sharing (state : State Name Worker Consumer T) (common : Nat → Block T)
    (event : Event Name Worker Consumer T) :
    (sharing state common).settle event =
      (state.settle event).map fun (after, shown) => (sharing after common, shown) := by
  unfold State.settle
  rw [apply_ite (Option.map _)]
  rfl

theorem list_sharing (maxSubqueueSize : UInt64) (allocated : Name → Bool)
    (state : State Name Worker Consumer T) (common : Nat → Block T)
    (label : Threads.Label Worker (FreeList.Call Nat)) :
    (machine Name Worker Consumer T maxSubqueueSize allocated).step (sharing state common)
      (.list label) =
      ((BlockPool.machine Name Worker Consumer T maxSubqueueSize allocated).step state
        (.list label)).map fun (after, shown) => (sharing after common, shown) := by
  simp only [machine, BlockPool.machine]
  change (Option.bind ((listMachine Worker).step state.list label) _) = _
  cases (listMachine Worker).step state.list label with
  | none => rfl
  | some moved => exact settle_sharing { state with list := moved.1 } common _

omit [DecidableEq Worker] [DecidableEq Consumer] in
/-- The producer that has moved is in its place. -/
theorem sharing_update (list : FreeList.State Worker Nat) (name : Name)
    (producer : ImplicitProducer.State Consumer T) (standing : Nat → Standing Name) :
    sharing (⟨list, Function.update (sharing state common).producers name
        (ImplicitProducer.elsewhere producer later), standing⟩ :
        State Name Worker Consumer T) later =
      sharing ⟨list, Function.update state.producers name producer, standing⟩ later := by
  simp only [sharing, State.mk.injEq, true_and, and_true]
  funext other
  rcases eq_or_ne other name with rfl | apart
  · simp only [Function.update_self]
    rfl
  · simp only [Function.update_of_ne apart]
    rfl

section Producer

variable {name : Name} {producer : ImplicitProducer.State Consumer T}
  {label : Threads.Label (ImplicitProducer.Thread Consumer) (ImplicitProducer.Call T)}
  {shows : ImplicitProducer.Event Consumer T}

theorem producer_none (stops : (producerMachine Consumer T maxSubqueueSize (allocated name)).step
      (state.producers name) label = none) :
    (BlockPool.machine Name Worker Consumer T maxSubqueueSize allocated).step state
      (.producer name label) = none :=
  Option.bind_eq_none_iff.mpr fun _ moves => (by cases stops.symm.trans moves)

theorem producer_some (moves : (producerMachine Consumer T maxSubqueueSize (allocated name)).step
      (state.producers name) label = some (producer, shows)) :
    (BlockPool.machine Name Worker Consumer T maxSubqueueSize allocated).step state
      (.producer name label) =
        State.settle ⟨state.list, Function.update state.producers name producer, state.standing⟩
          (.producer name shows) := by
  simp only [BlockPool.machine, Option.bind_eq_bind]
  rw [moves]
  rfl

omit [DecidableEq Worker] [DecidableEq Consumer] in
/-- A block that may be taken is empty. -/
theorem clean_of_permitted (sound : Sound events state) (covers : Covers common state)
    (permitted : (Event.producer name shows : Event Name Worker Consumer T).permitted
      state.standing = true) : ImplicitProducer.Clean common shows := by
  cases shows with
  | called thread request => exact trivial
  | ran thread output =>
      obtain ⟨access, returned⟩ := output
      cases access with
      | requisition block =>
          cases block with
          | none => exact trivial
          | some block =>
              have free : (state.standing block).Free := of_decide_eq_true permitted
              exact covers.vacant block (sound.agrees.unused free.apart.2)
      | _ => exact trivial

omit [DecidableEq Worker] [DecidableEq Consumer] in
/-- After a step of a producer all see their own blocks again. -/
theorem Covers.moves (covers : Covers common state) (sound : Sound events state)
    {standing : Nat → Standing Name}
    (reflects : ImplicitProducer.Reflects (state.producers name) producer common later)
    (clears : ∀ block, producer.shared.requisitioned block = false →
      ∀ offset, offset < 32 → (producer.shared.blocks block).elements offset = none) :
    Covers later (⟨state.list, Function.update state.producers name producer, standing⟩ :
      State Name Worker Consumer T) := by
  refine ⟨fun other => ?_, fun block unused => ?_⟩
  · rcases eq_or_ne other name with rfl | apart
    · simp only [Function.update_self]
      exact reflects.sees
    · simp only [Function.update_of_ne apart]
      refine (covers.sees other).congr fun block used => reflects.others block ?_
      have stands := (sound.agrees.used other block).mp used
      rw [← Bool.not_eq_true]
      intro mine
      have same := (sound.agrees.used name block).mp mine
      rw [stands] at same
      exact apart (Standing.used.inj same)
  · have gone := unused name
    simp only [State.requisitioned, Function.update_self] at gone
    cases had : (state.producers name).shared.requisitioned block with
    | true =>
        intro offset inside
        rw [reflects.given block had offset inside]
        exact clears block gone offset inside
    | false =>
        rw [reflects.others block had]
        refine covers.vacant block fun other => ?_
        rcases eq_or_ne other name with rfl | apart
        · exact had
        · have free := unused other
          simp only [State.requisitioned, Function.update_of_ne apart] at free
          exact free

end Producer

/-- A step of a producer is one over the common blocks. -/
theorem producer_sharing [Fintype Worker] (few : Fintype.card Worker + 1 < 2 ^ 31)
    (run : (BlockPool.machine Name Worker Consumer T maxSubqueueSize allocated).Run events state)
    (timely : ∀ name, ImplicitProducer.Timely (producerEvents name events))
    (covers : Covers common state) (name : Name)
    (label : Threads.Label (ImplicitProducer.Thread Consumer) (ImplicitProducer.Call T)) :
    ((machine Name Worker Consumer T maxSubqueueSize allocated).step (sharing state common)
        (.producer name label) = none ∧
      (BlockPool.machine Name Worker Consumer T maxSubqueueSize allocated).step state
        (.producer name label) = none) ∨
    ∃ after event later,
      (machine Name Worker Consumer T maxSubqueueSize allocated).step (sharing state common)
        (.producer name label) = some (sharing after later, event) ∧
      (BlockPool.machine Name Worker Consumer T maxSubqueueSize allocated).step state
        (.producer name label) = some (after, event) ∧
      ((∀ name, ImplicitProducer.Timely (producerEvents name (events ++ [event]))) →
        Covers later after) := by
  have sound := BlockPool.run_sound few run timely
  have whole := run_producer run name
  rcases ImplicitProducer.step_reflects whole (timely name) (covers.sees name) label with
    ⟨stops, halts⟩ | ⟨producer, shows, later, moves, answers, reflects⟩
  · have halted : (BlockPool.machine Name Worker Consumer T maxSubqueueSize allocated).step
        (sharing state common) (.producer name label) = none := producer_none halts
    exact .inl ⟨Option.map_eq_none_iff.mpr halted, producer_none stops⟩
  have mine : (BlockPool.machine Name Worker Consumer T maxSubqueueSize allocated).step state
      (.producer name label) =
        State.settle ⟨state.list, Function.update state.producers name producer, state.standing⟩
          (.producer name shows) := producer_some moves
  have others : (BlockPool.machine Name Worker Consumer T maxSubqueueSize allocated).step
      (sharing state common) (.producer name label) =
        State.settle ⟨state.list, Function.update (sharing state common).producers name
          (ImplicitProducer.elsewhere producer later), state.standing⟩ (.producer name shows) :=
    producer_some answers
  by_cases permitted : (Event.producer name shows : Event Name Worker Consumer T).permitted
      state.standing = true
  · refine .inr ⟨_, _, later, ?_, mine.trans (if_pos permitted), fun late => ?_⟩
    · refine Option.map_eq_some_iff.mpr ⟨_, others.trans (if_pos permitted), ?_⟩
      simp only [Function.update_self]
      exact congrArg (fun whole => (whole, _)) (sharing_update ..)
    · have latest := late name
      rw [producerEvents_self] at latest
      refine covers.moves sound (reflects latest (clean_of_permitted sound covers permitted)) ?_
      intro block unused
      exact ImplicitProducer.run_vacant (whole.snoc moves) latest unused
  · refine .inl ⟨?_, mine.trans (if_neg permitted)⟩
    exact Option.map_eq_none_iff.mpr (others.trans (if_neg permitted))

theorem list_producers {label : Threads.Label Worker (FreeList.Call Nat)}
    (taken : (BlockPool.machine Name Worker Consumer T maxSubqueueSize allocated).step state
      (.list label) = some (after, event)) : after.producers = state.producers := by
  obtain ⟨_, _, settled⟩ := Option.bind_eq_some_iff.mp taken
  obtain ⟨_, _, rfl⟩ := settle_cases settled
  rfl

omit [DecidableEq Name] [DecidableEq Worker] [DecidableEq Consumer] in
theorem Covers.of_producers (covers : Covers common state)
    (same : after.producers = state.producers) : Covers common after where
  sees name := by
    rw [same]
    exact covers.sees name
  vacant block unused := by
    refine covers.vacant block fun name => ?_
    have free := unused name
    rw [State.requisitioned, same] at free
    exact free

/-- Over one memory and over a memory for each producer the same happens. -/
theorem lockstep [Fintype Worker] (few : Fintype.card Worker + 1 < 2 ^ 31) :
    Machine.Lockstep (machine Name Worker Consumer T maxSubqueueSize allocated)
      (BlockPool.machine Name Worker Consumer T maxSubqueueSize allocated)
      (fun events => ∀ name, ImplicitProducer.Timely (producerEvents name events))
      fun whole state => ∃ common, whole = sharing state common ∧ Covers common state where
  before := timely_before
  start := by
    refine ⟨fun _ => ⟨fun _ => none, 0⟩, rfl, fun name => ?_, fun _ _ _ _ => rfl⟩
    exact ⟨fun block used => (by cases used), fun block used => (by cases used)⟩
  next {_ _ state} label timely _ run related := by
    obtain ⟨common, rfl, covers⟩ := related
    cases label with
    | list label =>
        have whole := list_sharing maxSubqueueSize allocated state common label
        cases taken : (BlockPool.machine Name Worker Consumer T maxSubqueueSize allocated).step
            state (.list label) with
        | none =>
            rw [taken] at whole
            exact .inl ⟨whole, rfl⟩
        | some moved =>
            rw [taken] at whole
            exact .inr ⟨_, _, _, whole, rfl, fun _ =>
              ⟨common, rfl, covers.of_producers (list_producers taken)⟩⟩
    | producer name label =>
        rcases producer_sharing few run timely covers name label with
          halts | ⟨after, event, later, moves, answers, kept⟩
        · exact .inl halts
        · exact .inr ⟨_, _, _, moves, answers, fun late => ⟨later, rfl, kept late⟩⟩

/-- Producers that share one memory do what they would do with a memory for each. A run
over the one memory shows a history of producers that have their own; every producer is
then at the same points, with the same counters and the same block index, and finds in
the blocks that it has what would be in its own. A block that no producer has is empty.
Every such history is also one over the one memory. -/
theorem one_memory [Fintype Worker] (few : Fintype.card Worker + 1 < 2 ^ 31)
    (timely : ∀ name, ImplicitProducer.Timely (producerEvents name events)) :
    (∀ whole, (machine Name Worker Consumer T maxSubqueueSize allocated).Run events whole →
      ∃ state common, whole = sharing state common ∧ Covers common state ∧
        (BlockPool.machine Name Worker Consumer T maxSubqueueSize allocated).Run events state ∧
        ∀ name, (producerMachine Consumer T maxSubqueueSize (allocated name)).Run
          (producerEvents name events) (state.producers name)) ∧
      ∀ state,
        (BlockPool.machine Name Worker Consumer T maxSubqueueSize allocated).Run events state →
        ∃ common, Covers common state ∧
          (machine Name Worker Consumer T maxSubqueueSize allocated).Run events
            (sharing state common) := by
  refine ⟨fun whole run => ?_, fun state run => ?_⟩
  · obtain ⟨state, other, common, same, covers⟩ := (lockstep few).run_left timely run
    exact ⟨state, common, same, covers, other, run_producer other⟩
  · obtain ⟨_, other, common, rfl, covers⟩ := (lockstep few).run_right timely run
    exact ⟨common, covers, other⟩

end Steps

/-- In the one memory the block that has come round holds the element of its second
producer. -/
theorem one_memory_recycling : ∃ state common,
    (machine Bool Unit Unit Nat 0xFFFFFFFFFFFFFFFF fun _ => true).Run recyclingEvents
      (sharing state common) ∧
      state.requisitioned true 0 = true ∧ (common 0).elements 0 = some 100 := by
  obtain ⟨state, run, used, holds⟩ := recycling_run
  obtain ⟨common, covers, whole⟩ := (one_memory (by decide) recycling_timely).2 state run
  refine ⟨state, common, whole, used, ?_⟩
  rw [(covers.sees true).elements 0 used 0 (by decide)]
  exact holds

end DmLockFree.ConcurrentQueue.SharedBlocks
