import DmLockFree.ConcurrentQueue.Implicit.Wait

/-!
# The memory of the blocks

A step of an `ImplicitProducer` uses at most one block, and one that the producer has.
So the producer does the same over a memory in which only the blocks that it has are
like its own.
-/

set_option autoImplicit false

namespace DmLockFree.ConcurrentQueue.ImplicitProducer

open Library Program

variable {Consumer T : Type} {maxSubqueueSize : UInt64} {producer after : ImplicitProducer T}
  {pc next : Pc T} {output : Output T} {blocks : Nat → Block T} {block : Nat}

/-- The producer over other blocks. -/
def withBlocks (producer : ImplicitProducer T) (blocks : Nat → Block T) : ImplicitProducer T :=
  { producer with blocks }

/-- The block whose elements or counter the next step uses. -/
def Pc.touches (producer : ImplicitProducer T) : Pc T → Option Nat
  | .enqResetEmpty _ _ _ block | .deqMove _ _ _ _ _ block | .deqSetEmpty _ _ _ _ block => some block
  | .enqConstruct .. => producer.tailBlock
  | _ => none

/-- What a step does, over other blocks. -/
def overBlocks (blocks : Nat → Block T) (step : ImplicitProducer T × Pc T × Output T) :
    ImplicitProducer T × Pc T × Output T := (step.1.withBlocks blocks, step.2)

/-- Steps that use no block do the same over all blocks. -/
theorem enqueue_untouching (untouching : pc.touches producer = none) :
    advanceEnqueue maxSubqueueSize (producer.withBlocks blocks) pc =
      (advanceEnqueue maxSubqueueSize producer pc).map (overBlocks blocks) := by
  cases pc with
  | enqLoadTail request =>
      simp only [advanceEnqueue, withBlocks, apply_ite (Option.map (overBlocks blocks))]
      rfl
  | enqLoadHead request currentTailIndex =>
      simp only [advanceEnqueue, withBlocks, apply_ite (Option.map (overBlocks blocks))]
      rfl
  | enqLoadKey request currentTailIndex | enqAssertKey request currentTailIndex =>
      simp only [advanceEnqueue, withBlocks]
      cases producer.index.blockIndex with
      | none => rfl
      | some pointer =>
          cases here : producer.index.header pointer with
          | none => simp only [here]; rfl
          | some header =>
              cases place : header.entry (header.mask (producer.index.tails pointer + 1)) with
              | none => simp only [here, place]; rfl
              | some entry =>
                  cases found : producer.index.entries[entry]? with
                  | none => simp only [here, place, found]; rfl
                  | some old =>
                      simp only [here, place, found, Option.map_some]
                      split <;> rfl
  | enqLoadValue request currentTailIndex pointer newTail entry =>
      simp only [advanceEnqueue, withBlocks]
      cases found : producer.index.entries[entry]? with
      | none => rfl
      | some old => cases value : old.value <;> simp only [value] <;> rfl
  | enqNewIndex request currentTailIndex =>
      simp only [advanceEnqueue, withBlocks, apply_ite (Option.map (overBlocks blocks))]
      rfl
  | enqRequisition request currentTailIndex entry =>
      simp only [advanceEnqueue, withBlocks]
      cases request.block with
      | none => rfl
      | some block =>
          simp only [apply_ite (Option.map (overBlocks blocks))]
          rfl
  | enqRewind request entry =>
      simp only [advanceEnqueue, withBlocks]
      cases producer.index.blockIndex with
      | none => rfl
      | some pointer => cases here : producer.index.header pointer <;> simp only [here] <;> rfl
  | enqConstruct request currentTailIndex =>
      have none : producer.tailBlock = none := untouching
      simp only [advanceEnqueue, withBlocks, none]
      rfl
  | enqResetEmpty => cases untouching
  | _ => rfl

theorem dequeue_untouching (untouching : pc.touches producer = none) :
    advanceDequeue (producer.withBlocks blocks) pc =
      (advanceDequeue producer pc).map (overBlocks blocks) := by
  cases pc with
  | deqLoadOptimistic kind tail overcommit =>
      simp only [advanceDequeue, withBlocks]
      cases kind.desired tail (producer.dequeueOptimisticCount - overcommit) <;> rfl
  | deqCheck kind overcommit desiredCount myDequeueCount =>
      simp only [advanceDequeue, withBlocks]
      cases kind.actual producer.tailIndex (myDequeueCount - overcommit) desiredCount with
      | none => rfl
      | some actualCount =>
          simp only [Option.map_some]
          split <;> rfl
  | findLoadIndex first stop =>
      simp only [advanceDequeue, withBlocks]
      cases producer.index.blockIndex <;> rfl
  | findAssertValue walk =>
      simp only [advanceDequeue, withBlocks]
      split <;> rfl
  | findLoadKey | findAssertKey | deqLoadBlock =>
      simp only [advanceDequeue, withBlocks]
      split
      · rfl
      · simp only [Option.map_some]
        split <;> rfl
  | deqRelease walk endIndex block =>
      simp only [advanceDequeue, withBlocks]
      cases producer.index.header walk.pointer <;> rfl
  | deqMove | deqSetEmpty => cases untouching
  | _ => rfl

/-- The block whose counter the producer is about to reset. -/
def Pc.resets : Pc T → Option Nat
  | .enqResetEmpty _ _ _ block => some block
  | _ => none

theorem Pc.touches_of_resets (resets : pc.resets = some block) :
    pc.touches producer = some block := by
  cases pc with
  | enqResetEmpty => exact resets
  | _ => cases resets

theorem Pc.fresh_of_resets (resets : pc.resets = some block) : pc.fresh = some block := by
  cases pc with
  | enqResetEmpty => exact resets
  | _ => cases resets

/-- Two blocks hold the same elements. -/
def SameElements (mine common : Block T) : Prop :=
  ∀ offset, offset < 32 → common.elements offset = mine.elements offset

/-- A step writes the same into the block that it touches in both memories. -/
structure Writes (touched : Option Nat) (mine mineAfter common commonAfter : Nat → Block T) :
    Prop where
  apart : ∀ block, touched ≠ some block →
    mineAfter block = mine block ∧ commonAfter block = common block
  elements : ∀ block, touched = some block → SameElements (mineAfter block) (commonAfter block)
  counter : ∀ block, touched = some block →
    (commonAfter block).elementsCompletelyDequeued = (mineAfter block).elementsCompletelyDequeued

theorem Writes.none (mine common : Nat → Block T) : Writes none mine mine common common where
  apart _ _ := ⟨rfl, rfl⟩
  elements block same := by cases same
  counter block same := by cases same

theorem Writes.unchanged {mine common : Nat → Block T}
    (elements : SameElements (mine block) (common block))
    (counter : (common block).elementsCompletelyDequeued =
      (mine block).elementsCompletelyDequeued) :
    Writes (some block) mine mine common common := by
  refine ⟨fun other apart => ⟨rfl, rfl⟩, fun other same => ?_, fun other same => ?_⟩
  · cases same
    exact elements
  · cases same
    exact counter

theorem Writes.update {mine common : Nat → Block T} {mineNew commonNew : Block T}
    (elements : SameElements mineNew commonNew)
    (counter : commonNew.elementsCompletelyDequeued = mineNew.elementsCompletelyDequeued) :
    Writes (some block) mine (Function.update mine block mineNew) common
      (Function.update common block commonNew) := by
  refine ⟨fun other apart => ?_, fun other same => ?_, fun other same => ?_⟩
  · have different : other ≠ block := fun same => apart (congrArg some same.symm)
    exact ⟨Function.update_of_ne different .., Function.update_of_ne different ..⟩
  · cases same
    rw [Function.update_self, Function.update_self]
    exact elements
  · cases same
    rw [Function.update_self, Function.update_self]
    exact counter

theorem SameElements.update {mine common : Block T} (same : SameElements mine common)
    (place : Nat) (element : Option T) {count other : UInt64} :
    SameElements ⟨Function.update mine.elements place element, count⟩
      ⟨Function.update common.elements place element, other⟩ := by
  intro offset inside
  rcases eq_or_ne offset place with rfl | apart
  · simp only [Function.update_self]
  · simp only [Function.update_of_ne apart]
    exact same offset inside

theorem blockOffset_lt (index : UInt64) : (blockOffset index).toNat < 32 := by
  have offset := blockOffset_toNat index.toNat
  rw [UInt64.ofNat_toNat] at offset
  omega

/-- The step over the blocks of the producer and that over others are the same. -/
def Mirrors (maxSubqueueSize : UInt64) (producer : ImplicitProducer T) (blocks : Nat → Block T)
    (pc : Pc T) : Prop :=
  (advance maxSubqueueSize producer pc = none ∧
    advance maxSubqueueSize (producer.withBlocks blocks) pc = none) ∨
  ∃ after next output later, advance maxSubqueueSize producer pc = some (after, next, output) ∧
    advance maxSubqueueSize (producer.withBlocks blocks) pc =
      some (after.withBlocks later, next, output) ∧
    Writes (pc.touches producer) producer.blocks after.blocks blocks later

theorem withBlocks_self (producer : ImplicitProducer T) :
    producer.withBlocks producer.blocks = producer := rfl

theorem advance_untouching (maxSubqueueSize : UInt64) (blocks : Nat → Block T)
    (untouching : pc.touches producer = none) :
    advance maxSubqueueSize (producer.withBlocks blocks) pc =
      (advance maxSubqueueSize producer pc).map (overBlocks blocks) := by
  rw [advance, advance, enqueue_untouching untouching, dequeue_untouching untouching]
  cases advanceEnqueue maxSubqueueSize producer pc <;> rfl

theorem mirrors_untouching (untouching : pc.touches producer = none) :
    Mirrors maxSubqueueSize producer blocks pc := by
  have other := advance_untouching maxSubqueueSize blocks untouching
  have own := advance_untouching maxSubqueueSize producer.blocks untouching
  rw [withBlocks_self] at own
  cases taken : advance maxSubqueueSize producer pc with
  | none =>
      rw [taken] at other
      exact .inl ⟨taken, other⟩
  | some step =>
      rw [taken] at own other
      obtain ⟨after, next, output⟩ := step
      refine .inr ⟨after, next, output, blocks, taken, other, ?_⟩
      have kept : after.blocks = producer.blocks :=
        congrArg (fun step => step.1.blocks) (Option.some.inj own)
      rw [untouching, kept]
      exact .none ..

theorem mirrors_reset (request : Enqueue T) (currentTailIndex : UInt64) (entry : Nat)
    (elements : SameElements (producer.blocks block) (blocks block)) :
    Mirrors maxSubqueueSize producer blocks (.enqResetEmpty request currentTailIndex entry block) :=
  .inr ⟨producer.setCompletelyDequeued block 0, _, _, _, rfl, rfl, .update elements rfl⟩

section Equations

variable {index currentTailIndex endIndex start : UInt64} {request : Enqueue T} {value : T}
  {walk : Walk} {entry : Nat}

theorem construct_step (tailBlock : producer.tailBlock = some block)
    (vacant : (producer.blocks block).elements (blockOffset currentTailIndex).toNat = none) :
    advance maxSubqueueSize producer (.enqConstruct request currentTailIndex) =
      some (producer.setElement block (blockOffset currentTailIndex).toNat (some request.value),
        .enqStoreTail request currentTailIndex,
        ⟨.construct currentTailIndex request.value, none⟩) := by
  simp only [advance, advanceEnqueue, tailBlock, vacant]
  rfl

theorem construct_aborts (tailBlock : producer.tailBlock = some block)
    (present : (producer.blocks block).elements (blockOffset currentTailIndex).toNat =
      some value) :
    advance maxSubqueueSize producer (.enqConstruct request currentTailIndex) =
      some (producer, .aborted, ⟨.construct currentTailIndex request.value, none⟩) := by
  simp only [advance, advanceEnqueue, tailBlock, present]
  rfl

theorem move_step
    (present : (producer.blocks block).elements (blockOffset index).toNat = some value) :
    advance maxSubqueueSize producer (.deqMove walk start index endIndex entry block) =
      some (producer.setElement block (blockOffset index).toNat none,
        if index + 1 = endIndex then .deqSetEmpty walk start endIndex entry block
        else .deqMove walk start (index + 1) endIndex entry block, ⟨.move index value, none⟩) := by
  simp only [advance, advanceEnqueue, advanceDequeue, present]
  rfl

theorem move_aborts
    (vacant : (producer.blocks block).elements (blockOffset index).toNat = none) :
    advance maxSubqueueSize producer (.deqMove walk start index endIndex entry block) =
      some (producer, .aborted, ⟨.loadValue, none⟩) := by
  simp only [advance, advanceEnqueue, advanceDequeue, vacant]
  rfl

/-- What `set_many_empty` does depends on the block only through its counter. -/
theorem setEmpty_step (maxSubqueueSize : UInt64) (walk : Walk) (start endIndex : UInt64)
    (entry block : Nat) (index : BlockIndex) (count : UInt64) :
    ∃ (next : Pc T) (output : Output T), ∀ (producer : ImplicitProducer T),
      producer.index = index → (producer.blocks block).elementsCompletelyDequeued = count →
      advance maxSubqueueSize producer (.deqSetEmpty walk start endIndex entry block) =
        some (producer.setCompletelyDequeued block (count + (endIndex - start)), next, output) := by
  by_cases tooMany : BLOCK_SIZE < count + (endIndex - start)
  · refine ⟨.aborted, ⟨.setEmpty block (endIndex - start), none⟩, fun producer same counted => ?_⟩
    simp only [advance, advanceEnqueue, advanceDequeue, counted, if_pos tooMany]
    rfl
  by_cases all : count + (endIndex - start) = BLOCK_SIZE
  · refine ⟨.deqClearValue walk endIndex entry block, ⟨.setEmpty block (endIndex - start), none⟩,
      fun producer same counted => ?_⟩
    simp only [advance, advanceEnqueue, advanceDequeue, counted, if_neg tooMany, if_pos all]
    rfl
  cases here : index.header walk.pointer with
  | none =>
      refine ⟨.aborted, ⟨.setEmpty block (endIndex - start), none⟩, fun producer same counted => ?_⟩
      simp only [advance, advanceEnqueue, advanceDequeue, counted, if_neg tooMany, if_neg all, same,
        here]
      rfl
  | some header =>
      refine ⟨(walk.next header endIndex).1, ⟨.setEmpty block (endIndex - start),
        (walk.next header endIndex : Pc T × _).2⟩, fun producer same counted => ?_⟩
      simp only [advance, advanceEnqueue, advanceDequeue, counted, if_neg tooMany, if_neg all, same,
        here]
      rfl

end Equations

section Touching

variable (elements : SameElements (producer.blocks block) (blocks block))
  (counter : (blocks block).elementsCompletelyDequeued =
    (producer.blocks block).elementsCompletelyDequeued)

include elements counter

theorem mirrors_construct (request : Enqueue T) (currentTailIndex : UInt64)
    (tailBlock : producer.tailBlock = some block) :
    Mirrors maxSubqueueSize producer blocks (.enqConstruct request currentTailIndex) := by
  have touched : (Pc.enqConstruct request currentTailIndex).touches producer = some block :=
    tailBlock
  have common : (producer.withBlocks blocks).tailBlock = some block := tailBlock
  have same : ((producer.withBlocks blocks).blocks block).elements _ = _ :=
    elements _ (blockOffset_lt currentTailIndex)
  cases place : (producer.blocks block).elements (blockOffset currentTailIndex).toNat with
  | none =>
      rw [place] at same
      refine .inr ⟨_, _, _, _, construct_step tailBlock place, construct_step common same, ?_⟩
      rw [touched]
      exact .update (elements.update _ _) counter
  | some value =>
      rw [place] at same
      refine .inr ⟨_, _, _, blocks, construct_aborts tailBlock place,
        construct_aborts common same, ?_⟩
      rw [touched]
      exact .unchanged elements counter

theorem mirrors_move (walk : Walk) (start index endIndex : UInt64) (entry : Nat) :
    Mirrors maxSubqueueSize producer blocks (.deqMove walk start index endIndex entry block) := by
  have same : ((producer.withBlocks blocks).blocks block).elements _ = _ :=
    elements _ (blockOffset_lt index)
  cases place : (producer.blocks block).elements (blockOffset index).toNat with
  | none =>
      rw [place] at same
      exact .inr ⟨_, _, _, blocks, move_aborts place, move_aborts same, .unchanged elements counter⟩
  | some value =>
      rw [place] at same
      exact .inr ⟨_, _, _, _, move_step place, move_step same,
        .update (elements.update _ _) counter⟩

theorem mirrors_setEmpty (walk : Walk) (start endIndex : UInt64) (entry : Nat) :
    Mirrors maxSubqueueSize producer blocks (.deqSetEmpty walk start endIndex entry block) := by
  obtain ⟨next, output, steps⟩ := setEmpty_step (T := T) maxSubqueueSize walk start
    endIndex entry block producer.index (producer.blocks block).elementsCompletelyDequeued
  exact .inr ⟨_, _, _, _, steps producer rfl rfl, steps (producer.withBlocks blocks) rfl counter,
    .update elements rfl⟩

end Touching

/-- Before the counter of a block is reset, only the elements have to be the same. -/
theorem mirrors_of_same (elements : ∀ block, pc.touches producer = some block →
      SameElements (producer.blocks block) (blocks block))
    (counter : ∀ block, pc.touches producer = some block → pc.resets ≠ some block →
      (blocks block).elementsCompletelyDequeued =
        (producer.blocks block).elementsCompletelyDequeued) :
    Mirrors maxSubqueueSize producer blocks pc := by
  cases touched : pc.touches producer with
  | none => exact mirrors_untouching touched
  | some block =>
      have same := elements block touched
      have counts := counter block touched
      cases pc with
      | enqResetEmpty request currentTailIndex entry block =>
          cases touched
          exact mirrors_reset request currentTailIndex entry same
      | enqConstruct request currentTailIndex =>
          exact mirrors_construct same (counts fun resets => by cases resets) request
            currentTailIndex touched
      | deqMove walk start index endIndex entry block =>
          cases touched
          exact mirrors_move same (counts fun resets => by cases resets) walk start index endIndex
            entry
      | deqSetEmpty walk start endIndex entry block =>
          cases touched
          exact mirrors_setEmpty same (counts fun resets => by cases resets) walk start endIndex
            entry
      | _ => cases touched

section Run

variable [DecidableEq Consumer] {allocated : Bool} {events : List (Event Consumer T)}
  {state : State Consumer T} {thread : Thread Consumer} {ghost : Ghost Consumer T}

omit [DecidableEq Consumer] in
/-- The producer uses the block that it is opening, or that of its tail. -/
theorem ProducerFacts.touches (sound : Sound events ghost producer)
    (facts : ProducerFacts events ghost producer pc)
    (touched : pc.touches producer = some block) : producer.requisitioned block = true := by
  rw [sound.stored.requisitioned]
  cases pc with
  | enqResetEmpty request currentTailIndex entry block =>
      cases touched
      exact .inr facts.fresh
  | enqConstruct request currentTailIndex =>
      obtain ⟨tail, held, same⟩ := tail_held sound facts.stands.1
      cases same.symm.trans touched
      exact .inl ⟨_, held⟩
  | deqMove | deqSetEmpty => cases facts.stands
  | _ => cases touched

omit [DecidableEq Consumer] in
/-- A consumer uses a block that holds elements of its claim. -/
theorem ConsumerFacts.touches {consumer : Consumer}
    (facts : ConsumerFacts consumer ghost producer pc)
    (touched : pc.touches producer = some block) : ∃ number, ghost.held number = some block := by
  have opened : ∀ {number : Nat}, ghost.stage number = .opened block →
      ∃ number, ghost.held number = some block :=
    fun stage => ⟨_, by rw [Ghost.held, stage]; rfl⟩
  cases pc with
  | deqMove walk start index endIndex entry block =>
      cases touched
      exact opened facts.stands.1.opened
  | deqSetEmpty walk start endIndex entry block =>
      cases touched
      exact opened facts.stands.1.opened
  | enqResetEmpty | enqConstruct => cases facts.stands
  | _ => cases touched

/-- The threads use only blocks that the producer has, and those that it is about to
reset only to reset them. -/
theorem run_touches
    (run : ((program Consumer T maxSubqueueSize).machine (construct T allocated)).Run events state)
    (timely : Timely events) (touched : (state.pc thread).touches state.shared = some block) :
    state.shared.requisitioned block = true ∧
      ((state.pc thread).resets ≠ some block → (state.pc .producer).resets ≠ some block) := by
  obtain ⟨ghost, sound, facts⟩ := run_sound run timely
  cases thread with
  | producer =>
      have mine : ProducerFacts events ghost state.shared (state.pc .producer) := facts .producer
      exact ⟨mine.touches sound touched, id⟩
  | consumer consumer =>
      have mine : ConsumerFacts consumer ghost state.shared (state.pc (.consumer consumer)) :=
        facts (.consumer consumer)
      obtain ⟨number, held⟩ := mine.touches touched
      refine ⟨?_, fun _ resets => ?_⟩
      · rw [sound.stored.requisitioned]
        exact .inl ⟨number, held⟩
      · have producing : ProducerFacts events ghost state.shared (state.pc .producer) :=
          facts .producer
        have fresh := producing.fresh.trans (Pc.fresh_of_resets resets)
        exact sound.stored.fresh number block fresh held

/-- The blocks that the producer has look to it like its own. -/
structure Sees (state : State Consumer T) (common : Nat → Block T) : Prop where
  elements : ∀ block, state.shared.requisitioned block = true →
    SameElements (state.shared.blocks block) (common block)
  counter : ∀ block, state.shared.requisitioned block = true →
    (state.pc .producer).resets ≠ some block →
      (common block).elementsCompletelyDequeued =
        (state.shared.blocks block).elementsCompletelyDequeued

variable {common later : Nat → Block T}

omit [DecidableEq Consumer] in
theorem Sees.congr (sees : Sees state common)
    (same : ∀ block, state.shared.requisitioned block = true → later block = common block) :
    Sees state later where
  elements block used := by
    rw [same block used]
    exact sees.elements block used
  counter block used := by
    rw [same block used]
    exact sees.counter block used

theorem run_mirrors
    (run : ((program Consumer T maxSubqueueSize).machine (construct T allocated)).Run events state)
    (timely : Timely events) (sees : Sees state common) (thread : Thread Consumer) :
    Mirrors maxSubqueueSize state.shared common (state.pc thread) := by
  refine mirrors_of_same (fun block touched => ?_) fun block touched other => ?_
  · exact sees.elements block (run_touches run timely touched).1
  · obtain ⟨used, untouched⟩ := run_touches run timely touched
    exact sees.counter block used (untouched other)

omit [DecidableEq Consumer] in
/-- A block that the producer had still looks to it like its own. -/
theorem Sees.kept (sees : Sees state common)
    (writes : Writes (pc.touches state.shared) state.shared.blocks after.blocks common later)
    (used : state.shared.requisitioned block = true) :
    SameElements (after.blocks block) (later block) := by
  by_cases touched : pc.touches state.shared = some block
  · exact writes.elements block touched
  · obtain ⟨mine, its⟩ := writes.apart block touched
    rw [mine, its]
    exact sees.elements block used

theorem Enqueues.requisitions (taken : Enqueues maxSubqueueSize producer pc after next output)
    (requisitions : output.access = .requisition (some block)) :
    producer.requisitioned block = false ∧ next.resets = some block ∧
      pc.touches producer = none := by
  cases taken with
  | requisition request currentTailIndex entry given free =>
      cases requisitions
      exact ⟨free, rfl, rfl⟩
  | _ => cases requisitions

theorem Dequeues.not_requisition (taken : Dequeues producer pc after next output) :
    output.access ≠ .requisition (some block) := by
  intro requisitions
  cases taken <;> cases requisitions

theorem moved_consumer (state : State Consumer T) (shared : ImplicitProducer T) (name : Consumer)
    (pc : Pc T) : (state.moved shared (.consumer name) pc).pc .producer = state.pc .producer := by
  have apart : (Thread.producer : Thread Consumer) ≠ .consumer name := fun same => by cases same
  exact Function.update_of_ne apart pc state.pc

theorem run_requisitions
    (run : ((program Consumer T maxSubqueueSize).machine (construct T allocated)).Run events state)
    (taken : advance maxSubqueueSize state.shared (state.pc thread) = some (after, next, output))
    (requisitions : output.access = .requisition (some block)) :
    thread = .producer ∧ state.shared.requisitioned block = false ∧ next.resets = some block ∧
      (state.pc thread).touches state.shared = none := by
  rcases run_turn run taken with ⟨rfl, enqueues⟩ | ⟨consumer, rfl, dequeues⟩
  · exact ⟨rfl, enqueues.requisitions requisitions⟩
  · exact absurd requisitions dequeues.not_requisition

omit [DecidableEq Consumer] in
theorem Access.requisitions_cases {access : Access T} {requisitioned : Nat → Bool}
    (used : access.requisitions requisitioned block = true) :
    requisitioned block = true ∨ access = .requisition (some block) := by
  cases access with
  | requisition given =>
      cases given with
      | none => exact .inl used
      | some given =>
          rcases eq_or_ne block given with rfl | apart
          · exact .inr rfl
          · rw [Access.requisitions, Access.hands, Option.elim_some,
              Function.update_of_ne apart] at used
            exact .inl used
  | release given =>
      rcases eq_or_ne block given with rfl | apart
      · rw [Access.requisitions, Access.hands, Option.elim_some, Function.update_self] at used
        cases used
      · rw [Access.requisitions, Access.hands, Option.elim_some,
          Function.update_of_ne apart] at used
        exact .inl used
  | _ => exact .inl used

/-- The element places of the block that an access takes are empty. -/
def Clean (common : Nat → Block T) : Event Consumer T → Prop
  | .ran _ ⟨.requisition (some block), _⟩ =>
      ∀ offset, offset < 32 → (common block).elements offset = none
  | _ => True

omit [DecidableEq Consumer] in
theorem Clean.vacant (clean : Clean common (.ran thread output))
    (requisitions : output.access = .requisition (some block)) :
    ∀ offset, offset < 32 → (common block).elements offset = none := by
  obtain ⟨access, returned⟩ := output
  cases requisitions
  exact clean

/-- After a step the producer sees its own blocks again, when a new one is empty. -/
theorem run_sees
    (run : ((program Consumer T maxSubqueueSize).machine (construct T allocated)).Run events state)
    (timely : Timely (events ++ [.ran thread output])) (sees : Sees state common)
    (taken : advance maxSubqueueSize state.shared (state.pc thread) = some (after, next, output))
    (writes : Writes ((state.pc thread).touches state.shared) state.shared.blocks after.blocks
      common later)
    (clean : Clean common (.ran thread output)) :
    Sees (state.moved after thread next) later := by
  obtain ⟨owned, _⟩ := run_hands run timely taken
  refine ⟨fun block used => ?_, fun block used settled => ?_⟩
  · rw [Threads.moved_shared, owned] at used
    rcases Access.requisitions_cases used with before | requisitions
    · exact sees.kept writes before
    · obtain ⟨rfl, free, _, untouching⟩ := run_requisitions run taken requisitions
      obtain ⟨mine, its⟩ := writes.apart block (by rw [untouching]; exact fun same => by cases same)
      rw [Threads.moved_shared, mine, its]
      intro offset inside
      rw [clean.vacant requisitions offset inside, run_vacant run timely.init free offset inside]
  · rw [Threads.moved_shared, owned] at used
    rcases Access.requisitions_cases used with before | requisitions
    · by_cases touched : (state.pc thread).touches state.shared = some block
      · exact writes.counter block touched
      · obtain ⟨mine, its⟩ := writes.apart block touched
        rw [Threads.moved_shared, mine, its]
        refine sees.counter block before ?_
        cases thread with
        | producer => exact fun resets => touched (Pc.touches_of_resets resets)
        | consumer name =>
            rw [moved_consumer] at settled
            exact settled
    · obtain ⟨rfl, _, resets, _⟩ := run_requisitions run taken requisitions
      rw [Threads.moved_pc_self] at settled
      exact absurd resets settled

/-- What a step changes in the blocks of all producers. -/
structure Reflects (state after : State Consumer T) (common later : Nat → Block T) : Prop where
  sees : Sees after later
  others : ∀ block, state.shared.requisitioned block = false → later block = common block
  given : ∀ block, state.shared.requisitioned block = true →
    SameElements (after.shared.blocks block) (later block)

/-- The threads over other blocks. -/
def elsewhere (state : State Consumer T) (common : Nat → Block T) : State Consumer T :=
  ⟨state.shared.withBlocks common, state.pc⟩

/-- A producer takes the same steps over the blocks of all producers as over its own. -/
theorem step_reflects
    (run : ((program Consumer T maxSubqueueSize).machine (construct T allocated)).Run events state)
    (timely : Timely events) (sees : Sees state common)
    (label : Threads.Label (Thread Consumer) (Call T)) :
    (((program Consumer T maxSubqueueSize).machine (construct T allocated)).step state label =
        none ∧
      ((program Consumer T maxSubqueueSize).machine (construct T allocated)).step
        (elsewhere state common) label = none) ∨
    ∃ after event later,
      ((program Consumer T maxSubqueueSize).machine (construct T allocated)).step state label =
        some (after, event) ∧
      ((program Consumer T maxSubqueueSize).machine (construct T allocated)).step
        (elsewhere state common) label = some (elsewhere after later, event) ∧
      (Timely (events ++ [event]) → Clean common event → Reflects state after common later) := by
  cases label with
  | call thread request =>
      cases entered : enter thread (state.pc thread) request with
      | none =>
          exact .inl ⟨Option.map_eq_none_iff.mpr entered, Option.map_eq_none_iff.mpr entered⟩
      | some pc =>
          refine .inr ⟨_, _, common, Option.map_eq_some_iff.mpr ⟨pc, entered, rfl⟩,
            Option.map_eq_some_iff.mpr ⟨pc, entered, rfl⟩, fun _ _ => ⟨?_, fun _ _ => rfl, ?_⟩⟩
          · refine ⟨sees.elements, fun block used settled => sees.counter block used ?_⟩
            cases thread with
            | producer =>
                rw [(enter_idle entered).1]
                exact fun same => by cases same
            | consumer name =>
                rw [moved_consumer] at settled
                exact settled
          · exact sees.elements
  | run thread =>
      rcases run_mirrors run timely sees thread with
        ⟨stops, halts⟩ | ⟨after, next, output, later, taken, other, writes⟩
      · exact .inl ⟨Option.map_eq_none_iff.mpr stops, Option.map_eq_none_iff.mpr halts⟩
      · refine .inr ⟨_, _, later, Option.map_eq_some_iff.mpr ⟨_, taken, rfl⟩,
          Option.map_eq_some_iff.mpr ⟨_, other, rfl⟩, fun late clean => ⟨?_, ?_, ?_⟩⟩
        · exact run_sees run late sees taken writes clean
        · intro block unused
          refine (writes.apart block fun touched => ?_).2
          rw [(run_touches run timely touched).1] at unused
          cases unused
        · exact fun block used => sees.kept writes used

end Run

end DmLockFree.ConcurrentQueue.ImplicitProducer
