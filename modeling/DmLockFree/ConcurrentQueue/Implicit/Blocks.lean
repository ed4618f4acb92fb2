import DmLockFree.ConcurrentQueue.Implicit.Growth
import DmLockFree.ConcurrentQueue.Implicit.Room
import DmLockFree.Library.Pick
import Mathlib.Data.Finset.Card

/-!
# The blocks of `ImplicitProducer`

Where every enqueued element is and who is going to take it. Blocks and elements
are numbered in the order in which they are enqueued.
-/

set_option autoImplicit false

namespace DmLockFree.ConcurrentQueue.ImplicitProducer

open Library Program

variable {Consumer T : Type}

/-- A block is opened by the producer; the consumer that empties it takes it out of
the block index and then releases it. -/
inductive Stage (Consumer : Type) where
  | absent
  | opened (block : Nat)
  | clearing (consumer : Consumer) (block : Nat)
  | releasing (consumer : Consumer) (block : Nat)
  | released

namespace Stage

/-- The block that stands in the block index. -/
def used : Stage Consumer → Option Nat
  | .opened block | .clearing _ block => some block
  | _ => none

/-- The block that the producer has not given back. -/
def held : Stage Consumer → Option Nat
  | .opened block | .clearing _ block | .releasing _ block => some block
  | _ => none

def emptied : Stage Consumer → Bool
  | .clearing .. | .releasing .. | .released => true
  | _ => false

theorem held_of_used {stage : Stage Consumer} {block : Nat} (stands : stage.used = some block) :
    stage.held = some block := by
  cases stage <;> first | exact stands | cases stands

end Stage

/-- What became of an index: it is claimed by a consumer, its element is moved, and the
block counts it as dequeued. -/
inductive Owner (Consumer : Type) where
  | waiting
  | claimed (consumer : Consumer)
  | moved (consumer : Consumer)
  | counted

namespace Owner

def present : Owner Consumer → Bool
  | .waiting | .claimed _ => true
  | _ => false

def finished : Owner Consumer → Bool
  | .counted => true
  | _ => false

end Owner

/-- The indices that a consumer has claimed last: those below `start` are counted, those
below `index` are moved. -/
structure Claim where
  first : Nat
  start : Nat
  index : Nat
  stop : Nat

/-- `fresh` is a block that is not yet in the block index, `ahead` an element behind the
tail. `trail` has the moves of all consumers. -/
structure Ghost (Consumer T : Type) where
  slots : Slots
  stage : Nat → Stage Consumer
  owner : Nat → Owner Consumer
  claim : Consumer → Claim
  trail : List (Consumer × Nat)
  mapped : Nat
  fresh : Option Nat
  ahead : Option T

namespace Ghost

def used (ghost : Ghost Consumer T) (number : Nat) : Option Nat := (ghost.stage number).used

def held (ghost : Ghost Consumer T) (number : Nat) : Option Nat := (ghost.stage number).held

end Ghost

/-- The elements of a block that are counted as dequeued. -/
def finishedIn (owner : Nat → Owner Consumer) (number : Nat) : Finset Nat :=
  (Finset.range 32).filter fun offset => (owner (32 * number + offset)).finished

/-- The element that is still at an index. -/
def content (values : List T) (owner : Nat → Owner Consumer) (index : Nat) : Option T :=
  if (owner index).present then values[index]? else none

/-- The elements and counters of the blocks. -/
structure Stored (ghost : Ghost Consumer T) (values : List T) (producer : ImplicitProducer T) :
    Prop where
  absent : ∀ number, ghost.stage number = .absent ↔ ghost.mapped ≤ number
  emptied : ∀ index, (ghost.stage (index / 32)).emptied = true → ghost.owner index = .counted
  opened : ∀ number block, ghost.stage number = .opened block →
    (producer.blocks block).elementsCompletelyDequeued =
        .ofNat (finishedIn ghost.owner number).card ∧
      (finishedIn ghost.owner number).card < 32
  contents : ∀ index block, ghost.held (index / 32) = some block →
    (producer.blocks block).elements (index % 32) = content values ghost.owner index
  vacant : ∀ block, (∀ number, ghost.held number ≠ some block) → ∀ offset, offset < 32 →
    (producer.blocks block).elements offset = none
  distinct : ∀ number other block, ghost.held number = some block →
    ghost.held other = some block → number = other
  fresh : ∀ number block, ghost.fresh = some block → ghost.held number ≠ some block
  requisitioned : ∀ block, producer.requisitioned block = true ↔
    (∃ number, ghost.held number = some block) ∨ ghost.fresh = some block

/-- Who owns which indices, of which the first ones are taken. -/
structure Owned (ghost : Ghost Consumer T) (taken : Nat) : Prop where
  waiting : ∀ index, ghost.owner index = .waiting ↔ taken ≤ index
  claimed : ∀ consumer index, ghost.owner index = .claimed consumer ↔
    (ghost.claim consumer).index ≤ index ∧ index < (ghost.claim consumer).stop
  moved : ∀ consumer index, ghost.owner index = .moved consumer ↔
    (ghost.claim consumer).start ≤ index ∧ index < (ghost.claim consumer).index
  first_le : ∀ consumer, (ghost.claim consumer).first ≤ (ghost.claim consumer).start
  start_le : ∀ consumer, (ghost.claim consumer).start ≤ (ghost.claim consumer).index
  index_le : ∀ consumer, (ghost.claim consumer).index ≤ (ghost.claim consumer).stop
  stop_le : ∀ consumer, (ghost.claim consumer).stop ≤ taken
  close : ∀ consumer, (ghost.claim consumer).stop < (ghost.claim consumer).first + 2 ^ 63

theorem Owned.of_same {ghost later : Ghost Consumer T} {taken : Nat} (owned : Owned ghost taken)
    (owner : later.owner = ghost.owner) (claim : later.claim = ghost.claim) :
    Owned later taken := by
  obtain ⟨waiting, claimed, moved, first_le, start_le, index_le, stop_le, close⟩ := owned
  rw [← owner] at waiting claimed moved
  rw [← claim] at claimed moved first_le start_le index_le stop_le close
  exact ⟨waiting, claimed, moved, first_le, start_le, index_le, stop_le, close⟩

def Access.moved : Access T → Option T
  | .move _ value => some value
  | _ => none

/-- The elements that consumers have moved out of the queue, in the order of the moves. -/
def moves (events : List (Event Consumer T)) : List (Consumer × T) :=
  events.filterMap fun
    | .ran (.consumer name) output => output.access.moved.map fun value => (name, value)
    | _ => none

section Snoc

variable (events : List (Event Consumer T)) (consumer : Consumer) (thread : Thread Consumer)
  (request : Call T) (output : Output T)

@[simp] theorem moves_called : moves (events ++ [.called thread request]) = moves events := by
  simp [moves]

@[simp] theorem moves_producer : moves (events ++ [.ran .producer output]) = moves events := by
  simp [moves]

@[simp] theorem moves_consumer : moves (events ++ [.ran (.consumer consumer) output]) =
    moves events ++ (output.access.moved.map fun value => (consumer, value)).toList := by
  cases moved : output.access.moved <;> simp [moves, moved]

end Snoc

/-- What a step adds to the indices that are claimed, of which there are `head`. -/
def share (head : Nat) : Event Consumer T → List (Consumer × Nat)
  | .ran (.consumer name) output =>
      (List.range' head output.access.taken).map fun index => (name, index)
  | _ => []

def claimsFrom : Nat → List (Event Consumer T) → List (Consumer × Nat)
  | _, [] => []
  | head, event :: rest =>
      share head event ++ claimsFrom (head + (access event).elim 0 Access.taken) rest

/-- The indices that consumers have claimed, in their order. -/
def claims (events : List (Event Consumer T)) : List (Consumer × Nat) := claimsFrom 0 events

section Claims

variable {events : List (Event Consumer T)} {consumer : Consumer} {thread : Thread Consumer}
  {request : Call T} {output : Output T}

theorem claimsFrom_snoc (head : Nat) (events : List (Event Consumer T))
    (event : Event Consumer T) : claimsFrom head (events ++ [event]) =
      claimsFrom head events ++ share (head + taken events) event := by
  induction events generalizing head with
  | nil => simp [claimsFrom, taken, count]
  | cons first rest ih =>
      rw [List.cons_append, claimsFrom, claimsFrom, ih, List.append_assoc]
      simp [taken, count, Nat.add_assoc]

theorem claims_snoc (event : Event Consumer T) :
    claims (events ++ [event]) = claims events ++ share (taken events) event := by
  rw [claims, claimsFrom_snoc, Nat.zero_add]
  rfl

theorem claims_called : claims (events ++ [.called thread request]) = claims events := by
  rw [claims_snoc]
  exact List.append_nil _

theorem claims_quiet (quiet : output.access.taken = 0) :
    claims (events ++ [.ran thread output]) = claims events := by
  rw [claims_snoc]
  cases thread with
  | producer => exact List.append_nil _
  | consumer name => rw [share, quiet, List.range'_zero, List.map_nil, List.append_nil]

theorem moves_quiet (quiet : output.access.moved = none) :
    moves (events ++ [.ran thread output]) = moves events := by
  cases thread with
  | producer => exact moves_producer ..
  | consumer name =>
      rw [moves_consumer, quiet, Option.map_none, Option.toList_none, List.append_nil]

end Claims

/-- The moves of the history are those of the trail. What a consumer has claimed is what
it has moved and what is left of its claim. -/
structure Trailed (ghost : Ghost Consumer T) (values : List T) (moves : List (Consumer × T))
    (claims : List (Consumer × Nat)) : Prop where
  once : (ghost.trail.map Prod.snd).Nodup
  gone : ∀ index, index ∈ ghost.trail.map Prod.snd ↔ (ghost.owner index).present = false
  before : ∀ step ∈ ghost.trail, step.2 < (ghost.claim step.1).index
  ordered : ghost.trail.Pairwise fun left right => left.1 = right.1 → left.2 < right.2
  moves : moves.map (Prod.map id some) = ghost.trail.map (Prod.map id (values[·]?))
  shares : ∀ (consumer : Consumer) (mine : Consumer → Bool),
    (∀ other, mine other = true ↔ other = consumer) →
    select mine ghost.trail ++ List.range' (ghost.claim consumer).index
      ((ghost.claim consumer).stop - (ghost.claim consumer).index) = select mine claims

/-- The blocks reach to the tail, and the block of the tail is the one that the producer
knows. -/
structure Ended (ghost : Ghost Consumer T) (tail : Nat) (producer : ImplicitProducer T) : Prop where
  tail_le : tail ≤ 32 * ghost.mapped
  mapped_le : ghost.mapped ≤ tail / 32 + 1
  tailBlock : tail < 32 * ghost.mapped → ∃ block, ghost.held (tail / 32) = some block ∧
    producer.tailBlock = some block

/-- The elements that were enqueued, and the one behind the tail. -/
def Ghost.values (ghost : Ghost Consumer T) (events : List (Event Consumer T)) : List T :=
  published events ++ ghost.ahead.toList

structure Sound (events : List (Event Consumer T)) (ghost : Ghost Consumer T)
    (producer : ImplicitProducer T) : Prop where
  indexed : Indexed producer.index ghost.slots ghost.used
  stored : Stored ghost (ghost.values events) producer
  owned : Owned ghost (taken events)
  trailed : Trailed ghost (ghost.values events) (moves events) (claims events)
  ended : Ended ghost (published events).length producer

section Sound

variable {events later : List (Event Consumer T)} {ghost : Ghost Consumer T}
  {producer after : ImplicitProducer T} {index number : Nat} {block : Nat}

/-- The parts of the object that only the counters do not belong to. -/
structure SameStore (producer after : ImplicitProducer T) : Prop where
  index : after.index = producer.index
  blocks : after.blocks = producer.blocks
  requisitioned : after.requisitioned = producer.requisitioned
  tailBlock : after.tailBlock = producer.tailBlock

/-- Steps that move only counters keep everything else. -/
theorem Sound.still (sound : Sound events ghost producer) (same : SameStore producer after)
    (publishes : published later = published events)
    (takes : ImplicitProducer.taken later = ImplicitProducer.taken events)
    (moved : ImplicitProducer.moves later = ImplicitProducer.moves events)
    (claimed : ImplicitProducer.claims later = ImplicitProducer.claims events) :
    Sound later ghost after := by
  have values : ghost.values later = ghost.values events := by
    rw [Ghost.values, Ghost.values, publishes]
  have stored := sound.stored
  refine ⟨?_, ⟨stored.absent, stored.emptied, ?_, ?_, ?_, stored.distinct, stored.fresh, ?_⟩, ?_,
    ?_, ?_⟩
  · rw [same.index]
    exact sound.indexed
  · rw [same.blocks]
    exact stored.opened
  · rw [same.blocks, values]
    exact stored.contents
  · rw [same.blocks]
    exact stored.vacant
  · rw [same.requisitioned]
    exact stored.requisitioned
  · rw [takes]
    exact sound.owned
  · rw [moved, claimed, values]
    exact sound.trailed
  · rw [publishes]
    refine ⟨sound.ended.tail_le, sound.ended.mapped_le, ?_⟩
    rw [same.tailBlock]
    exact sound.ended.tailBlock

/-- The block of an index below the tail that is not counted yet is open. -/
theorem Sound.opened (sound : Sound events ghost producer)
    (below : index < (published events).length) (uncounted : ghost.owner index ≠ .counted) :
    ∃ block, ghost.stage (index / 32) = .opened block := by
  have tail := sound.ended.tail_le
  have present : ghost.stage (index / 32) ≠ .absent := by
    intro absent
    have beyond := (sound.stored.absent _).mp absent
    omega
  have filled : (ghost.stage (index / 32)).emptied ≠ true :=
    fun emptied => uncounted (sound.stored.emptied index emptied)
  cases stage : ghost.stage (index / 32) with
  | opened block => exact ⟨block, rfl⟩
  | absent => exact absurd stage present
  | clearing | releasing | released =>
      rw [stage] at filled
      exact absurd rfl filled

theorem used_of_opened (opened : ghost.stage number = .opened block) :
    ghost.used number = some block := by
  rw [Ghost.used, opened]
  rfl

theorem held_of_opened (opened : ghost.stage number = .opened block) :
    ghost.held number = some block := by
  rw [Ghost.held, opened]
  rfl

end Sound

end DmLockFree.ConcurrentQueue.ImplicitProducer
