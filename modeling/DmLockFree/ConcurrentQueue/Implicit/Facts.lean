import DmLockFree.ConcurrentQueue.Implicit.Blocks

/-! What the threads of an `ImplicitProducer` know, and what of it the steps of the
others leave alone. -/

set_option autoImplicit false

namespace DmLockFree.ConcurrentQueue.ImplicitProducer

open Library Program

variable {Consumer T : Type} {ghost later : Ghost Consumer T} {producer after : ImplicitProducer T}
  {events : List (Event Consumer T)} {consumer : Consumer} {pc : Pc T}

/-- The tail of the ring is at the last block. Behind it there may be an entry whose
block was taken back. -/
def Level (ghost : Ghost Consumer T) (producer : ImplicitProducer T) : Prop :=
  ∀ pointer, producer.index.blockIndex = some pointer →
    (ghost.slots.window pointer).top = ghost.mapped ∧
      (ghost.slots.reach = ghost.mapped ∨ ghost.slots.reach = ghost.mapped + 1 ∧
        ∃ key, producer.index.entries[ghost.slots.slot ghost.mapped]? = some ⟨key, none⟩)

/-- The entry is the one behind the tail. -/
structure At (ghost : Ghost Consumer T) (producer : ImplicitProducer T) (pointer : Nat)
    (newTail : UInt64) (entry : Nat) : Prop where
  current : producer.index.blockIndex = some pointer
  ring : ∃ header, producer.index.header pointer = some header ∧
    newTail.toNat = (ghost.slots.window pointer).place header ghost.mapped ∧
    header.index[newTail.toNat]? = some entry
  top : (ghost.slots.window pointer).top = ghost.mapped

/-- The entry is given to the next block, which does not stand in it yet. -/
structure Given (ghost : Ghost Consumer T) (producer : ImplicitProducer T) (entry top : Nat) :
    Prop where
  slot : ghost.slots.slot ghost.mapped = entry
  reach : ghost.slots.reach = ghost.mapped + 1
  vacant : ghost.slots.Vacant ghost.used entry
  key : ∃ value, producer.index.entries[entry]? = some ⟨baseOf ghost.mapped, value⟩
  ring : ∃ pointer header, producer.index.blockIndex = some pointer ∧
    producer.index.header pointer = some header ∧
    (ghost.slots.window pointer).low ≤ ghost.mapped ∧ (ghost.slots.window pointer).top = top

/-- What the producer knows of the tail and of the block index. -/
def Pc.Enqueuing (ghost : Ghost Consumer T) (producer : ImplicitProducer T) (tail : Nat) :
    Pc T → Prop
  | .idle | .enqLoadTail _ => ghost.mapped = (tail + 31) / 32 ∧ Level ghost producer
  | .enqLoadHead .. | .enqLoadKey .. => tail = 32 * ghost.mapped ∧ Level ghost producer
  | .enqLoadValue _ _ pointer newTail entry =>
      tail = 32 * ghost.mapped ∧ Level ghost producer ∧ At ghost producer pointer newTail entry
  | .enqNewIndex .. => tail = 32 * ghost.mapped ∧ Level ghost producer ∧
      producer.index.blockIndex ≠ none ∧ ghost.slots.reach = ghost.mapped
  | .enqAssertKey .. => tail = 32 * ghost.mapped ∧ Level ghost producer ∧
      ∃ pointer newTail entry found, producer.Behind pointer newTail entry found ∧
        found.key = INVALID_BLOCK_BASE
  | .enqStoreKey _ _ pointer newTail entry => tail = 32 * ghost.mapped ∧
      At ghost producer pointer newTail entry ∧ ghost.slots.Vacant ghost.used entry ∧
      ghost.slots.reach ≤ ghost.mapped + 1
  | .enqStoreIndexTail _ _ pointer newTail entry => tail = 32 * ghost.mapped ∧
      At ghost producer pointer newTail entry ∧ Given ghost producer entry ghost.mapped
  | .enqRequisition _ _ entry | .enqRewind _ entry | .enqResetEmpty _ _ entry _ =>
      tail = 32 * ghost.mapped ∧ Given ghost producer entry (ghost.mapped + 1)
  | .enqStoreValue _ _ entry block => tail = 32 * ghost.mapped ∧
      Given ghost producer entry (ghost.mapped + 1) ∧
      (producer.blocks block).elementsCompletelyDequeued = 0
  | .enqClearValue _ entry =>
      tail = 32 * ghost.mapped ∧ Given ghost producer entry ghost.mapped
  | .enqConstruct .. | .enqStoreTail .. =>
      ghost.mapped = tail / 32 + 1 ∧ Level ghost producer
  | _ => False

/-- The block that the producer has and that is not yet in the block index. -/
def Pc.fresh : Pc T → Option Nat
  | .enqResetEmpty _ _ _ block | .enqStoreValue _ _ _ block => some block
  | _ => none

/-- The element that the producer has constructed and not published. -/
def Pc.ahead : Pc T → Option T
  | .enqStoreTail request _ => some request.value
  | _ => none

structure ProducerFacts (events : List (Event Consumer T)) (ghost : Ghost Consumer T)
    (producer : ImplicitProducer T) (pc : Pc T) : Prop where
  stands : pc.Enqueuing ghost producer (published events).length
  fresh : ghost.fresh = pc.fresh
  ahead : ghost.ahead = pc.ahead

/-- The end of the part of a claim that is in the first block which is not counted. -/
def Claim.cut (claim : Claim) : Nat := min claim.stop (32 * (claim.start / 32) + 32)

/-- Nothing of the claim is moved. -/
def Claim.Whole (claim : Claim) (first stop : UInt64) : Prop :=
  first = .ofNat claim.first ∧ stop = .ofNat claim.stop ∧ claim.first = claim.index ∧
    claim.start = claim.index ∧ claim.index < claim.stop

/-- The position of a walk is that of a block of the claim. -/
structure Follows (ghost : Ghost Consumer T) (producer : ImplicitProducer T) (claim : Claim)
    (walk : Walk) (number : Nat) : Prop where
  first : walk.first = .ofNat claim.first
  stop : walk.stop = .ofNat claim.stop
  ring : ∃ header, producer.index.header walk.pointer = some header ∧
    (ghost.slots.window walk.pointer).low ≤ number ∧
    (claim.stop - 1) / 32 < (ghost.slots.window walk.pointer).reach ∧
    walk.position.toNat = (ghost.slots.window walk.pointer).place header number

/-- A consumer works on the part of its claim that is in one block. -/
structure Works (ghost : Ghost Consumer T) (producer : ImplicitProducer T) (claim : Claim)
    (walk : Walk) (start index endIndex : UInt64) (entry block : Nat) : Prop where
  follows : Follows ghost producer claim walk (claim.start / 32)
  opened : ghost.stage (claim.start / 32) = .opened block
  slot : ghost.slots.slot (claim.start / 32) = entry
  start : start = .ofNat claim.start
  index : index = .ofNat claim.index
  endIndex : endIndex = .ofNat claim.cut
  some : claim.start < claim.stop

/-- A consumer has emptied a block. -/
structure Leaves (ghost : Ghost Consumer T) (producer : ImplicitProducer T) (claim : Claim)
    (walk : Walk) (endIndex : UInt64) (number : Nat) : Prop where
  follows : Follows ghost producer claim walk number
  endIndex : endIndex = .ofNat claim.index
  start : claim.start = claim.index
  last : claim.index = claim.stop ∨ claim.index = 32 * number + 32

def Pc.Dequeuing (consumer : Consumer) (ghost : Ghost Consumer T) (producer : ImplicitProducer T)
    (claim : Claim) : Pc T → Prop
  | .idle | .deqLoadTail .. | .deqLoadOvercommit .. | .deqLoadOptimistic .. | .deqReserve ..
  | .deqCheck .. | .deqGiveUp .. | .deqGiveBack .. | .deqClaim .. =>
      claim.start = claim.stop
  | .findLoadIndex first stop => claim.Whole first stop
  | .findLoadTail first stop pointer => claim.Whole first stop ∧
      ∃ header, producer.index.header pointer = some header ∧
        (ghost.slots.window pointer).low ≤ claim.index / 32 ∧
        (claim.stop - 1) / 32 < (ghost.slots.window pointer).top
  | .findLoadKey first stop pointer tail => claim.Whole first stop ∧
      ∃ header number, producer.index.header pointer = some header ∧
        (ghost.slots.window pointer).low ≤ claim.index / 32 ∧
        (claim.stop - 1) / 32 < (ghost.slots.window pointer).reach ∧
        claim.index / 32 ≤ number ∧ number < (ghost.slots.window pointer).reach ∧
        tail.toNat = (ghost.slots.window pointer).place header number
  | .findAssertKey walk | .findAssertValue walk => claim.Whole walk.first walk.stop ∧
      Follows ghost producer claim walk (claim.index / 32)
  | .deqLoadBlock walk index => Follows ghost producer claim walk (claim.index / 32) ∧
      index = .ofNat claim.index ∧ claim.start = claim.index ∧ claim.index < claim.stop
  | .deqMove walk start index endIndex entry block =>
      Works ghost producer claim walk start index endIndex entry block ∧ claim.index < claim.cut
  | .deqSetEmpty walk start endIndex entry block =>
      Works ghost producer claim walk start endIndex endIndex entry block ∧
        claim.index = claim.cut
  | .deqClearValue walk endIndex entry block => ∃ number,
      Leaves ghost producer claim walk endIndex number ∧
      ghost.stage number = .clearing consumer block ∧ ghost.slots.slot number = entry ∧
      number < ghost.slots.reach
  | .deqRelease walk endIndex block => ∃ number,
      Leaves ghost producer claim walk endIndex number ∧
      ghost.stage number = .releasing consumer block
  | _ => False

def Pc.clears : Pc T → Option Nat
  | .deqClearValue _ _ _ block => some block
  | _ => none

def Pc.releases : Pc T → Option Nat
  | .deqRelease _ _ block => some block
  | _ => none

structure ConsumerFacts (consumer : Consumer) (ghost : Ghost Consumer T)
    (producer : ImplicitProducer T) (pc : Pc T) : Prop where
  stands : pc.Dequeuing consumer ghost producer (ghost.claim consumer)
  clears : ∀ number block, ghost.stage number = .clearing consumer block → pc.clears = some block
  releases : ∀ number block, ghost.stage number = .releasing consumer block →
    pc.releases = some block

def Facts (thread : Thread Consumer) (events : List (Event Consumer T)) (ghost : Ghost Consumer T)
    (producer : ImplicitProducer T) (pc : Pc T) : Prop :=
  match thread with
  | .producer => ProducerFacts events ghost producer pc
  | .consumer consumer => ConsumerFacts consumer ghost producer pc

/-- What a step leaves alone of the things that a consumer relies on. -/
structure Steady (consumer : Consumer) (ghost later : Ghost Consumer T)
    (producer after : ImplicitProducer T) : Prop where
  claim : later.claim consumer = ghost.claim consumer
  headers : ∀ pointer header, producer.index.header pointer = some header →
    after.index.header pointer = some header
  offset : ∀ pointer header, producer.index.header pointer = some header →
    (later.slots.window pointer).offset = (ghost.slots.window pointer).offset
  low : ∀ pointer header, producer.index.header pointer = some header →
    (later.slots.window pointer).low = (ghost.slots.window pointer).low
  reach : ∀ pointer header, producer.index.header pointer = some header →
    (ghost.slots.window pointer).reach ≤ (later.slots.window pointer).reach
  top : ∀ pointer header, producer.index.header pointer = some header →
    ∀ index, index < (ghost.claim consumer).stop →
      index / 32 < (ghost.slots.window pointer).top → index / 32 < (later.slots.window pointer).top
  slot : ∀ number, number < ghost.slots.reach → later.slots.slot number = ghost.slots.slot number
  all : ghost.slots.reach ≤ later.slots.reach
  opened : ∀ index block, (ghost.claim consumer).start ≤ index →
    index < (ghost.claim consumer).stop → ghost.stage (index / 32) = .opened block →
    later.stage (index / 32) = .opened block
  clearing : ∀ number block, later.stage number = .clearing consumer block ↔
    ghost.stage number = .clearing consumer block
  releasing : ∀ number block, later.stage number = .releasing consumer block ↔
    ghost.stage number = .releasing consumer block

namespace Steady

theorem place {consumer : Consumer} (steady : Steady consumer ghost later producer after)
    {pointer number : Nat} {header : BlockIndexHeader}
    (here : producer.index.header pointer = some header) :
    (later.slots.window pointer).place header number =
      (ghost.slots.window pointer).place header number := by
  rw [Window.place, Window.place, steady.offset pointer header here]

theorem follows (steady : Steady consumer ghost later producer after) {walk : Walk} {number : Nat}
    {claim : Claim} (follows : Follows ghost producer claim walk number) :
    Follows later after claim walk number := by
  obtain ⟨header, here, low, reach, position⟩ := follows.ring
  refine ⟨follows.first, follows.stop, header, steady.headers _ _ here, ?_, ?_, ?_⟩
  · rw [steady.low _ _ here]
    exact low
  · exact Nat.lt_of_lt_of_le reach (steady.reach _ _ here)
  · rw [steady.place here]
    exact position

theorem leaves (steady : Steady consumer ghost later producer after) {walk : Walk} {number : Nat}
    {claim : Claim} {endIndex : UInt64} (leaves : Leaves ghost producer claim walk endIndex number) :
    Leaves later after claim walk endIndex number :=
  ⟨steady.follows leaves.follows, leaves.endIndex, leaves.start, leaves.last⟩

theorem works (steady : Steady consumer ghost later producer after)
    (sound : Indexed producer.index ghost.slots ghost.used) {walk : Walk}
    {start index endIndex : UInt64} {entry block : Nat}
    (works : Works ghost producer (ghost.claim consumer) walk start index endIndex entry block) :
    Works later after (ghost.claim consumer) walk start index endIndex entry block := by
  obtain ⟨header, here, _, reach, _⟩ := works.follows.ring
  have some := works.some
  have known := sound.reach_le _ _ here
  refine ⟨steady.follows works.follows, ?_, ?_, works.start, works.index, works.endIndex, some⟩
  · exact steady.opened _ block (Nat.le_refl _) some works.opened
  · rw [steady.slot _ (by omega)]
    exact works.slot

/-- A consumer keeps its facts. -/
theorem facts (steady : Steady consumer ghost later producer after)
    (sound : Indexed producer.index ghost.slots ghost.used)
    (facts : ConsumerFacts consumer ghost producer pc) :
    ConsumerFacts consumer later after pc := by
  refine ⟨?_, fun number block stage => ?_, fun number block stage => ?_⟩
  · have stands := facts.stands
    rw [steady.claim]
    cases pc with
    | findLoadTail first stop pointer =>
        obtain ⟨whole, header, here, low, top⟩ := stands
        have some : (ghost.claim consumer).stop - 1 < (ghost.claim consumer).stop := by
          have := whole.2.2.2.2
          omega
        refine ⟨whole, header, steady.headers _ _ here, ?_, steady.top _ _ here _ some top⟩
        rw [steady.low _ _ here]
        exact low
    | findLoadKey first stop pointer tail =>
        obtain ⟨whole, header, number, here, low, reach, above, below, position⟩ := stands
        have more := steady.reach _ _ here
        refine ⟨whole, header, number, steady.headers _ _ here, ?_, Nat.lt_of_lt_of_le reach more,
          above, Nat.lt_of_lt_of_le below more, ?_⟩
        · rw [steady.low _ _ here]
          exact low
        · rw [steady.place here]
          exact position
    | findAssertKey walk | findAssertValue walk =>
        exact ⟨stands.1, steady.follows stands.2⟩
    | deqLoadBlock walk index => exact ⟨steady.follows stands.1, stands.2⟩
    | deqMove walk start index endIndex entry block | deqSetEmpty walk start endIndex entry block =>
        exact ⟨steady.works sound stands.1, stands.2⟩
    | deqClearValue walk endIndex entry block =>
        obtain ⟨number, leaves, stage, slot, reach⟩ := stands
        refine ⟨number, steady.leaves leaves, (steady.clearing _ _).mpr stage, ?_,
          Nat.lt_of_lt_of_le reach steady.all⟩
        rw [steady.slot _ reach]
        exact slot
    | deqRelease walk endIndex block =>
        obtain ⟨number, leaves, stage⟩ := stands
        exact ⟨number, steady.leaves leaves, (steady.releasing _ _).mpr stage⟩
    | _ => exact stands
  · exact facts.clears number block ((steady.clearing _ _).mp stage)
  · exact facts.releases number block ((steady.releasing _ _).mp stage)

end Steady

end DmLockFree.ConcurrentQueue.ImplicitProducer
