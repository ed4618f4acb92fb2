import DmLockFree.ConcurrentQueue.Implicit.Index
import DmLockFree.Library.Threads

/-!
# `ImplicitProducer`

The queue of one producing thread, from which any number of threads dequeue. Its
elements lie in blocks that are taken from the memory of the whole queue and given
back by the thread that empties them. Every atomic operation, every construction
and every move of an element is one step, and so is every whole call of
`requisition_block`, `add_block_to_free_list` and `new_block_index`: the loops inside
these calls are not counted.
-/

set_option autoImplicit false

namespace DmLockFree.ConcurrentQueue

open Library

structure Block (T : Type) where
  elements : Nat → Option T
  elementsCompletelyDequeued : UInt64

structure ProducerBase where
  tailIndex : UInt64
  headIndex : UInt64
  dequeueOptimisticCount : UInt64
  dequeueOvercommit : UInt64
  tailBlock : Option Nat

/-- The elements between a tail and a head that were loaded one after the other. -/
def sizeApprox (tail head : UInt64) : UInt64 := if circularLessThan head tail then tail - head else 0

/-- The size limit of the traits, rounded up to whole blocks. -/
def MAX_SUBQUEUE_SIZE (maxSubqueueSize : UInt64) : UInt64 :=
  if 0xFFFFFFFFFFFFFFFF - maxSubqueueSize < BLOCK_SIZE then 0xFFFFFFFFFFFFFFFF
  else (maxSubqueueSize + (BLOCK_SIZE - 1)) / BLOCK_SIZE * BLOCK_SIZE

/-- `requisitioned` says which blocks the producer has taken and not given back. -/
structure ImplicitProducer (T : Type) extends ProducerBase where
  index : BlockIndex
  blocks : Nat → Block T
  requisitioned : Nat → Bool

namespace ImplicitProducer

variable {T : Type}

/-- The constructor; `allocated` is whether the memory for its block index was found. -/
def construct (T : Type) (allocated : Bool) : ImplicitProducer T where
  tailIndex := 0
  headIndex := 0
  dequeueOptimisticCount := 0
  dequeueOvercommit := 0
  tailBlock := none
  index := if allocated then BlockIndex.construct.newBlockIndex else .construct
  blocks := fun _ => ⟨fun _ => none, 0⟩
  requisitioned := fun _ => false

def setIndex (producer : ImplicitProducer T) (index : BlockIndex) : ImplicitProducer T :=
  { producer with index }

def setElement (producer : ImplicitProducer T) (block : Nat) (offset : Nat) (element : Option T) :
    ImplicitProducer T :=
  { producer with
    blocks := Function.update producer.blocks block
      { producer.blocks block with
        elements := Function.update (producer.blocks block).elements offset element } }

def setCompletelyDequeued (producer : ImplicitProducer T) (block : Nat) (count : UInt64) :
    ImplicitProducer T :=
  { producer with
    blocks := Function.update producer.blocks block
      { producer.blocks block with elementsCompletelyDequeued := count } }

def setRequisitioned (producer : ImplicitProducer T) (block : Nat) (taken : Bool) :
    ImplicitProducer T :=
  { producer with requisitioned := Function.update producer.requisitioned block taken }

inductive AllocationMode where
  | canAlloc
  | cannotAlloc
  deriving DecidableEq, Repr

/-- An element to enqueue. What the allocator will answer is fixed by the call:
whether a larger block index is found, and the block of `requisition_block`. -/
structure Enqueue (T : Type) where
  value : T
  mode : AllocationMode
  indexFound : Bool
  block : Option Nat

/-- `dequeue`, or `dequeue_bulk` of at most `max` elements. -/
inductive Dequeue where
  | single
  | bulk (max : UInt64)
  deriving DecidableEq, Repr

/-- How much to reserve when `effective` elements seem to be taken. -/
def Dequeue.desired (kind : Dequeue) (tail effective : UInt64) : Option UInt64 :=
  match kind with
  | .single => if circularLessThan effective tail then some 1 else none
  | .bulk max =>
      let desiredCount := tail - effective
      if circularLessThan 0 desiredCount then
        some (if desiredCount < max then desiredCount else max)
      else none

/-- How much of the reservation is there. -/
def Dequeue.actual (kind : Dequeue) (tail effective desiredCount : UInt64) : Option UInt64 :=
  match kind with
  | .single => if circularLessThan effective tail then some 1 else none
  | .bulk _ =>
      let actualCount := tail - effective
      if circularLessThan 0 actualCount then
        some (if desiredCount < actualCount then desiredCount else actualCount)
      else none

/-- A new block would let the tail surpass the head, or exceed the size limit. -/
def full (maxSubqueueSize currentTailIndex head : UInt64) : Bool :=
  !circularLessThan head (currentTailIndex + BLOCK_SIZE) ||
    (maxSubqueueSize != 0xFFFFFFFFFFFFFFFF &&
      (maxSubqueueSize == 0 || maxSubqueueSize - BLOCK_SIZE < currentTailIndex - head))

inductive Call (T : Type) where
  | enqueue (request : Enqueue T)
  | dequeue (kind : Dequeue)

inductive Return (T : Type) where
  | enqueued (value : T) (result : Bool)
  | dequeued (count : UInt64)

inductive Access (T : Type) where
  | loadTailIndex
  | storeTailIndex (value : T)
  | loadHeadIndex
  | claim (index amount : UInt64)
  | loadOptimisticCount
  | reserve (amount : UInt64)
  | loadOvercommit
  | overcommit (amount : UInt64)
  | loadBlockIndex
  | newBlockIndex
  | loadIndexTail
  | storeIndexTail
  | loadKey
  | storeKey
  | loadValue
  | storeValue
  | requisition (block : Option Nat)
  | release (block : Nat)
  | resetEmpty (block : Nat)
  | setEmpty (block : Nat) (count : UInt64)
  | construct (index : UInt64) (value : T)
  | move (index : UInt64) (value : T)

/-- The claimed indices and where the block of the current one is in the block index
that the thread has loaded. -/
structure Walk where
  first : UInt64
  stop : UInt64
  pointer : Nat
  position : UInt64

/-- `aborted` is a failed assertion, an access outside an array or through null, or an
element constructed over another or moved from an empty place. -/
inductive Pc (T : Type) where
  | idle
  | aborted
  | enqLoadTail (request : Enqueue T)
  | enqLoadHead (request : Enqueue T) (currentTailIndex : UInt64)
  | enqLoadKey (request : Enqueue T) (currentTailIndex : UInt64)
  | enqLoadValue (request : Enqueue T) (currentTailIndex : UInt64) (pointer : Nat)
      (newTail : UInt64) (entry : Nat)
  | enqNewIndex (request : Enqueue T) (currentTailIndex : UInt64)
  | enqAssertKey (request : Enqueue T) (currentTailIndex : UInt64)
  | enqStoreKey (request : Enqueue T) (currentTailIndex : UInt64) (pointer : Nat)
      (newTail : UInt64) (entry : Nat)
  | enqStoreIndexTail (request : Enqueue T) (currentTailIndex : UInt64) (pointer : Nat)
      (newTail : UInt64) (entry : Nat)
  | enqRequisition (request : Enqueue T) (currentTailIndex : UInt64) (entry : Nat)
  | enqRewind (request : Enqueue T) (entry : Nat)
  | enqClearValue (request : Enqueue T) (entry : Nat)
  | enqResetEmpty (request : Enqueue T) (currentTailIndex : UInt64) (entry block : Nat)
  | enqStoreValue (request : Enqueue T) (currentTailIndex : UInt64) (entry block : Nat)
  | enqConstruct (request : Enqueue T) (currentTailIndex : UInt64)
  | enqStoreTail (request : Enqueue T) (currentTailIndex : UInt64)
  | deqLoadTail (kind : Dequeue)
  | deqLoadOvercommit (kind : Dequeue) (tail : UInt64)
  | deqLoadOptimistic (kind : Dequeue) (tail overcommit : UInt64)
  | deqReserve (kind : Dequeue) (overcommit desiredCount : UInt64)
  | deqCheck (kind : Dequeue) (overcommit desiredCount myDequeueCount : UInt64)
  | deqGiveUp (desiredCount : UInt64)
  | deqGiveBack (actualCount surplus : UInt64)
  | deqClaim (actualCount : UInt64)
  | findLoadIndex (first stop : UInt64)
  | findLoadTail (first stop : UInt64) (pointer : Nat)
  | findLoadKey (first stop : UInt64) (pointer : Nat) (tail : UInt64)
  | findAssertKey (walk : Walk)
  | findAssertValue (walk : Walk)
  | deqLoadBlock (walk : Walk) (index : UInt64)
  | deqMove (walk : Walk) (start index endIndex : UInt64) (entry block : Nat)
  | deqSetEmpty (walk : Walk) (start endIndex : UInt64) (entry block : Nat)
  | deqClearValue (walk : Walk) (endIndex : UInt64) (entry block : Nat)
  | deqRelease (walk : Walk) (endIndex : UInt64) (block : Nat)

structure Output (T : Type) where
  access : Access T
  returned : Option (Return T)

def Enqueue.failed (request : Enqueue T) : Option (Return T) :=
  some (.enqueued request.value false)

/-- Where the part of the claim ends that lies in the block of `index`. -/
def Walk.endIndex (walk : Walk) (index : UInt64) : UInt64 :=
  let endOfBlock := blockBase index + BLOCK_SIZE
  if circularLessThan walk.stop endOfBlock then walk.stop else endOfBlock

/-- The next block of the claim, or the end of the call. -/
def Walk.next (walk : Walk) (header : BlockIndexHeader) (endIndex : UInt64) :
    Pc T × Option (Return T) :=
  if endIndex = walk.stop then (.idle, some (.dequeued (walk.stop - walk.first)))
  else (.deqLoadBlock { walk with position := header.mask (walk.position + 1) } endIndex, none)

/-- The allocator does not find memory for an index beyond the address space. -/
def indexFits (index : BlockIndex) : Prop := index.nextBlockIndexCapacity.toNat ≤ 2 ^ 58

instance decidableIndexFits (index : BlockIndex) : Decidable (indexFits index) :=
  inferInstanceAs (Decidable (_ ≤ _))

/-- One step of the running `enqueue`. There is none with a block that is in use. -/
def advanceEnqueue (maxSubqueueSize : UInt64) (producer : ImplicitProducer T) :
    Pc T → Option (ImplicitProducer T × Pc T × Output T)
  | .enqLoadTail request =>
      if blockOffset producer.tailIndex = 0 then
        some (producer, .enqLoadHead request producer.tailIndex, ⟨.loadTailIndex, none⟩)
      else some (producer, .enqConstruct request producer.tailIndex, ⟨.loadTailIndex, none⟩)
  | .enqLoadHead request currentTailIndex =>
      if circularLessThan currentTailIndex producer.headIndex then
        some (producer, .aborted, ⟨.loadHeadIndex, none⟩)
      else if full maxSubqueueSize currentTailIndex producer.headIndex then
        some (producer, .idle, ⟨.loadHeadIndex, request.failed⟩)
      else some (producer, .enqLoadKey request currentTailIndex, ⟨.loadHeadIndex, none⟩)
  | .enqLoadKey request currentTailIndex =>
      match producer.index.blockIndex with
      | none => some (producer, .idle, ⟨.loadBlockIndex, request.failed⟩)
      | some pointer => some <|
          match producer.index.header pointer with
          | none => (producer, .aborted, ⟨.loadKey, none⟩)
          | some header =>
              let newTail := header.mask (producer.index.tails pointer + 1)
              match header.entry newTail with
              | none => (producer, .aborted, ⟨.loadKey, none⟩)
              | some entry =>
                  match producer.index.entries[entry]? with
                  | none => (producer, .aborted, ⟨.loadKey, none⟩)
                  | some old =>
                      if old.key = INVALID_BLOCK_BASE then
                        (producer, .enqStoreKey request currentTailIndex pointer newTail entry,
                          ⟨.loadKey, none⟩)
                      else
                        (producer, .enqLoadValue request currentTailIndex pointer newTail entry,
                          ⟨.loadKey, none⟩)
  | .enqLoadValue request currentTailIndex pointer newTail entry => some <|
      match producer.index.entries[entry]? with
      | none => (producer, .aborted, ⟨.loadValue, none⟩)
      | some old =>
          match old.value with
          | none =>
              (producer, .enqStoreKey request currentTailIndex pointer newTail entry,
                ⟨.loadValue, none⟩)
          | some _ => (producer, .enqNewIndex request currentTailIndex, ⟨.loadValue, none⟩)
  | .enqNewIndex request currentTailIndex =>
      if request.mode = .cannotAlloc ∨ request.indexFound = false then
        some (producer, .idle, ⟨.newBlockIndex, request.failed⟩)
      else if indexFits producer.index then
        some (producer.setIndex producer.index.newBlockIndex,
          .enqAssertKey request currentTailIndex, ⟨.newBlockIndex, none⟩)
      else none
  | .enqAssertKey request currentTailIndex => some <|
      match producer.index.blockIndex with
      | none => (producer, .aborted, ⟨.loadKey, none⟩)
      | some pointer =>
          match producer.index.header pointer with
          | none => (producer, .aborted, ⟨.loadKey, none⟩)
          | some header =>
              let newTail := header.mask (producer.index.tails pointer + 1)
              match header.entry newTail with
              | none => (producer, .aborted, ⟨.loadKey, none⟩)
              | some entry =>
                  match producer.index.entries[entry]? with
                  | none => (producer, .aborted, ⟨.loadKey, none⟩)
                  | some old =>
                      if old.key = INVALID_BLOCK_BASE then
                        (producer, .enqStoreKey request currentTailIndex pointer newTail entry,
                          ⟨.loadKey, none⟩)
                      else (producer, .aborted, ⟨.loadKey, none⟩)
  | .enqStoreKey request currentTailIndex pointer newTail entry =>
      some (producer.setIndex (producer.index.setKey entry currentTailIndex),
        .enqStoreIndexTail request currentTailIndex pointer newTail entry, ⟨.storeKey, none⟩)
  | .enqStoreIndexTail request currentTailIndex pointer newTail entry =>
      some (producer.setIndex (producer.index.setTail pointer newTail),
        .enqRequisition request currentTailIndex entry, ⟨.storeIndexTail, none⟩)
  | .enqRequisition request currentTailIndex entry =>
      match request.block with
      | none => some (producer, .enqRewind request entry, ⟨.requisition none, none⟩)
      | some block =>
          if producer.requisitioned block then none
          else some (producer.setRequisitioned block true,
            .enqResetEmpty request currentTailIndex entry block,
            ⟨.requisition (some block), none⟩)
  | .enqRewind request entry => some <|
      match producer.index.blockIndex with
      | none => (producer, .aborted, ⟨.storeIndexTail, none⟩)
      | some pointer =>
          match producer.index.header pointer with
          | none => (producer, .aborted, ⟨.storeIndexTail, none⟩)
          | some header =>
              (producer.setIndex (producer.index.setTail pointer
                  (header.mask (producer.index.tails pointer - 1))),
                .enqClearValue request entry, ⟨.storeIndexTail, none⟩)
  | .enqClearValue request entry =>
      some (producer.setIndex (producer.index.setValue entry none), .idle,
        ⟨.storeValue, request.failed⟩)
  | .enqResetEmpty request currentTailIndex entry block =>
      some (producer.setCompletelyDequeued block 0,
        .enqStoreValue request currentTailIndex entry block, ⟨.resetEmpty block, none⟩)
  | .enqStoreValue request currentTailIndex entry block =>
      some ({ producer.setIndex (producer.index.setValue entry (some block)) with
          tailBlock := some block },
        .enqConstruct request currentTailIndex, ⟨.storeValue, none⟩)
  | .enqConstruct request currentTailIndex => some <|
      match producer.tailBlock with
      | none => (producer, .aborted, ⟨.construct currentTailIndex request.value, none⟩)
      | some block =>
          match (producer.blocks block).elements (blockOffset currentTailIndex).toNat with
          | some _ => (producer, .aborted, ⟨.construct currentTailIndex request.value, none⟩)
          | none =>
              (producer.setElement block (blockOffset currentTailIndex).toNat
                  (some request.value),
                .enqStoreTail request currentTailIndex,
                ⟨.construct currentTailIndex request.value, none⟩)
  | .enqStoreTail request currentTailIndex =>
      some ({ producer with tailIndex := 1 + currentTailIndex }, .idle,
        ⟨.storeTailIndex request.value, some (.enqueued request.value true)⟩)
  | _ => none

/-- One step of a running `dequeue` or `dequeue_bulk`. -/
def advanceDequeue (producer : ImplicitProducer T) :
    Pc T → Option (ImplicitProducer T × Pc T × Output T)
  | .deqLoadTail kind =>
      some (producer, .deqLoadOvercommit kind producer.tailIndex, ⟨.loadTailIndex, none⟩)
  | .deqLoadOvercommit kind tail =>
      some (producer, .deqLoadOptimistic kind tail producer.dequeueOvercommit,
        ⟨.loadOvercommit, none⟩)
  | .deqLoadOptimistic kind tail overcommit => some <|
      match kind.desired tail (producer.dequeueOptimisticCount - overcommit) with
      | none => (producer, .idle, ⟨.loadOptimisticCount, some (.dequeued 0)⟩)
      | some desiredCount =>
          (producer, .deqReserve kind overcommit desiredCount, ⟨.loadOptimisticCount, none⟩)
  | .deqReserve kind overcommit desiredCount =>
      some ({ producer with
          dequeueOptimisticCount := producer.dequeueOptimisticCount + desiredCount },
        .deqCheck kind overcommit desiredCount producer.dequeueOptimisticCount,
        ⟨.reserve desiredCount, none⟩)
  | .deqCheck kind overcommit desiredCount myDequeueCount => some <|
      match kind.actual producer.tailIndex (myDequeueCount - overcommit) desiredCount with
      | none => (producer, .deqGiveUp desiredCount, ⟨.loadTailIndex, none⟩)
      | some actualCount =>
          if actualCount < desiredCount then
            (producer, .deqGiveBack actualCount (desiredCount - actualCount),
              ⟨.loadTailIndex, none⟩)
          else (producer, .deqClaim actualCount, ⟨.loadTailIndex, none⟩)
  | .deqGiveUp desiredCount =>
      some ({ producer with dequeueOvercommit := producer.dequeueOvercommit + desiredCount },
        .idle, ⟨.overcommit desiredCount, some (.dequeued 0)⟩)
  | .deqGiveBack actualCount surplus =>
      some ({ producer with dequeueOvercommit := producer.dequeueOvercommit + surplus },
        .deqClaim actualCount, ⟨.overcommit surplus, none⟩)
  | .deqClaim actualCount =>
      some ({ producer with headIndex := producer.headIndex + actualCount },
        .findLoadIndex producer.headIndex (producer.headIndex + actualCount),
        ⟨.claim producer.headIndex actualCount, none⟩)
  | .findLoadIndex first stop => some <|
      match producer.index.blockIndex with
      | none => (producer, .aborted, ⟨.loadBlockIndex, none⟩)
      | some pointer => (producer, .findLoadTail first stop pointer, ⟨.loadBlockIndex, none⟩)
  | .findLoadTail first stop pointer =>
      some (producer, .findLoadKey first stop pointer (producer.index.tails pointer),
        ⟨.loadIndexTail, none⟩)
  | .findLoadKey first stop pointer tail => some <|
      match (producer.index.header pointer).bind fun header =>
          (header.entry tail).bind fun entry =>
            producer.index.entries[entry]?.map fun found => (header, found.key) with
      | none => (producer, .aborted, ⟨.loadKey, none⟩)
      | some (header, tailBase) =>
          if tailBase = INVALID_BLOCK_BASE then (producer, .aborted, ⟨.loadKey, none⟩)
          else (producer, .findAssertKey ⟨first, stop, pointer,
            header.locate tail tailBase (blockBase first)⟩, ⟨.loadKey, none⟩)
  | .findAssertKey walk => some <|
      match (producer.index.header walk.pointer).bind fun header =>
          (header.entry walk.position).bind fun entry => producer.index.entries[entry]? with
      | none => (producer, .aborted, ⟨.loadKey, none⟩)
      | some found =>
          if found.key = blockBase walk.first then
            (producer, .findAssertValue walk, ⟨.loadKey, none⟩)
          else (producer, .aborted, ⟨.loadKey, none⟩)
  | .findAssertValue walk => some <|
      match (producer.index.header walk.pointer).bind fun header =>
          (header.entry walk.position).bind fun entry =>
            producer.index.entries[entry]?.bind BlockIndexEntry.value with
      | none => (producer, .aborted, ⟨.loadValue, none⟩)
      | some _ => (producer, .deqLoadBlock walk walk.first, ⟨.loadValue, none⟩)
  | .deqLoadBlock walk index => some <|
      match (producer.index.header walk.pointer).bind fun header =>
          (header.entry walk.position).bind fun entry =>
            (producer.index.entries[entry]?.bind BlockIndexEntry.value).map fun block =>
              (entry, block) with
      | none => (producer, .aborted, ⟨.loadValue, none⟩)
      | some (entry, block) =>
          if index = walk.endIndex index then
            (producer, .deqSetEmpty walk index (walk.endIndex index) entry block,
              ⟨.loadValue, none⟩)
          else (producer, .deqMove walk index index (walk.endIndex index) entry block,
            ⟨.loadValue, none⟩)
  | .deqMove walk start index endIndex entry block =>
      match (producer.blocks block).elements (blockOffset index).toNat with
      | none => some (producer, .aborted, ⟨.loadValue, none⟩)
      | some value => some (producer.setElement block (blockOffset index).toNat none,
          if index + 1 = endIndex then .deqSetEmpty walk start endIndex entry block
          else .deqMove walk start (index + 1) endIndex entry block, ⟨.move index value, none⟩)
  | .deqSetEmpty walk start endIndex entry block =>
      let count := endIndex - start
      let prevVal := (producer.blocks block).elementsCompletelyDequeued
      let after := producer.setCompletelyDequeued block (prevVal + count)
      some <|
        if BLOCK_SIZE < prevVal + count then (after, .aborted, ⟨.setEmpty block count, none⟩)
        else if prevVal + count = BLOCK_SIZE then
          (after, .deqClearValue walk endIndex entry block, ⟨.setEmpty block count, none⟩)
        else
          match producer.index.header walk.pointer with
          | none => (after, .aborted, ⟨.setEmpty block count, none⟩)
          | some header => (after, (walk.next header endIndex).1,
              ⟨.setEmpty block count, (walk.next header endIndex : Pc T × _).2⟩)
  | .deqClearValue walk endIndex entry block =>
      some (producer.setIndex (producer.index.setValue entry none),
        .deqRelease walk endIndex block, ⟨.storeValue, none⟩)
  | .deqRelease walk endIndex block => some <|
      match producer.index.header walk.pointer with
      | none => (producer, .aborted, ⟨.release block, none⟩)
      | some header => (producer.setRequisitioned block false, (walk.next header endIndex).1,
          ⟨.release block, (walk.next header endIndex : Pc T × _).2⟩)
  | _ => none

def advance (maxSubqueueSize : UInt64) (producer : ImplicitProducer T) (pc : Pc T) :
    Option (ImplicitProducer T × Pc T × Output T) :=
  (advanceEnqueue maxSubqueueSize producer pc).or (advanceDequeue producer pc)

/-- One producer and any number of consumers. -/
inductive Thread (Consumer : Type) where
  | producer
  | consumer (name : Consumer)
  deriving DecidableEq, Repr

/-- A bulk dequeue asks for at least one element. The public `try_dequeue_bulk` passes
0 on as well: such a call claims nothing, but it still looks up the block of the head
and calls `set_many_empty`, which assumes a positive count. When another consumer has
just emptied the block, the lookup can fail its assertion or find null, and the block
can be released twice. -/
def enter {Consumer : Type} : Thread Consumer → Pc T → Call T → Option (Pc T)
  | .producer, .idle, .enqueue request => some (.enqLoadTail request)
  | .consumer _, .idle, .dequeue .single => some (.deqLoadTail .single)
  | .consumer _, .idle, .dequeue (.bulk max) =>
      if max = 0 then none else some (.deqLoadTail (.bulk max))
  | _, _, _ => none

def program (Consumer T : Type) (maxSubqueueSize : UInt64) :
    Program (Thread Consumer) (ImplicitProducer T) (Pc T) (Call T) (Output T) where
  idle := .idle
  enter := enter
  advance := advance maxSubqueueSize

end ImplicitProducer

end DmLockFree.ConcurrentQueue
