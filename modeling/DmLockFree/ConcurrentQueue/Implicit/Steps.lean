import DmLockFree.ConcurrentQueue.Implicit.Basic

/-! Every way through `advanceEnqueue` and `advanceDequeue`, by name. -/

set_option autoImplicit false

namespace DmLockFree.ConcurrentQueue

/-- The pointer at a position of a header, and the entry behind it. -/
def BlockIndex.Finds (index : BlockIndex) (header : BlockIndexHeader) (position : UInt64)
    (entry : Nat) (found : BlockIndexEntry) : Prop :=
  header.entry position = some entry ∧ index.entries[entry]? = some found

namespace ImplicitProducer

variable {T : Type}

/-- The entry behind the tail of the current ring. -/
structure Behind (producer : ImplicitProducer T) (pointer : Nat) (newTail : UInt64) (entry : Nat)
    (found : BlockIndexEntry) : Prop where
  current : producer.index.blockIndex = some pointer
  finds : ∃ header, producer.index.header pointer = some header ∧
    newTail = header.mask (producer.index.tails pointer + 1) ∧
    producer.index.Finds header newTail entry found

/-- The entry at a position of the ring of a header. -/
def Reads (producer : ImplicitProducer T) (pointer : Nat) (position : UInt64) (entry : Nat)
    (found : BlockIndexEntry) : Prop :=
  ∃ header, producer.index.header pointer = some header ∧
    producer.index.Finds header position entry found

inductive Enqueues (maxSubqueueSize : UInt64) (producer : ImplicitProducer T) :
    Pc T → ImplicitProducer T → Pc T → Output T → Prop
  | loadTailFirst (request : Enqueue T) (first : blockOffset producer.tailIndex = 0) :
      Enqueues maxSubqueueSize producer (.enqLoadTail request) producer
        (.enqLoadHead request producer.tailIndex) ⟨.loadTailIndex, none⟩
  | loadTail (request : Enqueue T) (inside : blockOffset producer.tailIndex ≠ 0) :
      Enqueues maxSubqueueSize producer (.enqLoadTail request) producer
        (.enqConstruct request producer.tailIndex) ⟨.loadTailIndex, none⟩
  | headAborts (request : Enqueue T) (currentTailIndex : UInt64)
      (behind : circularLessThan currentTailIndex producer.headIndex = true) :
      Enqueues maxSubqueueSize producer (.enqLoadHead request currentTailIndex) producer .aborted
        ⟨.loadHeadIndex, none⟩
  | full (request : Enqueue T) (currentTailIndex : UInt64)
      (noRoom : full maxSubqueueSize currentTailIndex producer.headIndex = true) :
      Enqueues maxSubqueueSize producer (.enqLoadHead request currentTailIndex) producer .idle
        ⟨.loadHeadIndex, request.failed⟩
  | loadHead (request : Enqueue T) (currentTailIndex : UInt64)
      (room : ImplicitProducer.full maxSubqueueSize currentTailIndex producer.headIndex = false) :
      Enqueues maxSubqueueSize producer (.enqLoadHead request currentTailIndex) producer
        (.enqLoadKey request currentTailIndex) ⟨.loadHeadIndex, none⟩
  | noIndex (request : Enqueue T) (currentTailIndex : UInt64)
      (null : producer.index.blockIndex = none) :
      Enqueues maxSubqueueSize producer (.enqLoadKey request currentTailIndex) producer .idle
        ⟨.loadBlockIndex, request.failed⟩
  | keyAborts (request : Enqueue T) (currentTailIndex : UInt64)
      (present : producer.index.blockIndex ≠ none)
      (missing : ∀ pointer newTail entry found,
        ¬ producer.Behind pointer newTail entry found) :
      Enqueues maxSubqueueSize producer (.enqLoadKey request currentTailIndex) producer .aborted
        ⟨.loadKey, none⟩
  | keyInvalid (request : Enqueue T) (currentTailIndex : UInt64) {pointer : Nat}
      {newTail : UInt64} {entry : Nat} {found : BlockIndexEntry}
      (behind : producer.Behind pointer newTail entry found)
      (invalid : found.key = INVALID_BLOCK_BASE) :
      Enqueues maxSubqueueSize producer (.enqLoadKey request currentTailIndex) producer
        (.enqStoreKey request currentTailIndex pointer newTail entry) ⟨.loadKey, none⟩
  | keyValid (request : Enqueue T) (currentTailIndex : UInt64) {pointer : Nat}
      {newTail : UInt64} {entry : Nat} {found : BlockIndexEntry}
      (behind : producer.Behind pointer newTail entry found)
      (valid : found.key ≠ INVALID_BLOCK_BASE) :
      Enqueues maxSubqueueSize producer (.enqLoadKey request currentTailIndex) producer
        (.enqLoadValue request currentTailIndex pointer newTail entry) ⟨.loadKey, none⟩
  | valueAborts (request : Enqueue T) (currentTailIndex : UInt64) (pointer : Nat)
      (newTail : UInt64) (entry : Nat) (missing : producer.index.entries[entry]? = none) :
      Enqueues maxSubqueueSize producer
        (.enqLoadValue request currentTailIndex pointer newTail entry) producer .aborted
        ⟨.loadValue, none⟩
  | valueNull (request : Enqueue T) (currentTailIndex : UInt64) (pointer : Nat)
      (newTail : UInt64) (entry : Nat) {found : BlockIndexEntry}
      (here : producer.index.entries[entry]? = some found) (null : found.value = none) :
      Enqueues maxSubqueueSize producer
        (.enqLoadValue request currentTailIndex pointer newTail entry) producer
        (.enqStoreKey request currentTailIndex pointer newTail entry) ⟨.loadValue, none⟩
  | valueUsed (request : Enqueue T) (currentTailIndex : UInt64) (pointer : Nat)
      (newTail : UInt64) (entry : Nat) {found : BlockIndexEntry} {block : Nat}
      (here : producer.index.entries[entry]? = some found) (used : found.value = some block) :
      Enqueues maxSubqueueSize producer
        (.enqLoadValue request currentTailIndex pointer newTail entry) producer
        (.enqNewIndex request currentTailIndex) ⟨.loadValue, none⟩
  | newIndexFails (request : Enqueue T) (currentTailIndex : UInt64)
      (refused : request.mode = .cannotAlloc ∨ request.indexFound = false) :
      Enqueues maxSubqueueSize producer (.enqNewIndex request currentTailIndex) producer .idle
        ⟨.newBlockIndex, request.failed⟩
  | newIndex (request : Enqueue T) (currentTailIndex : UInt64) (fits : indexFits producer.index) :
      Enqueues maxSubqueueSize producer (.enqNewIndex request currentTailIndex)
        (producer.setIndex producer.index.newBlockIndex) (.enqAssertKey request currentTailIndex)
        ⟨.newBlockIndex, none⟩
  | assertKeyAborts (request : Enqueue T) (currentTailIndex : UInt64)
      (wrong : ∀ pointer newTail entry found, producer.Behind pointer newTail entry found →
        found.key ≠ INVALID_BLOCK_BASE) :
      Enqueues maxSubqueueSize producer (.enqAssertKey request currentTailIndex) producer .aborted
        ⟨.loadKey, none⟩
  | assertKey (request : Enqueue T) (currentTailIndex : UInt64) {pointer : Nat}
      {newTail : UInt64} {entry : Nat} {found : BlockIndexEntry}
      (behind : producer.Behind pointer newTail entry found)
      (invalid : found.key = INVALID_BLOCK_BASE) :
      Enqueues maxSubqueueSize producer (.enqAssertKey request currentTailIndex) producer
        (.enqStoreKey request currentTailIndex pointer newTail entry) ⟨.loadKey, none⟩
  | storeKey (request : Enqueue T) (currentTailIndex : UInt64) (pointer : Nat)
      (newTail : UInt64) (entry : Nat) :
      Enqueues maxSubqueueSize producer
        (.enqStoreKey request currentTailIndex pointer newTail entry)
        (producer.setIndex (producer.index.setKey entry currentTailIndex))
        (.enqStoreIndexTail request currentTailIndex pointer newTail entry) ⟨.storeKey, none⟩
  | storeIndexTail (request : Enqueue T) (currentTailIndex : UInt64) (pointer : Nat)
      (newTail : UInt64) (entry : Nat) :
      Enqueues maxSubqueueSize producer
        (.enqStoreIndexTail request currentTailIndex pointer newTail entry)
        (producer.setIndex (producer.index.setTail pointer newTail))
        (.enqRequisition request currentTailIndex entry) ⟨.storeIndexTail, none⟩
  | requisitionFails (request : Enqueue T) (currentTailIndex : UInt64) (entry : Nat)
      (refused : request.block = none) :
      Enqueues maxSubqueueSize producer (.enqRequisition request currentTailIndex entry) producer
        (.enqRewind request entry) ⟨.requisition none, none⟩
  | requisition (request : Enqueue T) (currentTailIndex : UInt64) (entry : Nat) {block : Nat}
      (given : request.block = some block) (free : producer.requisitioned block = false) :
      Enqueues maxSubqueueSize producer (.enqRequisition request currentTailIndex entry)
        (producer.setRequisitioned block true)
        (.enqResetEmpty request currentTailIndex entry block) ⟨.requisition (some block), none⟩
  | rewindAborts (request : Enqueue T) (entry : Nat)
      (missing : ∀ pointer header, producer.index.blockIndex = some pointer →
        producer.index.header pointer ≠ some header) :
      Enqueues maxSubqueueSize producer (.enqRewind request entry) producer .aborted
        ⟨.storeIndexTail, none⟩
  | rewind (request : Enqueue T) (entry : Nat) {pointer : Nat} {header : BlockIndexHeader}
      (current : producer.index.blockIndex = some pointer)
      (here : producer.index.header pointer = some header) :
      Enqueues maxSubqueueSize producer (.enqRewind request entry)
        (producer.setIndex (producer.index.setTail pointer
          (header.mask (producer.index.tails pointer - 1))))
        (.enqClearValue request entry) ⟨.storeIndexTail, none⟩
  | clearValue (request : Enqueue T) (entry : Nat) :
      Enqueues maxSubqueueSize producer (.enqClearValue request entry)
        (producer.setIndex (producer.index.setValue entry none)) .idle
        ⟨.storeValue, request.failed⟩
  | resetEmpty (request : Enqueue T) (currentTailIndex : UInt64) (entry block : Nat) :
      Enqueues maxSubqueueSize producer (.enqResetEmpty request currentTailIndex entry block)
        (producer.setCompletelyDequeued block 0)
        (.enqStoreValue request currentTailIndex entry block) ⟨.resetEmpty block, none⟩
  | storeValue (request : Enqueue T) (currentTailIndex : UInt64) (entry block : Nat) :
      Enqueues maxSubqueueSize producer (.enqStoreValue request currentTailIndex entry block)
        { producer.setIndex (producer.index.setValue entry (some block)) with
          tailBlock := some block }
        (.enqConstruct request currentTailIndex) ⟨.storeValue, none⟩
  | constructAborts (request : Enqueue T) (currentTailIndex : UInt64)
      (occupied : ∀ block, producer.tailBlock = some block →
        (producer.blocks block).elements (blockOffset currentTailIndex).toNat ≠ none) :
      Enqueues maxSubqueueSize producer (.enqConstruct request currentTailIndex) producer .aborted
        ⟨.construct currentTailIndex request.value, none⟩
  | construct (request : Enqueue T) (currentTailIndex : UInt64) {block : Nat}
      (tailBlock : producer.tailBlock = some block)
      (vacant : (producer.blocks block).elements (blockOffset currentTailIndex).toNat = none) :
      Enqueues maxSubqueueSize producer (.enqConstruct request currentTailIndex)
        (producer.setElement block (blockOffset currentTailIndex).toNat (some request.value))
        (.enqStoreTail request currentTailIndex) ⟨.construct currentTailIndex request.value, none⟩
  | storeTail (request : Enqueue T) (currentTailIndex : UInt64) :
      Enqueues maxSubqueueSize producer (.enqStoreTail request currentTailIndex)
        { producer with tailIndex := 1 + currentTailIndex } .idle
        ⟨.storeTailIndex request.value, some (.enqueued request.value true)⟩

inductive Dequeues (producer : ImplicitProducer T) :
    Pc T → ImplicitProducer T → Pc T → Output T → Prop
  | loadTail (kind : Dequeue) :
      Dequeues producer (.deqLoadTail kind) producer
        (.deqLoadOvercommit kind producer.tailIndex) ⟨.loadTailIndex, none⟩
  | loadOvercommit (kind : Dequeue) (tail : UInt64) :
      Dequeues producer (.deqLoadOvercommit kind tail) producer
        (.deqLoadOptimistic kind tail producer.dequeueOvercommit) ⟨.loadOvercommit, none⟩
  | seemsEmpty (kind : Dequeue) (tail overcommit : UInt64)
      (nothing : kind.desired tail (producer.dequeueOptimisticCount - overcommit) = none) :
      Dequeues producer (.deqLoadOptimistic kind tail overcommit) producer .idle
        ⟨.loadOptimisticCount, some (.dequeued 0)⟩
  | loadOptimistic (kind : Dequeue) (tail overcommit : UInt64) {desiredCount : UInt64}
      (seems : kind.desired tail (producer.dequeueOptimisticCount - overcommit) =
        some desiredCount) :
      Dequeues producer (.deqLoadOptimistic kind tail overcommit) producer
        (.deqReserve kind overcommit desiredCount) ⟨.loadOptimisticCount, none⟩
  | reserve (kind : Dequeue) (overcommit desiredCount : UInt64) :
      Dequeues producer (.deqReserve kind overcommit desiredCount)
        { producer with dequeueOptimisticCount := producer.dequeueOptimisticCount + desiredCount }
        (.deqCheck kind overcommit desiredCount producer.dequeueOptimisticCount)
        ⟨.reserve desiredCount, none⟩
  | checkFails (kind : Dequeue) (overcommit desiredCount myDequeueCount : UInt64)
      (nothing : kind.actual producer.tailIndex (myDequeueCount - overcommit) desiredCount =
        none) :
      Dequeues producer (.deqCheck kind overcommit desiredCount myDequeueCount) producer
        (.deqGiveUp desiredCount) ⟨.loadTailIndex, none⟩
  | checkShort (kind : Dequeue) (overcommit desiredCount myDequeueCount : UInt64)
      {actualCount : UInt64}
      (seems : kind.actual producer.tailIndex (myDequeueCount - overcommit) desiredCount =
        some actualCount)
      (short : actualCount < desiredCount) :
      Dequeues producer (.deqCheck kind overcommit desiredCount myDequeueCount) producer
        (.deqGiveBack actualCount (desiredCount - actualCount)) ⟨.loadTailIndex, none⟩
  | check (kind : Dequeue) (overcommit desiredCount myDequeueCount : UInt64)
      {actualCount : UInt64}
      (seems : kind.actual producer.tailIndex (myDequeueCount - overcommit) desiredCount =
        some actualCount)
      (whole : ¬ actualCount < desiredCount) :
      Dequeues producer (.deqCheck kind overcommit desiredCount myDequeueCount) producer
        (.deqClaim actualCount) ⟨.loadTailIndex, none⟩
  | giveUp (desiredCount : UInt64) :
      Dequeues producer (.deqGiveUp desiredCount)
        { producer with dequeueOvercommit := producer.dequeueOvercommit + desiredCount } .idle
        ⟨.overcommit desiredCount, some (.dequeued 0)⟩
  | giveBack (actualCount surplus : UInt64) :
      Dequeues producer (.deqGiveBack actualCount surplus)
        { producer with dequeueOvercommit := producer.dequeueOvercommit + surplus }
        (.deqClaim actualCount) ⟨.overcommit surplus, none⟩
  | claim (actualCount : UInt64) :
      Dequeues producer (.deqClaim actualCount)
        { producer with headIndex := producer.headIndex + actualCount }
        (.findLoadIndex producer.headIndex (producer.headIndex + actualCount))
        ⟨.claim producer.headIndex actualCount, none⟩
  | indexAborts (first stop : UInt64) (null : producer.index.blockIndex = none) :
      Dequeues producer (.findLoadIndex first stop) producer .aborted ⟨.loadBlockIndex, none⟩
  | loadIndex (first stop : UInt64) {pointer : Nat}
      (current : producer.index.blockIndex = some pointer) :
      Dequeues producer (.findLoadIndex first stop) producer (.findLoadTail first stop pointer)
        ⟨.loadBlockIndex, none⟩
  | loadIndexTail (first stop : UInt64) (pointer : Nat) :
      Dequeues producer (.findLoadTail first stop pointer) producer
        (.findLoadKey first stop pointer (producer.index.tails pointer)) ⟨.loadIndexTail, none⟩
  | tailAborts (first stop : UInt64) (pointer : Nat) (tail : UInt64)
      (wrong : ∀ entry found, producer.Reads pointer tail entry found →
        found.key = INVALID_BLOCK_BASE) :
      Dequeues producer (.findLoadKey first stop pointer tail) producer .aborted ⟨.loadKey, none⟩
  | loadKey (first stop : UInt64) {pointer : Nat} {tail : UInt64} {header : BlockIndexHeader}
      {entry : Nat} {found : BlockIndexEntry}
      (here : producer.index.header pointer = some header)
      (finds : producer.index.Finds header tail entry found)
      (valid : found.key ≠ INVALID_BLOCK_BASE) :
      Dequeues producer (.findLoadKey first stop pointer tail) producer
        (.findAssertKey
          ⟨first, stop, pointer, header.locate tail found.key (blockBase first)⟩)
        ⟨.loadKey, none⟩
  | keyAborts (walk : Walk)
      (wrong : ∀ entry found, producer.Reads walk.pointer walk.position entry found →
        found.key ≠ blockBase walk.first) :
      Dequeues producer (.findAssertKey walk) producer .aborted ⟨.loadKey, none⟩
  | assertKey (walk : Walk) {entry : Nat} {found : BlockIndexEntry}
      (reads : producer.Reads walk.pointer walk.position entry found)
      (right : found.key = blockBase walk.first) :
      Dequeues producer (.findAssertKey walk) producer (.findAssertValue walk) ⟨.loadKey, none⟩
  | valueAborts (walk : Walk)
      (wrong : ∀ entry found, producer.Reads walk.pointer walk.position entry found →
        found.value = none) :
      Dequeues producer (.findAssertValue walk) producer .aborted ⟨.loadValue, none⟩
  | assertValue (walk : Walk) {entry block : Nat} {found : BlockIndexEntry}
      (reads : producer.Reads walk.pointer walk.position entry found)
      (value : found.value = some block) :
      Dequeues producer (.findAssertValue walk) producer (.deqLoadBlock walk walk.first)
        ⟨.loadValue, none⟩
  | blockAborts (walk : Walk) (index : UInt64)
      (wrong : ∀ entry found, producer.Reads walk.pointer walk.position entry found →
        found.value = none) :
      Dequeues producer (.deqLoadBlock walk index) producer .aborted ⟨.loadValue, none⟩
  | loadBlockEmpty (walk : Walk) (index : UInt64) {entry block : Nat} {found : BlockIndexEntry}
      (reads : producer.Reads walk.pointer walk.position entry found)
      (value : found.value = some block) (nothing : index = walk.endIndex index) :
      Dequeues producer (.deqLoadBlock walk index) producer
        (.deqSetEmpty walk index (walk.endIndex index) entry block) ⟨.loadValue, none⟩
  | loadBlock (walk : Walk) (index : UInt64) {entry block : Nat} {found : BlockIndexEntry}
      (reads : producer.Reads walk.pointer walk.position entry found)
      (value : found.value = some block) (more : index ≠ walk.endIndex index) :
      Dequeues producer (.deqLoadBlock walk index) producer
        (.deqMove walk index index (walk.endIndex index) entry block) ⟨.loadValue, none⟩
  | moveAborts (walk : Walk) (start index endIndex : UInt64) (entry block : Nat)
      (vacant : (producer.blocks block).elements (blockOffset index).toNat = none) :
      Dequeues producer (.deqMove walk start index endIndex entry block) producer .aborted
        ⟨.loadValue, none⟩
  | moveLast (walk : Walk) (start index : UInt64) (entry block : Nat) {value : T}
      (present : (producer.blocks block).elements (blockOffset index).toNat = some value) :
      Dequeues producer (.deqMove walk start index (index + 1) entry block)
        (producer.setElement block (blockOffset index).toNat none)
        (.deqSetEmpty walk start (index + 1) entry block) ⟨.move index value, none⟩
  | move (walk : Walk) (start index endIndex : UInt64) (entry block : Nat) {value : T}
      (present : (producer.blocks block).elements (blockOffset index).toNat = some value)
      (more : index + 1 ≠ endIndex) :
      Dequeues producer (.deqMove walk start index endIndex entry block)
        (producer.setElement block (blockOffset index).toNat none)
        (.deqMove walk start (index + 1) endIndex entry block) ⟨.move index value, none⟩
  | setEmptyAborts (walk : Walk) (start endIndex : UInt64) (entry block : Nat)
      (tooMany : BLOCK_SIZE <
        (producer.blocks block).elementsCompletelyDequeued + (endIndex - start)) :
      Dequeues producer (.deqSetEmpty walk start endIndex entry block)
        (producer.setCompletelyDequeued block
          ((producer.blocks block).elementsCompletelyDequeued + (endIndex - start)))
        .aborted ⟨.setEmpty block (endIndex - start), none⟩
  | setEmptyLast (walk : Walk) (start endIndex : UInt64) (entry block : Nat)
      (all : (producer.blocks block).elementsCompletelyDequeued + (endIndex - start) =
        BLOCK_SIZE) :
      Dequeues producer (.deqSetEmpty walk start endIndex entry block)
        (producer.setCompletelyDequeued block
          ((producer.blocks block).elementsCompletelyDequeued + (endIndex - start)))
        (.deqClearValue walk endIndex entry block) ⟨.setEmpty block (endIndex - start), none⟩
  | setEmptyNoHeader (walk : Walk) (start endIndex : UInt64) (entry block : Nat)
      (missing : producer.index.header walk.pointer = none) :
      Dequeues producer (.deqSetEmpty walk start endIndex entry block)
        (producer.setCompletelyDequeued block
          ((producer.blocks block).elementsCompletelyDequeued + (endIndex - start)))
        .aborted ⟨.setEmpty block (endIndex - start), none⟩
  | setEmpty (walk : Walk) (start endIndex : UInt64) (entry block : Nat)
      {header : BlockIndexHeader} (here : producer.index.header walk.pointer = some header)
      (fits : (producer.blocks block).elementsCompletelyDequeued + (endIndex - start) ≤
        BLOCK_SIZE)
      (notAll : (producer.blocks block).elementsCompletelyDequeued + (endIndex - start) ≠
        BLOCK_SIZE) :
      Dequeues producer (.deqSetEmpty walk start endIndex entry block)
        (producer.setCompletelyDequeued block
          ((producer.blocks block).elementsCompletelyDequeued + (endIndex - start)))
        (walk.next header endIndex).1
        ⟨.setEmpty block (endIndex - start), (walk.next header endIndex : Pc T × _).2⟩
  | clearValue (walk : Walk) (endIndex : UInt64) (entry block : Nat) :
      Dequeues producer (.deqClearValue walk endIndex entry block)
        (producer.setIndex (producer.index.setValue entry none))
        (.deqRelease walk endIndex block) ⟨.storeValue, none⟩
  | releaseAborts (walk : Walk) (endIndex : UInt64) (block : Nat)
      (missing : producer.index.header walk.pointer = none) :
      Dequeues producer (.deqRelease walk endIndex block) producer .aborted
        ⟨.release block, none⟩
  | release (walk : Walk) (endIndex : UInt64) (block : Nat) {header : BlockIndexHeader}
      (here : producer.index.header walk.pointer = some header) :
      Dequeues producer (.deqRelease walk endIndex block)
        (producer.setRequisitioned block false) (walk.next header endIndex).1
        ⟨.release block, (walk.next header endIndex : Pc T × _).2⟩

theorem enqueues {maxSubqueueSize : UInt64} {producer after : ImplicitProducer T} {pc next : Pc T}
    {output : Output T}
    (taken : advanceEnqueue maxSubqueueSize producer pc = some (after, next, output)) :
    Enqueues maxSubqueueSize producer pc after next output := by
  cases pc with
  | enqLoadTail request =>
      simp only [advanceEnqueue] at taken
      split at taken
      case isTrue first => cases taken; exact .loadTailFirst request first
      case isFalse inside => cases taken; exact .loadTail request inside
  | enqLoadHead request currentTailIndex =>
      simp only [advanceEnqueue] at taken
      split at taken
      case isTrue behind => cases taken; exact .headAborts request currentTailIndex behind
      case isFalse _ =>
          split at taken
          case isTrue noRoom => cases taken; exact .full request currentTailIndex noRoom
          case isFalse room =>
              cases taken
              exact .loadHead request currentTailIndex (Bool.eq_false_iff.mpr room)
  | enqLoadKey request currentTailIndex =>
      simp only [advanceEnqueue] at taken
      split at taken
      case h_1 null => cases taken; exact .noIndex request currentTailIndex null
      case h_2 pointer current =>
          have present : producer.index.blockIndex ≠ none := by simp [current]
          split at taken
          case h_1 missing =>
              cases taken
              refine .keyAborts request currentTailIndex present ?_
              rintro _ _ _ _ ⟨again, header, here, _⟩
              cases current.symm.trans again
              cases missing.symm.trans here
          case h_2 header here =>
              split at taken
              case h_1 missing =>
                  cases taken
                  refine .keyAborts request currentTailIndex present ?_
                  rintro _ _ _ _ ⟨again, _, same, rfl, found, _⟩
                  cases current.symm.trans again
                  cases here.symm.trans same
                  cases missing.symm.trans found
              case h_2 entry position =>
                  split at taken
                  case h_1 missing =>
                      cases taken
                      refine .keyAborts request currentTailIndex present ?_
                      rintro _ _ _ _ ⟨again, _, same, rfl, found, value⟩
                      cases current.symm.trans again
                      cases here.symm.trans same
                      cases position.symm.trans found
                      cases missing.symm.trans value
                  case h_2 old value =>
                      have behind : producer.Behind pointer
                          (header.mask (producer.index.tails pointer + 1)) entry old :=
                        ⟨current, header, here, rfl, position, value⟩
                      split at taken
                      case isTrue invalid =>
                          cases taken
                          exact .keyInvalid request currentTailIndex behind invalid
                      case isFalse valid =>
                          cases taken
                          exact .keyValid request currentTailIndex behind valid
  | enqLoadValue request currentTailIndex pointer newTail entry =>
      simp only [advanceEnqueue] at taken
      split at taken
      case h_1 missing =>
          cases taken
          exact .valueAborts request currentTailIndex pointer newTail entry missing
      case h_2 found here =>
          split at taken
          case h_1 null =>
              cases taken
              exact .valueNull request currentTailIndex pointer newTail entry here null
          case h_2 block used =>
              cases taken
              exact .valueUsed request currentTailIndex pointer newTail entry here used
  | enqNewIndex request currentTailIndex =>
      simp only [advanceEnqueue] at taken
      split at taken
      case isTrue refused => cases taken; exact .newIndexFails request currentTailIndex refused
      case isFalse _ =>
          split at taken
          case isTrue fits => cases taken; exact .newIndex request currentTailIndex fits
          case isFalse _ => cases taken
  | enqAssertKey request currentTailIndex =>
      simp only [advanceEnqueue] at taken
      split at taken
      case h_1 null =>
          cases taken
          refine .assertKeyAborts request currentTailIndex ?_
          rintro _ _ _ _ ⟨again, _⟩
          cases null.symm.trans again
      case h_2 pointer current =>
          split at taken
          case h_1 missing =>
              cases taken
              refine .assertKeyAborts request currentTailIndex ?_
              rintro _ _ _ _ ⟨again, header, here, _⟩
              cases current.symm.trans again
              cases missing.symm.trans here
          case h_2 header here =>
              split at taken
              case h_1 missing =>
                  cases taken
                  refine .assertKeyAborts request currentTailIndex ?_
                  rintro _ _ _ _ ⟨again, _, same, rfl, found, _⟩
                  cases current.symm.trans again
                  cases here.symm.trans same
                  cases missing.symm.trans found
              case h_2 entry position =>
                  split at taken
                  case h_1 missing =>
                      cases taken
                      refine .assertKeyAborts request currentTailIndex ?_
                      rintro _ _ _ _ ⟨again, _, same, rfl, found, value⟩
                      cases current.symm.trans again
                      cases here.symm.trans same
                      cases position.symm.trans found
                      cases missing.symm.trans value
                  case h_2 old value =>
                      split at taken
                      case isTrue invalid =>
                          cases taken
                          exact .assertKey request currentTailIndex
                            ⟨current, header, here, rfl, position, value⟩ invalid
                      case isFalse valid =>
                          cases taken
                          refine .assertKeyAborts request currentTailIndex ?_
                          rintro _ _ _ _ ⟨again, _, same, rfl, found, other⟩
                          cases current.symm.trans again
                          cases here.symm.trans same
                          cases position.symm.trans found
                          cases value.symm.trans other
                          exact valid
  | enqStoreKey request currentTailIndex pointer newTail entry =>
      cases taken
      exact .storeKey request currentTailIndex pointer newTail entry
  | enqStoreIndexTail request currentTailIndex pointer newTail entry =>
      cases taken
      exact .storeIndexTail request currentTailIndex pointer newTail entry
  | enqRequisition request currentTailIndex entry =>
      simp only [advanceEnqueue] at taken
      split at taken
      case h_1 refused =>
          cases taken
          exact .requisitionFails request currentTailIndex entry refused
      case h_2 block given =>
          split at taken
          case isTrue _ => cases taken
          case isFalse free =>
              cases taken
              exact .requisition request currentTailIndex entry given (Bool.eq_false_iff.mpr free)
  | enqRewind request entry =>
      simp only [advanceEnqueue] at taken
      split at taken
      case h_1 null =>
          cases taken
          refine .rewindAborts request entry fun pointer header again => ?_
          cases null.symm.trans again
      case h_2 pointer current =>
          split at taken
          case h_1 missing =>
              cases taken
              refine .rewindAborts request entry fun other header again here => ?_
              cases current.symm.trans again
              cases missing.symm.trans here
          case h_2 header here =>
              cases taken
              exact .rewind request entry current here
  | enqClearValue request entry => cases taken; exact .clearValue request entry
  | enqResetEmpty request currentTailIndex entry block =>
      cases taken
      exact .resetEmpty request currentTailIndex entry block
  | enqStoreValue request currentTailIndex entry block =>
      cases taken
      exact .storeValue request currentTailIndex entry block
  | enqConstruct request currentTailIndex =>
      simp only [advanceEnqueue] at taken
      split at taken
      case h_1 null =>
          cases taken
          refine .constructAborts request currentTailIndex fun block again => ?_
          cases null.symm.trans again
      case h_2 block tailBlock =>
          split at taken
          case h_1 value occupied =>
              cases taken
              refine .constructAborts request currentTailIndex fun other again => ?_
              cases tailBlock.symm.trans again
              simp [occupied]
          case h_2 vacant =>
              cases taken
              exact .construct request currentTailIndex tailBlock vacant
  | enqStoreTail request currentTailIndex => cases taken; exact .storeTail request currentTailIndex
  | _ => cases taken

theorem reads_none {producer : ImplicitProducer T} {pointer : Nat} {position : UInt64}
    (missing : ((producer.index.header pointer).bind fun header =>
      (header.entry position).bind fun entry => producer.index.entries[entry]?) = none)
    (entry : Nat) (found : BlockIndexEntry) : ¬ producer.Reads pointer position entry found := by
  rintro ⟨header, here, position, value⟩
  simp [here, position, value] at missing

theorem reads_some {producer : ImplicitProducer T} {pointer : Nat} {position : UInt64}
    {found : BlockIndexEntry}
    (present : ((producer.index.header pointer).bind fun header =>
      (header.entry position).bind fun entry => producer.index.entries[entry]?) = some found) :
    ∃ entry, producer.Reads pointer position entry found := by
  obtain ⟨header, here, rest⟩ := Option.bind_eq_some_iff.mp present
  obtain ⟨entry, position, value⟩ := Option.bind_eq_some_iff.mp rest
  exact ⟨entry, header, here, position, value⟩

theorem dequeues {producer after : ImplicitProducer T} {pc next : Pc T} {output : Output T}
    (taken : advanceDequeue producer pc = some (after, next, output)) :
    Dequeues producer pc after next output := by
  cases pc with
  | deqLoadTail kind => cases taken; exact .loadTail kind
  | deqLoadOvercommit kind tail => cases taken; exact .loadOvercommit kind tail
  | deqLoadOptimistic kind tail overcommit =>
      simp only [advanceDequeue] at taken
      split at taken
      case h_1 nothing => cases taken; exact .seemsEmpty kind tail overcommit nothing
      case h_2 desiredCount seems => cases taken; exact .loadOptimistic kind tail overcommit seems
  | deqReserve kind overcommit desiredCount =>
      cases taken
      exact .reserve kind overcommit desiredCount
  | deqCheck kind overcommit desiredCount myDequeueCount =>
      simp only [advanceDequeue] at taken
      split at taken
      case h_1 nothing =>
          cases taken
          exact .checkFails kind overcommit desiredCount myDequeueCount nothing
      case h_2 actualCount seems =>
          split at taken
          case isTrue short =>
              cases taken
              exact .checkShort kind overcommit desiredCount myDequeueCount seems short
          case isFalse whole =>
              cases taken
              exact .check kind overcommit desiredCount myDequeueCount seems whole
  | deqGiveUp desiredCount => cases taken; exact .giveUp desiredCount
  | deqGiveBack actualCount surplus => cases taken; exact .giveBack actualCount surplus
  | deqClaim actualCount => cases taken; exact .claim actualCount
  | findLoadIndex first stop =>
      simp only [advanceDequeue] at taken
      split at taken
      case h_1 null => cases taken; exact .indexAborts first stop null
      case h_2 pointer current => cases taken; exact .loadIndex first stop current
  | findLoadTail first stop pointer => cases taken; exact .loadIndexTail first stop pointer
  | findLoadKey first stop pointer tail =>
      simp only [advanceDequeue] at taken
      split at taken
      case h_1 missing =>
          cases taken
          refine .tailAborts first stop pointer tail ?_
          rintro entry found ⟨header, here, position, value⟩
          simp [here, position, value] at missing
      case h_2 header tailBase present =>
          obtain ⟨again, here, rest⟩ := Option.bind_eq_some_iff.mp present
          obtain ⟨entry, position, rest⟩ := Option.bind_eq_some_iff.mp rest
          obtain ⟨found, value, same⟩ := Option.map_eq_some_iff.mp rest
          cases same
          split at taken
          case isTrue invalid =>
              cases taken
              refine .tailAborts first stop pointer tail ?_
              rintro other behind ⟨_, same, elsewhere, entryValue⟩
              cases here.symm.trans same
              cases position.symm.trans elsewhere
              cases value.symm.trans entryValue
              exact invalid
          case isFalse valid =>
              cases taken
              exact .loadKey first stop here ⟨position, value⟩ valid
  | findAssertKey walk =>
      simp only [advanceDequeue] at taken
      split at taken
      case h_1 missing =>
          cases taken
          exact .keyAborts walk fun entry found reads =>
            absurd reads (reads_none missing entry found)
      case h_2 found present =>
          obtain ⟨entry, reads⟩ := reads_some present
          split at taken
          case isTrue right => cases taken; exact .assertKey walk reads right
          case isFalse wrong =>
              cases taken
              refine .keyAborts walk ?_
              rintro other behind ⟨_, here, position, value⟩
              simp [here, position, value] at present
              rwa [present]
  | findAssertValue walk =>
      simp only [advanceDequeue] at taken
      split at taken
      case h_1 missing =>
          cases taken
          refine .valueAborts walk ?_
          rintro entry found ⟨header, here, position, value⟩
          simpa [here, position, value] using missing
      case h_2 block present =>
          obtain ⟨header, here, rest⟩ := Option.bind_eq_some_iff.mp present
          obtain ⟨entry, position, rest⟩ := Option.bind_eq_some_iff.mp rest
          obtain ⟨found, value, used⟩ := Option.bind_eq_some_iff.mp rest
          cases taken
          exact .assertValue walk ⟨header, here, position, value⟩ used
  | deqLoadBlock walk index =>
      simp only [advanceDequeue] at taken
      split at taken
      case h_1 missing =>
          cases taken
          refine .blockAborts walk index ?_
          rintro entry found ⟨header, here, position, value⟩
          simpa [here, position, value] using missing
      case h_2 entry block present =>
          obtain ⟨header, here, rest⟩ := Option.bind_eq_some_iff.mp present
          obtain ⟨_, position, rest⟩ := Option.bind_eq_some_iff.mp rest
          obtain ⟨_, rest, same⟩ := Option.map_eq_some_iff.mp rest
          cases same
          obtain ⟨found, value, used⟩ := Option.bind_eq_some_iff.mp rest
          have reads : producer.Reads walk.pointer walk.position entry found :=
            ⟨header, here, position, value⟩
          split at taken
          case isTrue nothing => cases taken; exact .loadBlockEmpty walk index reads used nothing
          case isFalse more => cases taken; exact .loadBlock walk index reads used more
  | deqMove walk start index endIndex entry block =>
      simp only [advanceDequeue] at taken
      split at taken
      case h_1 vacant => cases taken; exact .moveAborts walk start index endIndex entry block vacant
      case h_2 value present =>
          split at taken
          case isTrue last =>
              subst last
              cases taken
              exact .moveLast walk start index entry block present
          case isFalse more =>
              cases taken
              exact .move walk start index endIndex entry block present more
  | deqSetEmpty walk start endIndex entry block =>
      simp only [advanceDequeue] at taken
      split at taken
      case isTrue tooMany =>
          cases taken
          exact .setEmptyAborts walk start endIndex entry block tooMany
      case isFalse few =>
          split at taken
          case isTrue all => cases taken; exact .setEmptyLast walk start endIndex entry block all
          case isFalse notAll =>
              split at taken
              case h_1 missing =>
                  cases taken
                  exact .setEmptyNoHeader walk start endIndex entry block missing
              case h_2 header here =>
                  cases taken
                  exact .setEmpty walk start endIndex entry block here (UInt64.not_lt.mp few)
                    notAll
  | deqClearValue walk endIndex entry block =>
      cases taken
      exact .clearValue walk endIndex entry block
  | deqRelease walk endIndex block =>
      simp only [advanceDequeue] at taken
      split at taken
      case h_1 missing => cases taken; exact .releaseAborts walk endIndex block missing
      case h_2 header here => cases taken; exact .release walk endIndex block here
  | _ => cases taken

theorem advances {maxSubqueueSize : UInt64} {producer after : ImplicitProducer T} {pc next : Pc T}
    {output : Output T} (taken : advance maxSubqueueSize producer pc = some (after, next, output)) :
    Enqueues maxSubqueueSize producer pc after next output ∨
      Dequeues producer pc after next output :=
  (Option.or_eq_some_iff.mp taken).imp enqueues fun both => dequeues both.2

/-- Which function a thread runs. -/
inductive Side where
  | enqueuing
  | dequeuing
  deriving DecidableEq, Repr

def Pc.side : Pc T → Option Side
  | .idle | .aborted => none
  | .enqLoadTail _ | .enqLoadHead .. | .enqLoadKey .. | .enqLoadValue .. | .enqNewIndex ..
  | .enqAssertKey .. | .enqStoreKey .. | .enqStoreIndexTail .. | .enqRequisition ..
  | .enqRewind .. | .enqClearValue .. | .enqResetEmpty .. | .enqStoreValue ..
  | .enqConstruct .. | .enqStoreTail .. => some .enqueuing
  | _ => some .dequeuing

def Thread.side {Consumer : Type} : Thread Consumer → Side
  | .producer => .enqueuing
  | .consumer _ => .dequeuing

theorem Walk.next_side (walk : Walk) (header : BlockIndexHeader) (endIndex : UInt64) :
    ∀ side, (walk.next header endIndex : Pc T × _).1.side = some side → side = .dequeuing := by
  intro side same
  unfold Walk.next at same
  split at same
  · cases same
  · exact (Option.some.inj same).symm

theorem Enqueues.side {maxSubqueueSize : UInt64} {producer after : ImplicitProducer T}
    {pc next : Pc T} {output : Output T}
    (taken : Enqueues maxSubqueueSize producer pc after next output) :
    pc.side = some .enqueuing ∧ ∀ side, next.side = some side → side = .enqueuing := by
  cases taken <;> exact ⟨rfl, fun _ same => by cases same <;> rfl⟩

theorem Dequeues.side {producer after : ImplicitProducer T} {pc next : Pc T} {output : Output T}
    (taken : Dequeues producer pc after next output) :
    pc.side = some .dequeuing ∧ ∀ side, next.side = some side → side = .dequeuing := by
  cases taken with
  | setEmpty walk start endIndex entry block here fits notAll =>
      exact ⟨rfl, walk.next_side _ endIndex⟩
  | release walk endIndex block here => exact ⟨rfl, walk.next_side _ endIndex⟩
  | _ => exact ⟨rfl, fun _ same => by cases same <;> rfl⟩

section Turn

open Library Program

variable {Consumer : Type} {maxSubqueueSize : UInt64} {start : ImplicitProducer T}
  [DecidableEq Consumer] {events : List (Threads.Event (Thread Consumer) (Call T) (Output T))}
  {state : Threads (Thread Consumer) (ImplicitProducer T) (Pc T)} {thread : Thread Consumer}

omit [DecidableEq Consumer] in
theorem enter_side {pc next : Pc T} {request : Call T}
    (entered : enter thread pc request = some next) : next.side = some thread.side := by
  unfold enter at entered
  split at entered
  · cases entered; rfl
  · cases entered; rfl
  · split at entered
    · cases entered
    · cases entered; rfl
  · cases entered

/-- A thread is inside the functions of its side only. -/
theorem run_side (run : ((program Consumer T maxSubqueueSize).machine start).Run events state)
    (thread : Thread Consumer) :
    ∀ side, (state.pc thread).side = some side → side = thread.side := by
  obtain ⟨_, _, sides⟩ := run_invariant (fun _ ghost _ => ghost = ())
    (fun (thread : Thread Consumer) _ _ _ (pc : Pc T) =>
      ∀ side, pc.side = some side → side = thread.side) rfl
    (fun _ _ same => by cases same)
    (fun _ _ _ entered => ⟨(), rfl, fun _ same =>
      Option.some.inj (same.symm.trans (enter_side entered)), fun _ _ _ facts => facts⟩)
    (fun _ _ mine taken => ⟨(), rfl, fun side same => by
      rcases advances taken with enqueues | dequeues
      · rw [enqueues.side.2 side same]
        exact mine _ enqueues.side.1
      · rw [dequeues.side.2 side same]
        exact mine _ dequeues.side.1, fun _ _ _ facts => facts⟩) run
  exact sides thread

/-- The steps of the producer and those of a consumer. -/
theorem run_turn (run : ((program Consumer T maxSubqueueSize).machine start).Run events state)
    {after : ImplicitProducer T} {next : Pc T} {output : Output T}
    (taken : advance maxSubqueueSize state.shared (state.pc thread) =
      some (after, next, output)) :
    (thread = .producer ∧
        Enqueues maxSubqueueSize state.shared (state.pc thread) after next output) ∨
      ∃ consumer, thread = .consumer consumer ∧
        Dequeues state.shared (state.pc thread) after next output := by
  rcases advances taken with enqueues | dequeues
  · have mine := run_side run thread _ enqueues.side.1
    cases thread with
    | producer => exact .inl ⟨rfl, enqueues⟩
    | consumer name => cases mine
  · have mine := run_side run thread _ dequeues.side.1
    cases thread with
    | producer => cases mine
    | consumer name => exact .inr ⟨name, rfl, dequeues⟩

end Turn

end ImplicitProducer

end DmLockFree.ConcurrentQueue
