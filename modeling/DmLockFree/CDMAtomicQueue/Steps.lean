import DmLockFree.CDMAtomicQueue.Basic

/-! Every way through `advance`, by name. -/

set_option autoImplicit false

namespace DmLockFree.CDMAtomicQueue

variable {T : Type}

inductive Advances (queue : CDMAtomicQueue T) :
    Pc T → CDMAtomicQueue T → Pc T → Output T → Prop
  | emplaceLoadHead (kind : Emplace) (outcome : Option T) :
      Advances queue (.emplaceLoadHead kind outcome) queue
        (.emplaceLoadTail kind outcome queue.head (queue.next queue.head)) ⟨.loadHead, none⟩
  | emplaceSpins (outcome : Option T) (head nextHead : UInt64) (full : nextHead = queue.tail) :
      Advances queue (.emplaceLoadTail .emplace outcome head nextHead) queue
        (.emplaceLoadTail .emplace outcome head nextHead) ⟨.loadTail, none⟩
  | emplaceRefuses (outcome : Option T) (head nextHead : UInt64) (full : nextHead = queue.tail) :
      Advances queue (.emplaceLoadTail .tryEmplace outcome head nextHead) queue (.idle false)
        ⟨.loadTail, some .full⟩
  | emplaceLoadTail (kind : Emplace) (outcome : Option T) (head nextHead : UInt64)
      (room : nextHead ≠ queue.tail) :
      Advances queue (.emplaceLoadTail kind outcome head nextHead) queue
        (.emplaceConstruct outcome head nextHead) ⟨.loadTail, none⟩
  | emplaceThrows (head nextHead : UInt64) :
      Advances queue (.emplaceConstruct none head nextHead) queue (.idle false)
        ⟨.construct (queue.slot head) none, some .threw⟩
  | emplaceConstruct (value : T) (head nextHead : UInt64) :
      Advances queue (.emplaceConstruct (some value) head nextHead)
        (queue.setSlot head (some value)) (.emplaceStoreHead value nextHead)
        ⟨.construct (queue.slot head) (some value), none⟩
  | emplaceStoreHead (value : T) (nextHead : UInt64) :
      Advances queue (.emplaceStoreHead value nextHead) { queue with head := nextHead }
        (.idle false) ⟨.storeHead, some (.emplaced value)⟩
  | frontLoadTail (ready : Bool) :
      Advances queue (.frontLoadTail ready) queue (.frontLoadHead ready queue.tail)
        ⟨.loadTail, none⟩
  | frontNull (ready : Bool) (tail : UInt64) (empty : queue.head = tail) :
      Advances queue (.frontLoadHead ready tail) queue (.idle ready)
        ⟨.loadHead, some (.front none)⟩
  | frontLoadHead (ready : Bool) (tail : UInt64) (present : queue.head ≠ tail) :
      Advances queue (.frontLoadHead ready tail) queue (.idle true)
        ⟨.loadHead, some (.front (some (queue.slot tail)))⟩
  | popLoadTail :
      Advances queue .popLoadTail queue (.popAssert queue.tail) ⟨.loadTail, none⟩
  | popAssert (tail : UInt64) (present : queue.head ≠ tail) :
      Advances queue (.popAssert tail) queue (.popDestroy tail) ⟨.loadHead, none⟩
  | popDestroy (tail : UInt64) :
      Advances queue (.popDestroy tail) (queue.setSlot tail none)
        (.popStoreTail (queue.next tail))
        ⟨.destroy (queue.slot tail) (queue.slots (queue.slot tail)), none⟩
  | popStoreTail (nextTail : UInt64) :
      Advances queue (.popStoreTail nextTail) { queue with tail := nextTail } (.idle false)
        ⟨.storeTail, some .popped⟩
  | observeHead (observer : Observer) (ready : Bool) :
      Advances queue (.observeFirst observer .headFirst ready) queue
        (.observeSecond observer .headFirst ready queue.head) ⟨.loadHead, none⟩
  | observeTail (observer : Observer) (ready : Bool) :
      Advances queue (.observeFirst observer .tailFirst ready) queue
        (.observeSecond observer .tailFirst ready queue.tail) ⟨.loadTail, none⟩
  | observeTailSecond (observer : Observer) (ready : Bool) (first : UInt64) :
      Advances queue (.observeSecond observer .headFirst ready first) queue
        (queue.observed ready first queue.tail observer).1
        ⟨.loadTail, some (queue.observed ready first queue.tail observer).2⟩
  | observeHeadSecond (observer : Observer) (ready : Bool) (first : UInt64) :
      Advances queue (.observeSecond observer .tailFirst ready first) queue
        (queue.observed ready queue.head first observer).1
        ⟨.loadHead, some (queue.observed ready queue.head first observer).2⟩

theorem advances {queue after : CDMAtomicQueue T} {pc next : Pc T} {output : Output T}
    (taken : advance queue pc = some (after, next, output)) :
    Advances queue pc after next output := by
  cases pc with
  | idle => cases taken
  | emplaceLoadHead kind outcome => cases taken; exact .emplaceLoadHead kind outcome
  | emplaceLoadTail kind outcome head nextHead =>
      simp only [advance] at taken
      split at taken
      case isTrue full =>
          cases kind with
          | emplace => cases taken; exact .emplaceSpins outcome head nextHead full
          | tryEmplace => cases taken; exact .emplaceRefuses outcome head nextHead full
      case isFalse room =>
          cases taken
          exact .emplaceLoadTail kind outcome head nextHead room
  | emplaceConstruct outcome head nextHead =>
      cases outcome with
      | none => cases taken; exact .emplaceThrows head nextHead
      | some value => cases taken; exact .emplaceConstruct value head nextHead
  | emplaceStoreHead value nextHead => cases taken; exact .emplaceStoreHead value nextHead
  | frontLoadTail ready => cases taken; exact .frontLoadTail ready
  | frontLoadHead ready tail =>
      simp only [advance] at taken
      split at taken
      case isTrue empty => cases taken; exact .frontNull ready tail empty
      case isFalse present => cases taken; exact .frontLoadHead ready tail present
  | popLoadTail => cases taken; exact .popLoadTail
  | popAssert tail =>
      simp only [advance] at taken
      split at taken
      case isTrue present => cases taken; exact .popAssert tail present
      case isFalse => cases taken
  | popDestroy tail => cases taken; exact .popDestroy tail
  | popStoreTail nextTail => cases taken; exact .popStoreTail nextTail
  | observeFirst observer order ready =>
      cases order with
      | headFirst => cases taken; exact .observeHead observer ready
      | tailFirst => cases taken; exact .observeTail observer ready
  | observeSecond observer order ready first =>
      cases order with
      | headFirst => cases taken; exact .observeTailSecond observer ready first
      | tailFirst => cases taken; exact .observeHeadSecond observer ready first

end DmLockFree.CDMAtomicQueue
