import DmLockFree.CAtomicQueue.Basic

/-! Every way through `advance`, by name. -/

set_option autoImplicit false

namespace DmLockFree.CAtomicQueue

variable {T : Type}

inductive Advances (queue : CAtomicQueue T) : Pc T → CAtomicQueue T → Pc T → Output T → Prop
  | pushLoadTail (value : T) (pointer : Nat) :
      Advances queue (.pushLoadTail value pointer) queue
        (.pushLoadHead value pointer queue.tail (queue.next queue.tail)) ⟨.loadTail, none⟩
  | pushRefuses (value : T) (pointer : Nat) (currentTail nextTail : UInt64)
      (full : nextTail = queue.head) :
      Advances queue (.pushLoadHead value pointer currentTail nextTail) queue .idle
        ⟨.loadHead, some (.pushed value false)⟩
  | pushLoadHead (value : T) (pointer : Nat) (currentTail nextTail : UInt64)
      (room : nextTail ≠ queue.head) :
      Advances queue (.pushLoadHead value pointer currentTail nextTail) queue
        (.pushAllocate value pointer currentTail nextTail) ⟨.loadHead, none⟩
  | pushAllocate (value : T) (pointer : Nat) (currentTail nextTail : UInt64)
      (dead : queue.heap pointer = none) :
      Advances queue (.pushAllocate value pointer currentTail nextTail)
        (queue.setHeap pointer (some value)) (.pushStoreCell value pointer currentTail nextTail)
        ⟨.allocate pointer value, none⟩
  | pushStoreCell (value : T) (pointer : Nat) (currentTail nextTail : UInt64) (old : Option Nat)
      (inside : queue.cell currentTail = some old) :
      Advances queue (.pushStoreCell value pointer currentTail nextTail)
        (queue.setCell currentTail (some pointer)) (.pushStoreTail value nextTail)
        ⟨.storeCell currentTail pointer, none⟩
  | pushStoreTail (value : T) (nextTail : UInt64) :
      Advances queue (.pushStoreTail value nextTail) { queue with tail := nextTail }
        (.pushCountUp value) ⟨.storeTail, none⟩
  | pushCountUp (value : T) :
      Advances queue (.pushCountUp value) { queue with size := queue.size + 1 } .idle
        ⟨.countUp, some (.pushed value true)⟩
  | popLoadHead :
      Advances queue .popLoadHead queue (.popLoadTail queue.head) ⟨.loadHead, none⟩
  | popRefuses (currentHead : UInt64) (empty : currentHead = queue.tail) :
      Advances queue (.popLoadTail currentHead) queue .idle ⟨.loadTail, some (.popped false)⟩
  | popLoadTail (currentHead : UInt64) (present : currentHead ≠ queue.tail) :
      Advances queue (.popLoadTail currentHead) queue (.popExchange currentHead)
        ⟨.loadTail, none⟩
  | popNull (currentHead : UInt64) (found : queue.cell currentHead = some none) :
      Advances queue (.popExchange currentHead) (queue.setCell currentHead none) .idle
        ⟨.exchange currentHead none none, some (.popped false)⟩
  | popExchange (currentHead : UInt64) (pointer : Nat)
      (found : queue.cell currentHead = some (some pointer)) :
      Advances queue (.popExchange currentHead) (queue.setCell currentHead none)
        (.popStoreHead currentHead pointer)
        ⟨.exchange currentHead (some pointer) (queue.heap pointer), none⟩
  | popStoreHead (currentHead : UInt64) (pointer : Nat) :
      Advances queue (.popStoreHead currentHead pointer)
        { queue with head := queue.next currentHead } (.popDelete pointer) ⟨.storeHead, none⟩
  | popDelete (pointer : Nat) :
      Advances queue (.popDelete pointer) (queue.setHeap pointer none) .popCountDown
        ⟨.delete pointer (queue.heap pointer), none⟩
  | popCountDown :
      Advances queue .popCountDown { queue with size := queue.size - 1 } .idle
        ⟨.countDown, some (.popped true)⟩
  | frontLoadHead :
      Advances queue .frontLoadHead queue (.frontLoadTail queue.head) ⟨.loadHead, none⟩
  | frontNull (currentHead : UInt64) (empty : currentHead = queue.tail) :
      Advances queue (.frontLoadTail currentHead) queue .idle ⟨.loadTail, some (.front none)⟩
  | frontLoadTail (currentHead : UInt64) (present : currentHead ≠ queue.tail) :
      Advances queue (.frontLoadTail currentHead) queue (.frontLoadCell currentHead)
        ⟨.loadTail, none⟩
  | frontLoadCell (currentHead : UInt64) (pointer : Option Nat)
      (found : queue.cell currentHead = some pointer) :
      Advances queue (.frontLoadCell currentHead) queue .idle
        ⟨.loadCell currentHead pointer, some (.front pointer)⟩
  | emptyHead :
      Advances queue (.emptyFirst .headFirst) queue (.emptySecond .headFirst queue.head)
        ⟨.loadHead, none⟩
  | emptyTail :
      Advances queue (.emptyFirst .tailFirst) queue (.emptySecond .tailFirst queue.tail)
        ⟨.loadTail, none⟩
  | emptyTailSecond (first : UInt64) :
      Advances queue (.emptySecond .headFirst first) queue .idle
        ⟨.loadTail, some (.empty (first == queue.tail))⟩
  | emptyHeadSecond (first : UInt64) :
      Advances queue (.emptySecond .tailFirst first) queue .idle
        ⟨.loadHead, some (.empty (queue.head == first))⟩

theorem advances {queue after : CAtomicQueue T} {pc next : Pc T} {output : Output T}
    (taken : advance queue pc = some (after, next, output)) :
    Advances queue pc after next output := by
  cases pc with
  | idle => cases taken
  | pushLoadTail value pointer => cases taken; exact .pushLoadTail value pointer
  | pushLoadHead value pointer currentTail nextTail =>
      simp only [advance] at taken
      split at taken
      case isTrue full =>
          cases taken
          exact .pushRefuses value pointer currentTail nextTail full
      case isFalse room =>
          cases taken
          exact .pushLoadHead value pointer currentTail nextTail room
  | pushAllocate value pointer currentTail nextTail =>
      simp only [advance] at taken
      split at taken
      case h_1 => cases taken
      case h_2 dead =>
          cases taken
          exact .pushAllocate value pointer currentTail nextTail dead
  | pushStoreCell value pointer currentTail nextTail =>
      obtain ⟨old, inside, same⟩ := Option.map_eq_some_iff.mp taken
      cases same
      exact .pushStoreCell value pointer currentTail nextTail old inside
  | pushStoreTail value nextTail => cases taken; exact .pushStoreTail value nextTail
  | pushCountUp value => cases taken; exact .pushCountUp value
  | popLoadHead => cases taken; exact .popLoadHead
  | popLoadTail currentHead =>
      simp only [advance] at taken
      split at taken
      case isTrue empty => cases taken; exact .popRefuses currentHead empty
      case isFalse present => cases taken; exact .popLoadTail currentHead present
  | popExchange currentHead =>
      obtain ⟨found, inside, same⟩ := Option.map_eq_some_iff.mp taken
      cases found with
      | none => cases same; exact .popNull currentHead inside
      | some pointer => cases same; exact .popExchange currentHead pointer inside
  | popStoreHead currentHead pointer => cases taken; exact .popStoreHead currentHead pointer
  | popDelete pointer => cases taken; exact .popDelete pointer
  | popCountDown => cases taken; exact .popCountDown
  | frontLoadHead => cases taken; exact .frontLoadHead
  | frontLoadTail currentHead =>
      simp only [advance] at taken
      split at taken
      case isTrue empty => cases taken; exact .frontNull currentHead empty
      case isFalse present => cases taken; exact .frontLoadTail currentHead present
  | frontLoadCell currentHead =>
      obtain ⟨pointer, found, same⟩ := Option.map_eq_some_iff.mp taken
      cases same
      exact .frontLoadCell currentHead pointer found
  | emptyFirst order =>
      cases order with
      | headFirst => cases taken; exact .emptyHead
      | tailFirst => cases taken; exact .emptyTail
  | emptySecond order first =>
      cases order with
      | headFirst => cases taken; exact .emptyTailSecond first
      | tailFirst => cases taken; exact .emptyHeadSecond first

end DmLockFree.CAtomicQueue
