import DmLockFree.ConcurrentQueue.FreeList.Basic

/-! Every way through `advance`, by name. -/

set_option autoImplicit false

namespace DmLockFree.ConcurrentQueue.FreeList

variable {Node : Type} [DecidableEq Node]

inductive Advances (list : FreeList Node) :
    Pc Node → FreeList Node → Pc Node → Output Node → Prop
  | addLinks (node : Node) (last : list.freeListRefs node = 0) :
      Advances list (.addRefs node)
        (list.setRefs node (list.freeListRefs node + SHOULD_BE_ON_FREELIST))
        (.knowingLoadHead node .adding) ⟨.addRefs node SHOULD_BE_ON_FREELIST, none⟩
  | addLeaves (node : Node) (used : list.freeListRefs node ≠ 0) :
      Advances list (.addRefs node)
        (list.setRefs node (list.freeListRefs node + SHOULD_BE_ON_FREELIST)) .idle
        ⟨.addRefs node SHOULD_BE_ON_FREELIST, some .added⟩
  | knowingLoadHead (node : Node) (resume : Resume Node) :
      Advances list (.knowingLoadHead node resume) list
        (.knowingStoreNext node list.freeListHead resume) ⟨.loadHead list.freeListHead, none⟩
  | knowingStoreNext (node : Node) (head : Option Node) (resume : Resume Node) :
      Advances list (.knowingStoreNext node head resume) (list.setNext node head)
        (.knowingStoreRefs node head resume) ⟨.storeNext node, none⟩
  | knowingStoreRefs (node : Node) (head : Option Node) (resume : Resume Node) :
      Advances list (.knowingStoreRefs node head resume) (list.setRefs node 1)
        (.knowingExchange node head resume) ⟨.storeRefs node, none⟩
  | knowingLinks (node : Node) (resume : Resume Node) :
      Advances list (.knowingExchange node list.freeListHead resume) (list.setHead (some node))
        resume.continue.1 ⟨.exchangeHead list.freeListHead true, resume.continue.2⟩
  | knowingMisses (node : Node) (head : Option Node) (resume : Resume Node)
      (changed : list.freeListHead ≠ head) :
      Advances list (.knowingExchange node head resume) list
        (.knowingGiveBack node list.freeListHead resume)
        ⟨.exchangeHead list.freeListHead false, none⟩
  | knowingRetries (node : Node) (head : Option Node) (resume : Resume Node)
      (last : list.freeListRefs node = 1) :
      Advances list (.knowingGiveBack node head resume)
        (list.setRefs node (list.freeListRefs node + (SHOULD_BE_ON_FREELIST - 1)))
        (.knowingStoreNext node head resume) ⟨.addRefs node (SHOULD_BE_ON_FREELIST - 1), none⟩
  | knowingLeaves (node : Node) (head : Option Node) (resume : Resume Node)
      (used : list.freeListRefs node ≠ 1) :
      Advances list (.knowingGiveBack node head resume)
        (list.setRefs node (list.freeListRefs node + (SHOULD_BE_ON_FREELIST - 1)))
        resume.continue.1 ⟨.addRefs node (SHOULD_BE_ON_FREELIST - 1), resume.continue.2⟩
  | getLoadHead :
      Advances list .getLoadHead list (loop list.freeListHead).1
        ⟨.loadHead list.freeListHead, (loop list.freeListHead).2⟩
  | getUnreferenced (head : Node) (zero : list.freeListRefs head &&& REFS_MASK = 0) :
      Advances list (.getLoadRefs head) list .getLoadHead ⟨.loadRefs head, none⟩
  | getLoadRefs (head : Node) (used : list.freeListRefs head &&& REFS_MASK ≠ 0) :
      Advances list (.getLoadRefs head) list (.getExchangeRefs head (list.freeListRefs head))
        ⟨.loadRefs head, none⟩
  | getRefers (head : Node) :
      Advances list (.getExchangeRefs head (list.freeListRefs head))
        (list.setRefs head (list.freeListRefs head + 1)) (.getLoadNext head)
        ⟨.exchangeRefs head true, none⟩
  | getMissesRefs (head : Node) (refs : UInt32) (changed : list.freeListRefs head ≠ refs) :
      Advances list (.getExchangeRefs head refs) list .getLoadHead ⟨.exchangeRefs head false, none⟩
  | getLoadNext (head : Node) :
      Advances list (.getLoadNext head) list (.getExchangeHead head (list.freeListNext head))
        ⟨.loadNext head, none⟩
  | getUnlinks (head : Node) (next : Option Node) (top : list.freeListHead = some head) :
      Advances list (.getExchangeHead head next) (list.setHead next) (.getAssert head)
        ⟨.exchangeHead (some head) true, none⟩
  | getMissesHead (head : Node) (next : Option Node) (changed : list.freeListHead ≠ some head) :
      Advances list (.getExchangeHead head next) list (.getRelease head list.freeListHead)
        ⟨.exchangeHead list.freeListHead false, none⟩
  | getAssert (head : Node) (clear : list.freeListRefs head &&& SHOULD_BE_ON_FREELIST = 0) :
      Advances list (.getAssert head) list (.getSubRefs head) ⟨.loadRefs head, none⟩
  | getAborts (head : Node) (flagged : list.freeListRefs head &&& SHOULD_BE_ON_FREELIST ≠ 0) :
      Advances list (.getAssert head) list .aborted ⟨.loadRefs head, none⟩
  | getSubRefs (head : Node) :
      Advances list (.getSubRefs head) (list.setRefs head (list.freeListRefs head - 2)) .idle
        ⟨.subRefs head 2, some (.got (some head))⟩
  | getLinks (prevHead : Node) (head : Option Node)
      (last : list.freeListRefs prevHead = SHOULD_BE_ON_FREELIST + 1) :
      Advances list (.getRelease prevHead head)
        (list.setRefs prevHead (list.freeListRefs prevHead - 1))
        (.knowingLoadHead prevHead (.getting head)) ⟨.subRefs prevHead 1, none⟩
  | getReleases (prevHead : Node) (head : Option Node)
      (more : list.freeListRefs prevHead ≠ SHOULD_BE_ON_FREELIST + 1) :
      Advances list (.getRelease prevHead head)
        (list.setRefs prevHead (list.freeListRefs prevHead - 1)) (loop head).1
        ⟨.subRefs prevHead 1, (loop head).2⟩

theorem advances {list after : FreeList Node} {pc next : Pc Node} {output : Output Node}
    (taken : advance list pc = some (after, next, output)) :
    Advances list pc after next output := by
  cases pc with
  | idle | aborted => cases taken
  | addRefs node =>
      simp only [advance] at taken
      split at taken
      case isTrue last => cases taken; exact .addLinks node last
      case isFalse used => cases taken; exact .addLeaves node used
  | knowingLoadHead node resume => cases taken; exact .knowingLoadHead node resume
  | knowingStoreNext node head resume => cases taken; exact .knowingStoreNext node head resume
  | knowingStoreRefs node head resume => cases taken; exact .knowingStoreRefs node head resume
  | knowingExchange node head resume =>
      simp only [advance] at taken
      split at taken
      case isTrue same =>
          subst same
          cases taken
          exact .knowingLinks node resume
      case isFalse changed => cases taken; exact .knowingMisses node head resume changed
  | knowingGiveBack node head resume =>
      simp only [advance] at taken
      split at taken
      case isTrue last => cases taken; exact .knowingRetries node head resume last
      case isFalse used => cases taken; exact .knowingLeaves node head resume used
  | getLoadHead => cases taken; exact .getLoadHead
  | getLoadRefs head =>
      simp only [advance] at taken
      split at taken
      case isTrue zero => cases taken; exact .getUnreferenced head zero
      case isFalse used => cases taken; exact .getLoadRefs head used
  | getExchangeRefs head refs =>
      simp only [advance] at taken
      split at taken
      case isTrue same =>
          subst same
          cases taken
          exact .getRefers head
      case isFalse changed => cases taken; exact .getMissesRefs head refs changed
  | getLoadNext head => cases taken; exact .getLoadNext head
  | getExchangeHead head next =>
      simp only [advance] at taken
      split at taken
      case isTrue top => cases taken; exact .getUnlinks head next top
      case isFalse changed => cases taken; exact .getMissesHead head next changed
  | getAssert head =>
      simp only [advance] at taken
      split at taken
      case isTrue clear => cases taken; exact .getAssert head clear
      case isFalse flagged => cases taken; exact .getAborts head flagged
  | getSubRefs head => cases taken; exact .getSubRefs head
  | getRelease prevHead head =>
      simp only [advance] at taken
      split at taken
      case isTrue last => cases taken; exact .getLinks prevHead head last
      case isFalse more => cases taken; exact .getReleases prevHead head more

end DmLockFree.ConcurrentQueue.FreeList
