import DmLockFree.Library.Threads
import Mathlib.Data.UInt

/-!
# `FreeList` of `ConcurrentQueue`

A stack of nodes that threads add and take without a lock. Every node has a
count of the references to it; a node that is added while others still refer to
it is linked in by the last of them. Every atomic operation is one step.
-/

set_option autoImplicit false

namespace DmLockFree.ConcurrentQueue

open Library

structure FreeList (Node : Type) where
  freeListHead : Option Node
  freeListRefs : Node → UInt32
  freeListNext : Node → Option Node

namespace FreeList

variable {Node : Type}

def REFS_MASK : UInt32 := 0x7FFFFFFF

def SHOULD_BE_ON_FREELIST : UInt32 := 0x80000000

/-- The constructors of the list and of its nodes. -/
def construct (Node : Type) : FreeList Node where
  freeListHead := none
  freeListRefs := fun _ => 0
  freeListNext := fun _ => none

section Fields

variable [DecidableEq Node]

def setRefs (list : FreeList Node) (node : Node) (refs : UInt32) : FreeList Node :=
  { list with freeListRefs := Function.update list.freeListRefs node refs }

def setNext (list : FreeList Node) (node : Node) (next : Option Node) : FreeList Node :=
  { list with freeListNext := Function.update list.freeListNext node next }

def setHead (list : FreeList Node) (head : Option Node) : FreeList Node :=
  { list with freeListHead := head }

@[simp] theorem setRefs_freeListRefs (list : FreeList Node) (node : Node) (refs : UInt32) :
    (list.setRefs node refs).freeListRefs node = refs :=
  Function.update_self ..

end Fields

inductive Call (Node : Type) where
  | add (node : Node)
  | tryGet

inductive Return (Node : Type) where
  | added
  | got (node : Option Node)

inductive Access (Node : Type) where
  | loadHead (head : Option Node)
  | exchangeHead (head : Option Node) (success : Bool)
  | loadRefs (node : Node)
  | exchangeRefs (node : Node) (success : Bool)
  | addRefs (node : Node) (amount : UInt32)
  | subRefs (node : Node) (amount : UInt32)
  | storeRefs (node : Node)
  | loadNext (node : Node)
  | storeNext (node : Node)

/-- What follows `add_knowing_refcount_is_zero`: the end of `add`, or the loop of
`try_get` with the head it has last seen. -/
inductive Resume (Node : Type) where
  | adding
  | getting (head : Option Node)

/-- `aborted` is a failed assertion. -/
inductive Pc (Node : Type) where
  | idle
  | addRefs (node : Node)
  | knowingLoadHead (node : Node) (resume : Resume Node)
  | knowingStoreNext (node : Node) (head : Option Node) (resume : Resume Node)
  | knowingStoreRefs (node : Node) (head : Option Node) (resume : Resume Node)
  | knowingExchange (node : Node) (head : Option Node) (resume : Resume Node)
  | knowingGiveBack (node : Node) (head : Option Node) (resume : Resume Node)
  | getLoadHead
  | getLoadRefs (head : Node)
  | getExchangeRefs (head : Node) (refs : UInt32)
  | getLoadNext (head : Node)
  | getExchangeHead (head : Node) (next : Option Node)
  | getAssert (head : Node)
  | getSubRefs (head : Node)
  | getRelease (prevHead : Node) (head : Option Node)
  | aborted

structure Output (Node : Type) where
  access : Access Node
  returned : Option (Return Node)

/-- The test of the loop of `try_get`. -/
def loop (head : Option Node) : Pc Node × Option (Return Node) :=
  match head with
  | none => (.idle, some (.got none))
  | some node => (.getLoadRefs node, none)

def Resume.continue : Resume Node → Pc Node × Option (Return Node)
  | .adding => (.idle, some .added)
  | .getting head => loop head

variable [DecidableEq Node]

/-- One atomic operation of the running call. -/
def advance (list : FreeList Node) : Pc Node → Option (FreeList Node × Pc Node × Output Node)
  | .idle => none
  | .addRefs node =>
      let refs := list.freeListRefs node
      let after := list.setRefs node (refs + SHOULD_BE_ON_FREELIST)
      if refs = 0 then
        some (after, .knowingLoadHead node .adding, ⟨.addRefs node SHOULD_BE_ON_FREELIST, none⟩)
      else some (after, .idle, ⟨.addRefs node SHOULD_BE_ON_FREELIST, some .added⟩)
  | .knowingLoadHead node resume =>
      some (list, .knowingStoreNext node list.freeListHead resume,
        ⟨.loadHead list.freeListHead, none⟩)
  | .knowingStoreNext node head resume =>
      some (list.setNext node head, .knowingStoreRefs node head resume, ⟨.storeNext node, none⟩)
  | .knowingStoreRefs node head resume =>
      some (list.setRefs node 1, .knowingExchange node head resume, ⟨.storeRefs node, none⟩)
  | .knowingExchange node head resume =>
      if list.freeListHead = head then
        some (list.setHead (some node), resume.continue.1,
          ⟨.exchangeHead head true, resume.continue.2⟩)
      else some (list, .knowingGiveBack node list.freeListHead resume,
        ⟨.exchangeHead list.freeListHead false, none⟩)
  | .knowingGiveBack node head resume =>
      let refs := list.freeListRefs node
      let after := list.setRefs node (refs + (SHOULD_BE_ON_FREELIST - 1))
      if refs = 1 then
        some (after, .knowingStoreNext node head resume,
          ⟨.addRefs node (SHOULD_BE_ON_FREELIST - 1), none⟩)
      else some (after, resume.continue.1,
        ⟨.addRefs node (SHOULD_BE_ON_FREELIST - 1), resume.continue.2⟩)
  | .getLoadHead =>
      some (list, (loop list.freeListHead).1,
        ⟨.loadHead list.freeListHead, (loop list.freeListHead).2⟩)
  | .getLoadRefs head =>
      let refs := list.freeListRefs head
      if refs &&& REFS_MASK = 0 then some (list, .getLoadHead, ⟨.loadRefs head, none⟩)
      else some (list, .getExchangeRefs head refs, ⟨.loadRefs head, none⟩)
  | .getExchangeRefs head refs =>
      if list.freeListRefs head = refs then
        some (list.setRefs head (refs + 1), .getLoadNext head, ⟨.exchangeRefs head true, none⟩)
      else some (list, .getLoadHead, ⟨.exchangeRefs head false, none⟩)
  | .getLoadNext head =>
      some (list, .getExchangeHead head (list.freeListNext head), ⟨.loadNext head, none⟩)
  | .getExchangeHead head next =>
      if list.freeListHead = some head then
        some (list.setHead next, .getAssert head, ⟨.exchangeHead (some head) true, none⟩)
      else some (list, .getRelease head list.freeListHead,
        ⟨.exchangeHead list.freeListHead false, none⟩)
  | .getAssert head =>
      if list.freeListRefs head &&& SHOULD_BE_ON_FREELIST = 0 then
        some (list, .getSubRefs head, ⟨.loadRefs head, none⟩)
      else some (list, .aborted, ⟨.loadRefs head, none⟩)
  | .getSubRefs head =>
      some (list.setRefs head (list.freeListRefs head - 2), .idle,
        ⟨.subRefs head 2, some (.got (some head))⟩)
  | .getRelease prevHead head =>
      let refs := list.freeListRefs prevHead
      let after := list.setRefs prevHead (refs - 1)
      if refs = SHOULD_BE_ON_FREELIST + 1 then
        some (after, .knowingLoadHead prevHead (.getting head), ⟨.subRefs prevHead 1, none⟩)
      else some (after, (loop head).1, ⟨.subRefs prevHead 1, (loop head).2⟩)
  | .aborted => none

def enter {Thread : Type} : Thread → Pc Node → Call Node → Option (Pc Node)
  | _, .idle, .add node => some (.addRefs node)
  | _, .idle, .tryGet => some .getLoadHead
  | _, _, _ => none

def program (Thread Node : Type) [DecidableEq Node] :
    Program Thread (FreeList Node) (Pc Node) (Call Node) (Output Node) where
  idle := .idle
  enter := enter
  advance := advance

end FreeList

end DmLockFree.ConcurrentQueue
