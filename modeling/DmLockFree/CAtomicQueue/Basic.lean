import DmLockFree.Library.Threads
import Mathlib.Data.UInt

/-!
# `CAtomicQueue`

A ring of atomic pointers to heap objects. Every atomic operation, every
allocation and every deletion is one step.
-/

set_option autoImplicit false

namespace DmLockFree

open Library

/-- A pointer is a number; `heap` says which objects are alive. -/
structure CAtomicQueue (T : Type) where
  head : UInt64
  tail : UInt64
  size : UInt64
  capacity : UInt64
  buffer : List (Option Nat)
  heap : Nat → Option T

namespace CAtomicQueue

variable {T : Type}

/-- The constructor. -/
def construct (T : Type) (capacity : UInt64) : CAtomicQueue T where
  head := 0
  tail := 0
  size := 0
  capacity
  buffer := List.replicate capacity.toNat none
  heap := fun _ => none

def next (queue : CAtomicQueue T) (index : UInt64) : UInt64 := (index + 1) % queue.capacity

/-- `none` is an access outside `buffer`. -/
def cell (queue : CAtomicQueue T) (index : UInt64) : Option (Option Nat) :=
  queue.buffer[index.toNat]?

def setCell (queue : CAtomicQueue T) (index : UInt64) (pointer : Option Nat) : CAtomicQueue T :=
  { queue with buffer := queue.buffer.set index.toNat pointer }

def setHeap (queue : CAtomicQueue T) (pointer : Nat) (object : Option T) : CAtomicQueue T :=
  { queue with heap := Function.update queue.heap pointer object }

/-- Which of its two indices `empty` loads first. -/
inductive Order where
  | headFirst
  | tailFirst
  deriving DecidableEq, Repr

/-- `pointer` is what `new T(value)` will return. -/
inductive Call (T : Type) where
  | tryPush (value : T) (pointer : Nat)
  | pop
  | front
  | empty (order : Order)

inductive Return (T : Type) where
  | pushed (value : T) (result : Bool)
  | popped (result : Bool)
  | front (pointer : Option Nat)
  | empty (result : Bool)

/-- An exchange and a deletion also show the object behind the pointer. -/
inductive Access (T : Type) where
  | loadHead
  | loadTail
  | loadCell (index : UInt64) (pointer : Option Nat)
  | allocate (pointer : Nat) (value : T)
  | storeCell (index : UInt64) (pointer : Nat)
  | storeTail
  | countUp
  | exchange (index : UInt64) (pointer : Option Nat) (object : Option T)
  | storeHead
  | delete (pointer : Nat) (object : Option T)
  | countDown

inductive Pc (T : Type) where
  | idle
  | pushLoadTail (value : T) (pointer : Nat)
  | pushLoadHead (value : T) (pointer : Nat) (currentTail nextTail : UInt64)
  | pushAllocate (value : T) (pointer : Nat) (currentTail nextTail : UInt64)
  | pushStoreCell (value : T) (pointer : Nat) (currentTail nextTail : UInt64)
  | pushStoreTail (value : T) (nextTail : UInt64)
  | pushCountUp (value : T)
  | popLoadHead
  | popLoadTail (currentHead : UInt64)
  | popExchange (currentHead : UInt64)
  | popStoreHead (currentHead : UInt64) (pointer : Nat)
  | popDelete (pointer : Nat)
  | popCountDown
  | frontLoadHead
  | frontLoadTail (currentHead : UInt64)
  | frontLoadCell (currentHead : UInt64)
  | emptyFirst (order : Order)
  | emptySecond (order : Order) (first : UInt64)

structure Output (T : Type) where
  access : Access T
  returned : Option (Return T)

/-- One access of the running call. There is no step at `idle`, none outside the
buffer, and no allocation of an object that is alive. -/
def advance (queue : CAtomicQueue T) : Pc T → Option (CAtomicQueue T × Pc T × Output T)
  | .idle => none
  | .pushLoadTail value pointer =>
      some (queue, .pushLoadHead value pointer queue.tail (queue.next queue.tail),
        ⟨.loadTail, none⟩)
  | .pushLoadHead value pointer currentTail nextTail =>
      if nextTail = queue.head then
        some (queue, .idle, ⟨.loadHead, some (.pushed value false)⟩)
      else some (queue, .pushAllocate value pointer currentTail nextTail, ⟨.loadHead, none⟩)
  | .pushAllocate value pointer currentTail nextTail =>
      match queue.heap pointer with
      | some _ => none
      | none =>
          some (queue.setHeap pointer (some value),
            .pushStoreCell value pointer currentTail nextTail, ⟨.allocate pointer value, none⟩)
  | .pushStoreCell value pointer currentTail nextTail =>
      (queue.cell currentTail).map fun _ =>
        (queue.setCell currentTail (some pointer), .pushStoreTail value nextTail,
          ⟨.storeCell currentTail pointer, none⟩)
  | .pushStoreTail value nextTail =>
      some ({ queue with tail := nextTail }, .pushCountUp value, ⟨.storeTail, none⟩)
  | .pushCountUp value =>
      some ({ queue with size := queue.size + 1 }, .idle, ⟨.countUp, some (.pushed value true)⟩)
  | .popLoadHead => some (queue, .popLoadTail queue.head, ⟨.loadHead, none⟩)
  | .popLoadTail currentHead =>
      if currentHead = queue.tail then
        some (queue, .idle, ⟨.loadTail, some (.popped false)⟩)
      else some (queue, .popExchange currentHead, ⟨.loadTail, none⟩)
  | .popExchange currentHead =>
      (queue.cell currentHead).map fun
        | none =>
            (queue.setCell currentHead none, .idle,
              ⟨.exchange currentHead none none, some (.popped false)⟩)
        | some pointer =>
            (queue.setCell currentHead none, .popStoreHead currentHead pointer,
              ⟨.exchange currentHead (some pointer) (queue.heap pointer), none⟩)
  | .popStoreHead currentHead pointer =>
      some ({ queue with head := queue.next currentHead }, .popDelete pointer, ⟨.storeHead, none⟩)
  | .popDelete pointer =>
      some (queue.setHeap pointer none, .popCountDown,
        ⟨.delete pointer (queue.heap pointer), none⟩)
  | .popCountDown =>
      some ({ queue with size := queue.size - 1 }, .idle, ⟨.countDown, some (.popped true)⟩)
  | .frontLoadHead => some (queue, .frontLoadTail queue.head, ⟨.loadHead, none⟩)
  | .frontLoadTail currentHead =>
      if currentHead = queue.tail then
        some (queue, .idle, ⟨.loadTail, some (.front none)⟩)
      else some (queue, .frontLoadCell currentHead, ⟨.loadTail, none⟩)
  | .frontLoadCell currentHead =>
      (queue.cell currentHead).map fun pointer =>
        (queue, .idle, ⟨.loadCell currentHead pointer, some (.front pointer)⟩)
  | .emptyFirst .headFirst =>
      some (queue, .emptySecond .headFirst queue.head, ⟨.loadHead, none⟩)
  | .emptyFirst .tailFirst =>
      some (queue, .emptySecond .tailFirst queue.tail, ⟨.loadTail, none⟩)
  | .emptySecond .headFirst first =>
      some (queue, .idle, ⟨.loadTail, some (.empty (first == queue.tail))⟩)
  | .emptySecond .tailFirst first =>
      some (queue, .idle, ⟨.loadHead, some (.empty (queue.head == first))⟩)

/-- One producer and any number of consumers. -/
inductive Thread (Consumer : Type) where
  | producer
  | consumer (name : Consumer)
  deriving DecidableEq, Repr

def enter {Consumer : Type} : Thread Consumer → Pc T → Call T → Option (Pc T)
  | .producer, .idle, .tryPush value pointer => some (.pushLoadTail value pointer)
  | .consumer _, .idle, .pop => some .popLoadHead
  | .consumer _, .idle, .front => some .frontLoadHead
  | .consumer _, .idle, .empty order => some (.emptyFirst order)
  | _, _, _ => none

def program (Consumer T : Type) :
    Program (Thread Consumer) (CAtomicQueue T) (Pc T) (Call T) (Output T) where
  idle := .idle
  enter := enter
  advance := advance

end CAtomicQueue

end DmLockFree
