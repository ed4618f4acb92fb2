import DmLockFree.Library.Threads
import Mathlib.Data.UInt

/-!
# `CDMAtomicQueue`

A ring of raw slots in which one thread constructs objects and another destroys
them. Every atomic load and store, every construction and every destructor call
is one step.
-/

set_option autoImplicit false

namespace DmLockFree

open Library

/-- `slots` says which object is alive in each slot of the allocated block. -/
structure CDMAtomicQueue (T : Type) where
  capacity : UInt64
  kPadding : UInt64
  slots : UInt64 → Option T
  head : UInt64
  tail : UInt64

namespace CDMAtomicQueue

variable {T : Type}

/-- `kPadding` for an element of `sizeT` bytes. -/
def padding (sizeT : UInt64) : UInt64 := (128 - 1) / sizeT + 1

/-- The constructor; `none` is `std::invalid_argument`. -/
def construct (T : Type) (sizeT capacity : UInt64) : Option (CDMAtomicQueue T) :=
  if capacity < 2 then none
  else some {
    capacity
    kPadding := padding sizeT
    slots := fun _ => none
    head := 0
    tail := 0 }

/-- The index behind `index`, by comparison with `capacity_`. -/
def next (queue : CDMAtomicQueue T) (index : UInt64) : UInt64 :=
  if index + 1 = queue.capacity then 0 else index + 1

/-- The slot of an index. -/
def slot (queue : CDMAtomicQueue T) (index : UInt64) : UInt64 := index + queue.kPadding

def setSlot (queue : CDMAtomicQueue T) (index : UInt64) (object : Option T) : CDMAtomicQueue T :=
  { queue with slots := Function.update queue.slots (queue.slot index) object }

/-- `size()` from its two loads: a signed difference, corrected when negative. -/
def sizeOf (queue : CDMAtomicQueue T) (head tail : UInt64) : UInt64 :=
  let diff := head - tail
  if 2 ^ 63 ≤ diff.toNat then diff + queue.capacity else diff

/-- The body shared by `emplace` and `try_emplace`; `push` and `try_push` call them. -/
inductive Emplace where
  | emplace
  | tryEmplace
  deriving DecidableEq, Repr

/-- The observers, with the order in which they load the two indices. -/
inductive Observer where
  | size
  | empty
  deriving DecidableEq, Repr

inductive Order where
  | headFirst
  | tailFirst
  deriving DecidableEq, Repr

/-- `outcome` is the object that the constructor of `T` makes, or `none` when it throws. -/
inductive Call (T : Type) where
  | emplace (kind : Emplace) (outcome : Option T)
  | front
  | pop
  | observe (observer : Observer) (order : Order)

def Call.push (outcome : Option T) : Call T := .emplace .emplace outcome

def Call.tryPush (outcome : Option T) : Call T := .emplace .tryEmplace outcome

inductive Return (T : Type) where
  | emplaced (value : T)
  | full
  | threw
  | front (pointer : Option UInt64)
  | popped
  | size (value : UInt64)
  | empty (value : Bool)

inductive Access (T : Type) where
  | loadHead
  | loadTail
  | construct (index : UInt64) (outcome : Option T)
  | destroy (index : UInt64) (object : Option T)
  | storeHead
  | storeTail

/-- Program points. At `idle`, and on the way through `front` and the observers,
`ready` is what the caller knows: since its last `pop` its own `front()` was not
null or its own `empty()` was false. -/
inductive Pc (T : Type) where
  | idle (ready : Bool)
  | emplaceLoadHead (kind : Emplace) (outcome : Option T)
  | emplaceLoadTail (kind : Emplace) (outcome : Option T) (head nextHead : UInt64)
  | emplaceConstruct (outcome : Option T) (head nextHead : UInt64)
  | emplaceStoreHead (value : T) (nextHead : UInt64)
  | frontLoadTail (ready : Bool)
  | frontLoadHead (ready : Bool) (tail : UInt64)
  | popLoadTail
  | popAssert (tail : UInt64)
  | popDestroy (tail : UInt64)
  | popStoreTail (nextTail : UInt64)
  | observeFirst (observer : Observer) (order : Order) (ready : Bool)
  | observeSecond (observer : Observer) (order : Order) (ready : Bool) (first : UInt64)

structure Output (T : Type) where
  access : Access T
  returned : Option (Return T)

/-- The end of `size()` or `empty()`. -/
def observed (queue : CDMAtomicQueue T) (ready : Bool) (head tail : UInt64) :
    Observer → Pc T × Return T
  | .size => (.idle ready, .size (queue.sizeOf head tail))
  | .empty =>
      let isEmpty := queue.sizeOf head tail == 0
      (.idle (ready || !isEmpty), .empty isEmpty)

/-- One access of the running call. There is no step at `idle`, and none after
the assertion of `pop` fails. -/
def advance (queue : CDMAtomicQueue T) : Pc T → Option (CDMAtomicQueue T × Pc T × Output T)
  | .idle _ => none
  | .emplaceLoadHead kind outcome =>
      some (queue, .emplaceLoadTail kind outcome queue.head (queue.next queue.head),
        ⟨.loadHead, none⟩)
  | .emplaceLoadTail kind outcome head nextHead =>
      if nextHead = queue.tail then
        match kind with
        -- `emplace` spins, `try_emplace` gives up.
        | .emplace =>
            some (queue, .emplaceLoadTail kind outcome head nextHead, ⟨.loadTail, none⟩)
        | .tryEmplace => some (queue, .idle false, ⟨.loadTail, some .full⟩)
      else some (queue, .emplaceConstruct outcome head nextHead, ⟨.loadTail, none⟩)
  | .emplaceConstruct none head _ =>
      some (queue, .idle false, ⟨.construct (queue.slot head) none, some .threw⟩)
  | .emplaceConstruct (some value) head nextHead =>
      some (queue.setSlot head (some value), .emplaceStoreHead value nextHead,
        ⟨.construct (queue.slot head) (some value), none⟩)
  | .emplaceStoreHead value nextHead =>
      some ({ queue with head := nextHead }, .idle false, ⟨.storeHead, some (.emplaced value)⟩)
  | .frontLoadTail ready => some (queue, .frontLoadHead ready queue.tail, ⟨.loadTail, none⟩)
  | .frontLoadHead ready tail =>
      if queue.head = tail then some (queue, .idle ready, ⟨.loadHead, some (.front none)⟩)
      else some (queue, .idle true, ⟨.loadHead, some (.front (some (queue.slot tail)))⟩)
  | .popLoadTail => some (queue, .popAssert queue.tail, ⟨.loadTail, none⟩)
  | .popAssert tail =>
      if queue.head ≠ tail then some (queue, .popDestroy tail, ⟨.loadHead, none⟩) else none
  | .popDestroy tail =>
      some (queue.setSlot tail none, .popStoreTail (queue.next tail),
        ⟨.destroy (queue.slot tail) (queue.slots (queue.slot tail)), none⟩)
  | .popStoreTail nextTail =>
      some ({ queue with tail := nextTail }, .idle false, ⟨.storeTail, some .popped⟩)
  | .observeFirst observer order ready =>
      match order with
      | .headFirst =>
          some (queue, .observeSecond observer order ready queue.head, ⟨.loadHead, none⟩)
      | .tailFirst =>
          some (queue, .observeSecond observer order ready queue.tail, ⟨.loadTail, none⟩)
  | .observeSecond observer order ready first =>
      match order with
      | .headFirst =>
          let (pc, returned) := queue.observed ready first queue.tail observer
          some (queue, pc, ⟨.loadTail, some returned⟩)
      | .tailFirst =>
          let (pc, returned) := queue.observed ready queue.head first observer
          some (queue, pc, ⟨.loadHead, some returned⟩)

inductive Thread where
  | producer
  | consumer
  deriving DecidableEq, Repr

/-- The producer emplaces; the consumer pops only what it knows to be there. -/
def enter : Thread → Pc T → Call T → Option (Pc T)
  | .producer, .idle _, .emplace kind outcome => some (.emplaceLoadHead kind outcome)
  | .consumer, .idle ready, .front => some (.frontLoadTail ready)
  | .consumer, .idle true, .pop => some .popLoadTail
  | .consumer, .idle ready, .observe observer order =>
      some (.observeFirst observer order ready)
  | _, _, _ => none

def program (T : Type) : Program Thread (CDMAtomicQueue T) (Pc T) (Call T) (Output T) where
  idle := .idle false
  enter := enter
  advance := advance

/-- A call of one thread that runs alone until it returns, with what it did. -/
def runAlone : Nat → CDMAtomicQueue T → Pc T →
    Option (CDMAtomicQueue T × List (Access T) × Return T)
  | 0, _, _ => none
  | fuel + 1, queue, pc =>
      match advance queue pc with
      | none => none
      | some (after, _, ⟨access, some returned⟩) => some (after, [access], returned)
      | some (after, next, ⟨access, none⟩) =>
          (runAlone fuel after next).map fun (last, rest, returned) =>
            (last, access :: rest, returned)

/-- The loop of the destructor, `while (front()) pop();`, run alone for at most
`fuel` rounds. -/
def destroy : Nat → CDMAtomicQueue T → Option (CDMAtomicQueue T × List (Access T))
  | 0, _ => none
  | fuel + 1, queue =>
      match runAlone 2 queue (.frontLoadTail false) with
      | some (queue, seen, .front none) => some (queue, seen)
      | some (queue, seen, .front (some _)) =>
          match runAlone 4 queue .popLoadTail with
          | some (queue, taken, .popped) =>
              (destroy fuel queue).map fun (last, rest) => (last, seen ++ taken ++ rest)
          | _ => none
      | _ => none

end CDMAtomicQueue

end DmLockFree
