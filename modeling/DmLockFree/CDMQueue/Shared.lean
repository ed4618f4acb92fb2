import DmLockFree.CDMQueue.Basic
import DmLockFree.Library.Threads

/-!
# `CDMQueue` shared by two threads

The member functions with one step for every read and write of `m_nHead`,
`m_nTail` and a cell. The language leaves open in which order the first
expression reads the two indices; the caller's environment chooses.
-/

set_option autoImplicit false

namespace DmLockFree.CDMQueue

open Library

variable {α : Type}

inductive Goal (α : Type) where
  | pushBack (ptr : α)
  | popFront
  | getUsedSize
  deriving DecidableEq, Repr

inductive Order where
  | tailFirst
  | headFirst
  deriving DecidableEq, Repr

structure Call (α : Type) where
  goal : Goal α
  order : Order
  deriving DecidableEq, Repr

inductive Return (α : Type) where
  | pushBack (ptr : α) (accepted : Bool)
  | popFront (ptr : Option α)
  | getUsedSize (used : Int)
  deriving DecidableEq, Repr

inductive Access where
  | readHead
  | readTail
  | readCell (index : Int)
  | writeHead
  | writeTail
  | writeCell (index : Int)
  deriving DecidableEq, Repr

/-- Program points: each names the access that comes next. -/
inductive Pc (α : Type) where
  | idle
  | readFirst (goal : Goal α) (order : Order)
  | readSecond (goal : Goal α) (order : Order) (first : Int)
  | pushReadTail (ptr : α)
  | pushWriteCell (ptr : α) (index : Int)
  | pushReadTailAgain (ptr : α)
  | pushWriteTail (ptr : α) (nTail : Int)
  | popReadHead
  | popReadCell (index : Int)
  | popReadHeadAgain (ptr : Option α)
  | popWriteHead (ptr : Option α) (nHead : Int)
  deriving DecidableEq, Repr

structure Output (α : Type) where
  access : Access
  returned : Option (Return α)
  deriving DecidableEq, Repr

/-- The branch taken once `nUsed` is known. -/
def decideUsed (queue : CDMQueue α) (nUsed : Int) : Goal α → Pc α × Option (Return α)
  | .pushBack ptr =>
      if nUsed ≥ queue.nSize - 1 then (.idle, some (.pushBack ptr false))
      else (.pushReadTail ptr, none)
  | .popFront => if 0 = nUsed then (.idle, some (.popFront none)) else (.popReadHead, none)
  | .getUsedSize => (.idle, some (.getUsedSize nUsed))

/-- The index that a call reads first. -/
def Order.readFirst (queue : CDMQueue α) : Order → Int × Access
  | .tailFirst => (queue.nTail, .readTail)
  | .headFirst => (queue.nHead, .readHead)

/-- `m_nTail` and `m_nHead` as a call knows them after its second read. -/
def Order.readSecond (queue : CDMQueue α) (first : Int) : Order → (Int × Int) × Access
  | .tailFirst => ((first, queue.nHead), .readHead)
  | .headFirst => ((queue.nTail, first), .readTail)

/-- The increment of an index, `(index + 1) % m_nSize`. -/
def next (queue : CDMQueue α) (index : Int) : Option Int :=
  ((int (index + 1)).bind fun sum => remainder sum queue.nSize).toOption

/-- One access of the running call. There is no step at `idle` and none where
the language leaves the access undefined. -/
def advance (queue : CDMQueue α) : Pc α → Option (CDMQueue α × Pc α × Output α)
  | .idle => none
  | .readFirst goal order =>
      let (first, access) := order.readFirst queue
      some (queue, .readSecond goal order first, ⟨access, none⟩)
  | .readSecond goal order first =>
      let ((nTail, nHead), access) := order.readSecond queue first
      (distance nTail queue.nSize nHead).toOption.map fun nUsed =>
        let (pc, returned) := queue.decideUsed nUsed goal
        (queue, pc, ⟨access, returned⟩)
  | .pushReadTail ptr => some (queue, .pushWriteCell ptr queue.nTail, ⟨.readTail, none⟩)
  | .pushWriteCell ptr index =>
      (setCell queue.pArray index (some ptr)).toOption.map fun pArray =>
        ({ queue with pArray }, .pushReadTailAgain ptr, ⟨.writeCell index, none⟩)
  | .pushReadTailAgain ptr =>
      (queue.next queue.nTail).map fun nTail =>
        (queue, .pushWriteTail ptr nTail, ⟨.readTail, none⟩)
  | .pushWriteTail ptr nTail =>
      some ({ queue with nTail }, .idle, ⟨.writeTail, some (.pushBack ptr true)⟩)
  | .popReadHead => some (queue, .popReadCell queue.nHead, ⟨.readHead, none⟩)
  | .popReadCell index =>
      (cellAt queue.pArray index).toOption.map fun ptr =>
        (queue, .popReadHeadAgain ptr, ⟨.readCell index, none⟩)
  | .popReadHeadAgain ptr =>
      (queue.next queue.nHead).map fun nHead =>
        (queue, .popWriteHead ptr nHead, ⟨.readHead, none⟩)
  | .popWriteHead ptr nHead =>
      some ({ queue with nHead }, .idle, ⟨.writeHead, some (.popFront ptr)⟩)

inductive Thread where
  | producer
  | consumer
  deriving DecidableEq, Repr

/-- One thread pushes, one pops, both may ask for the size. -/
def Thread.calls : Thread → Goal α → Bool
  | .producer, .pushBack _ | .consumer, .popFront | _, .getUsedSize => true
  | _, _ => false

def program (α : Type) : Program Thread (CDMQueue α) (Pc α) (Call α) (Output α) where
  idle := .idle
  enter
    | thread, .idle, call =>
        if thread.calls call.goal then some (.readFirst call.goal call.order) else none
    | _, _, _ => none
  advance := advance

end DmLockFree.CDMQueue
