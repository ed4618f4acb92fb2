import Mathlib.Algebra.Group.Int.Defs
import Mathlib.Algebra.Group.Nat.Defs
import Mathlib.Data.Int.Basic

/-!
# `CDMQueue`

The pointer queue over a ring of `m_nSize` cells. A `void*` is `none` for
`nullptr` and otherwise the object it points to. Whatever the language leaves
undefined on the way (an `int` out of range, a division by zero, an access
outside the array) is a `Fault`.
-/

set_option autoImplicit false

namespace DmLockFree

inductive Fault where
  | overflow
  | nullArray
  | outOfRange
  | moduloByZero
  deriving DecidableEq, Repr

structure CDMQueue (α : Type) where
  pArray : Option (List (Option α))
  nHead : Int
  nTail : Int
  nSize : Int
  deriving DecidableEq, Repr

namespace CDMQueue

/-- The value of an `int` expression, between `-2 ^ 31` and `2 ^ 31 - 1`. -/
def int (value : Int) : Except Fault Int :=
  if value.toNat < 2 ^ 31 ∧ (-value).toNat ≤ 2 ^ 31 then .ok value else .error .overflow

/-- `dividend % divisor` on `int`. -/
def remainder (dividend divisor : Int) : Except Fault Int :=
  if divisor = 0 then .error .moduloByZero else .ok (dividend.tmod divisor)

/-- `nDist` and the conditional expression after it, as `PushBack`, `PopFront`
and `GetUsedSize` compute it from the two indices. -/
def distance (nTail nSize nHead : Int) : Except Fault Int := do
  let nDist ← int ((← int (nTail + nSize)) - nHead)
  if nDist ≥ nSize then int (nDist - nSize) else pure nDist

variable {α : Type}

def cellAt (pArray : Option (List (Option α))) (index : Int) : Except Fault (Option α) :=
  match pArray with
  | none => .error .nullArray
  | some cells =>
      if 0 ≤ index then
        match cells[index.toNat]? with
        | some ptr => .ok ptr
        | none => .error .outOfRange
      else .error .outOfRange

def setCell (pArray : Option (List (Option α))) (index : Int) (ptr : Option α) :
    Except Fault (Option (List (Option α))) :=
  match pArray with
  | none => .error .nullArray
  | some cells =>
      if 0 ≤ index ∧ index.toNat < cells.length then .ok (some (cells.set index.toNat ptr))
      else .error .outOfRange

/-- The default constructor. -/
def empty : CDMQueue α where
  pArray := none
  nHead := 0
  nTail := 0
  nSize := 0

/-- `Init`. A negative array size always throws; otherwise `allocates` says
whether `new` succeeds. The result is the returned value, or `none` when the
exception leaves the function, with the size already stored. -/
def init (queue : CDMQueue α) (nSize : Int) (allocates : Bool) :
    Except Fault (CDMQueue α × Option Bool) := do
  let sized := { queue with nSize := ← int (nSize + 1) }
  if 0 ≤ sized.nSize ∧ allocates then
    pure ({ sized with pArray := some (List.replicate sized.nSize.toNat none) }, some true)
  else pure (sized, none)

def pushBack (queue : CDMQueue α) (ptr : Option α) : Except Fault (CDMQueue α × Bool) := do
  let nUsed ← distance queue.nTail queue.nSize queue.nHead
  if nUsed ≥ (← int (queue.nSize - 1)) then
    pure (queue, false)
  else
    let pArray ← setCell queue.pArray queue.nTail ptr
    let nTail ← remainder (← int (queue.nTail + 1)) queue.nSize
    pure ({ queue with pArray, nTail }, true)

def popFront (queue : CDMQueue α) : Except Fault (CDMQueue α × Option α) := do
  let nUsed ← distance queue.nTail queue.nSize queue.nHead
  if 0 = nUsed then
    pure (queue, none)
  else
    let ptr ← cellAt queue.pArray queue.nHead
    let nHead ← remainder (← int (queue.nHead + 1)) queue.nSize
    pure ({ queue with nHead }, ptr)

def getUsedSize (queue : CDMQueue α) : Except Fault Int :=
  distance queue.nTail queue.nSize queue.nHead

end CDMQueue

end DmLockFree
