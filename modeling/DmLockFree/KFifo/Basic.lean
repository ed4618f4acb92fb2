import DmLockFree.KFifo.Capacity
import DmLockFree.Library.Block

/-!
# `KFifo`

The byte fifo for one thread. A result `none` is a `memcpy` whose range leaves
an array.
-/

set_option autoImplicit false

namespace DmLockFree

open Library

structure KFifo where
  buffer : List UInt8
  capacity : UInt32
  mask : UInt32
  inIdx : UInt32
  outIdx : UInt32
  deriving DecidableEq, Repr

namespace KFifo

def construct (requestedCapacity : UInt32) : Option KFifo :=
  (chosenCapacity requestedCapacity).map fun capacity =>
    { buffer := List.replicate capacity.toNat 0
      capacity
      mask := capacity - 1
      inIdx := 0
      outIdx := 0 }

theorem construct_exists {requestedCapacity : UInt32} (positive : 0 < requestedCapacity) :
    ∃ fifo, construct requestedCapacity = some fifo := by
  have nonzero : requestedCapacity ≠ 0 := by
    intro same
    subst same
    exact absurd positive (by decide)
  rw [construct, chosenCapacity, if_neg nonzero]
  exact ⟨_, rfl⟩

def len (fifo : KFifo) : UInt32 := fifo.inIdx - fifo.outIdx

def avail (fifo : KFifo) : UInt32 := fifo.capacity - fifo.len

def isEmpty (fifo : KFifo) : Bool := fifo.inIdx == fifo.outIdx

def isFull (fifo : KFifo) : Bool := fifo.len == fifo.capacity

def reset (fifo : KFifo) : KFifo := { fifo with inIdx := 0, outIdx := 0 }

def put (fifo : KFifo) (data : List UInt8) (len : UInt32) : Option (KFifo × UInt32) :=
  let writeLen := min len fifo.avail
  if writeLen = 0 then some (fifo, 0)
  else
    let offset := fifo.inIdx &&& fifo.mask
    let l := min writeLen (fifo.capacity - offset)
    (memcpy fifo.buffer offset.toNat data 0 l.toNat).bind fun buffer =>
      (if l < writeLen then memcpy buffer 0 data l.toNat (writeLen - l).toNat
        else some buffer).map fun buffer =>
          ({ fifo with buffer, inIdx := fifo.inIdx + writeLen }, writeLen)

/-- The body that `get` and `peek` share: the caller's buffer and `read_len`. -/
def copyOut (fifo : KFifo) (data : List UInt8) (len : UInt32) : Option (List UInt8 × UInt32) :=
  let readLen := min len fifo.len
  if readLen = 0 then some (data, 0)
  else
    let offset := fifo.outIdx &&& fifo.mask
    let l := min readLen (fifo.capacity - offset)
    (memcpy data 0 fifo.buffer offset.toNat l.toNat).bind fun data =>
      (if l < readLen then memcpy data l.toNat fifo.buffer 0 (readLen - l).toNat
        else some data).map fun data => (data, readLen)

/-- With `read_len == 0` the source returns before the addition. -/
def get (fifo : KFifo) (data : List UInt8) (len : UInt32) :
    Option (KFifo × List UInt8 × UInt32) :=
  (fifo.copyOut data len).map fun (data, readLen) =>
    ({ fifo with outIdx := fifo.outIdx + readLen }, data, readLen)

def peek (fifo : KFifo) (data : List UInt8) (len : UInt32) : Option (List UInt8 × UInt32) :=
  fifo.copyOut data len

end KFifo

end DmLockFree
