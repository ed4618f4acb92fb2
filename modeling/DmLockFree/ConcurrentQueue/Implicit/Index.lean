import DmLockFree.ConcurrentQueue.Circular

/-!
# The block index of `ImplicitProducer`

The entries of the blocks stand in a ring. A larger ring takes over the entries of
the one before; who still reads the old ring finds the same entries in it.
-/

set_option autoImplicit false

namespace DmLockFree.ConcurrentQueue

def INVALID_BLOCK_BASE : UInt64 := 1

def IMPLICIT_INITIAL_INDEX_SIZE : UInt64 := 32

structure BlockIndexEntry where
  key : UInt64
  value : Option Nat
  deriving DecidableEq, Repr

/-- `index` has pointers to entries. -/
structure BlockIndexHeader where
  capacity : UInt64
  index : List Nat
  deriving DecidableEq, Repr

/-- Headers and entries are never freed before the producer; a pointer to one is its
place in the list of those that were allocated. `tails` has the tail of every header. -/
structure BlockIndex where
  nextBlockIndexCapacity : UInt64
  blockIndex : Option Nat
  headers : List BlockIndexHeader
  tails : Nat → UInt64
  entries : List BlockIndexEntry

namespace BlockIndexHeader

def mask (header : BlockIndexHeader) (position : UInt64) : UInt64 :=
  position &&& (header.capacity - 1)

/-- `index[position]`; `none` is an access outside. -/
def entry (header : BlockIndexHeader) (position : UInt64) : Option Nat :=
  header.index[position.toNat]?

/-- Where the block of `base` is when the tail has the one of `tailBase`. The
difference is divided as an unsigned number, `BLOCK_SIZE` being one. -/
def locate (header : BlockIndexHeader) (tail tailBase base : UInt64) : UInt64 :=
  header.mask (tail + (base - tailBase) / BLOCK_SIZE)

end BlockIndexHeader

namespace BlockIndex

def construct : BlockIndex where
  nextBlockIndexCapacity := IMPLICIT_INITIAL_INDEX_SIZE
  blockIndex := none
  headers := []
  tails := fun _ => 0
  entries := []

def header (index : BlockIndex) (pointer : Nat) : Option BlockIndexHeader :=
  index.headers[pointer]?

def setTail (index : BlockIndex) (pointer : Nat) (tail : UInt64) : BlockIndex :=
  { index with tails := Function.update index.tails pointer tail }

def setKey (index : BlockIndex) (entry : Nat) (key : UInt64) : BlockIndex :=
  { index with entries := index.entries.modify entry fun old => { old with key } }

def setValue (index : BlockIndex) (entry : Nat) (value : Option Nat) : BlockIndex :=
  { index with entries := index.entries.modify entry fun old => { old with value } }

/-- The pointers of the previous ring, from the one behind its tail on. -/
def previous (index : BlockIndex) : List Nat :=
  match index.blockIndex with
  | none => []
  | some pointer =>
      match index.header pointer with
      | none => []
      | some header => header.index.rotate ((index.tails pointer).toNat + 1)

def prevCapacity (index : BlockIndex) : UInt64 :=
  match index.blockIndex with
  | none => 0
  | some pointer => ((index.header pointer).map BlockIndexHeader.capacity).getD 0

/-- `new_block_index`, its allocation having succeeded. -/
def newBlockIndex (index : BlockIndex) : BlockIndex :=
  let entryCount := if index.blockIndex = none then index.nextBlockIndexCapacity
    else index.prevCapacity
  let header : BlockIndexHeader :=
    { capacity := index.nextBlockIndexCapacity
      index := index.previous ++ List.range' index.entries.length entryCount.toNat }
  { nextBlockIndexCapacity := index.nextBlockIndexCapacity <<< 1
    blockIndex := some index.headers.length
    headers := index.headers ++ [header]
    tails := Function.update index.tails index.headers.length
      ((index.prevCapacity - 1) &&& (index.nextBlockIndexCapacity - 1))
    entries := index.entries ++
      List.replicate entryCount.toNat ⟨INVALID_BLOCK_BASE, none⟩ }

end BlockIndex

end DmLockFree.ConcurrentQueue
