import Mathlib.Data.BitVec
import Mathlib.Data.UInt

/-!
# `CDMRapidPool` and `CDynamicRapidPool`

A chunk threads the list of its free slots through the headers of the slots; a
pool owns one chunk and grows by further ones. The constructor and the
destructor of `T` run behind the last statement of `fetchObj` and `releaseObj`
and are not part of them.
-/

set_option autoImplicit false

namespace DmLockFree

/-- How a call ends that does not return. -/
inductive Stop where
  | abort
  | assertion
  /-- An access outside the memory of the pool. -/
  | undefined
  deriving DecidableEq, Repr

/-- `assert`, in a build with or without assertions. -/
def check (asserts condition : Bool) : Except Stop Unit :=
  if asserts && !condition then .error .assertion else .ok ()

structure SRapidData where
  dwUse : Bool
  dwIndex : BitVec 15
  dwFlag : BitVec 16
  deriving DecidableEq, Repr

/-- A chunk of `S` slots. -/
structure CDMRapidPool (S : Nat) where
  wIndex : UInt16
  wFirstFlag : UInt16
  qwFreeCount : UInt64
  stRapidData : List SRapidData
  deriving DecidableEq, Repr

/-- What a pointer is to a chunk: one of its slots, or something else, at a
distance that only the addresses know. -/
inductive Target where
  | slot (index : Nat)
  | elsewhere (distance : UInt16)
  deriving DecidableEq, Repr

/-- `p - m_stRapidData`, stored in 16 bits. -/
def Target.distance : Target → UInt16
  | .slot index => UInt16.ofNat index
  | .elsewhere distance => distance

def Target.isInside (S : Nat) : Target → Bool
  | .slot index => index < S
  | .elsewhere _ => false

namespace CDMRapidPool

variable {S : Nat}

/-- The constructor. -/
def construct (S : Nat) (wIndex : UInt16) : CDMRapidPool S where
  wIndex
  wFirstFlag := 0
  qwFreeCount := UInt64.ofNat S
  stRapidData := (List.range S).map fun i =>
    { dwUse := false, dwIndex := wIndex.toBitVec.setWidth 15, dwFlag := BitVec.ofNat 16 (i + 1) }

def getFreeCount (pool : CDMRapidPool S) : UInt64 := pool.qwFreeCount

def getMallocCount (_ : CDMRapidPool S) : UInt64 := UInt64.ofNat S

def empty (pool : CDMRapidPool S) : Bool := 0 == pool.qwFreeCount

def ownIndex (pool : CDMRapidPool S) (p : SRapidData) : Bool :=
  p.dwIndex.toNat == pool.wIndex.toNat

def fetchObj (asserts : Bool) (pool : CDMRapidPool S) :
    Except Stop (Option Nat × CDMRapidPool S) := do
  if pool.empty then
    return (none, pool)
  check asserts (pool.wFirstFlag.toNat < S)
  let slot := pool.wFirstFlag.toNat
  let some p := pool.stRapidData[slot]? | .error .undefined
  if p.dwUse then
    .error .abort
  check asserts (pool.ownIndex p)
  let pool : CDMRapidPool S := { pool with
    wFirstFlag := UInt16.ofBitVec p.dwFlag
    qwFreeCount := pool.qwFreeCount - 1
    stRapidData := pool.stRapidData.set slot { p with dwUse := true } }
  check asserts (pool.qwFreeCount.toNat ≤ S)
  return (some slot, pool)

/-- `ReleaseObj` for the slot with header `p`: the new chunk and the new header. -/
def releaseObj (asserts : Bool) (pool : CDMRapidPool S) (p : SRapidData) (target : Target) :
    Except Stop (CDMRapidPool S × SRapidData) := do
  if !p.dwUse then
    .error .abort
  check asserts (pool.ownIndex p)
  check asserts (target.isInside S)
  let p := { p with dwFlag := pool.wFirstFlag.toBitVec }
  let pool := { pool with
    wFirstFlag := target.distance
    qwFreeCount := pool.qwFreeCount + 1 }
  let p := { p with dwUse := false }
  check asserts (pool.qwFreeCount.toNat ≤ S)
  return (pool, p)

def setHeader (pool : CDMRapidPool S) (slot : Nat) (p : SRapidData) : CDMRapidPool S :=
  { pool with stRapidData := pool.stRapidData.set slot p }

end CDMRapidPool

/-- A slot of a pool. Chunk 0 is the default chunk, chunk `i + 1` the one at
`m_arrGrowRapidPool[i]`. -/
structure Slot where
  chunk : Nat
  index : Nat
  deriving DecidableEq, Repr

/-- `arrGrowRapidPool` has `I` entries. -/
structure CDynamicRapidPool (S I : Nat) where
  oDefaultRapidPool : CDMRapidPool S
  arrGrowRapidPool : List (Option (CDMRapidPool S))
  deriving DecidableEq, Repr

namespace CDynamicRapidPool

variable {S I : Nat}

/-- The constructor. -/
def construct (S I : Nat) : CDynamicRapidPool S I where
  oDefaultRapidPool := .construct S 0
  arrGrowRapidPool := List.replicate I none

/-- The loop of `GetFreeCount`. -/
def freeCountFrom (qwFreeCount : UInt64) : List (Option (CDMRapidPool S)) → UInt64
  | some chunk :: rest => freeCountFrom (qwFreeCount + chunk.getFreeCount) rest
  | _ => qwFreeCount

def getFreeCount (pool : CDynamicRapidPool S I) : UInt64 :=
  freeCountFrom pool.oDefaultRapidPool.getFreeCount pool.arrGrowRapidPool

/-- The loop of `GetMallocCount`. -/
def mallocCountFrom (qwMallocCount : UInt64) : List (Option (CDMRapidPool S)) → UInt64
  | some chunk :: rest => mallocCountFrom (qwMallocCount + chunk.getMallocCount) rest
  | _ => qwMallocCount

def getMallocCount (pool : CDynamicRapidPool S I) : UInt64 :=
  mallocCountFrom pool.oDefaultRapidPool.getMallocCount pool.arrGrowRapidPool

/-- The loop of `FetchObj`, from entry `i` on. -/
def fetchGrown (asserts : Bool) (i : Nat) : List (Option (CDMRapidPool S)) →
    Except Stop (Option Slot × List (Option (CDMRapidPool S)))
  | [] => do
      check asserts false
      return (none, [])
  | entry :: rest => do
      let chunk := entry.getD (.construct S (UInt16.ofNat (i + 1)))
      if !chunk.empty then
        let (index, chunk) ← chunk.fetchObj asserts
        return (index.map (Slot.mk (i + 1)), some chunk :: rest)
      let (slot, rest) ← fetchGrown asserts (i + 1) rest
      return (slot, some chunk :: rest)

def fetchObj (asserts : Bool) (pool : CDynamicRapidPool S I) :
    Except Stop (Option Slot × CDynamicRapidPool S I) := do
  if !pool.oDefaultRapidPool.empty then
    let (index, chunk) ← pool.oDefaultRapidPool.fetchObj asserts
    return (index.map (Slot.mk 0), { pool with oDefaultRapidPool := chunk })
  let (slot, entries) ← fetchGrown asserts 0 pool.arrGrowRapidPool
  return (slot, { pool with arrGrowRapidPool := entries })

/-- `ReleaseObj` for a slot with header `p`, which lies at `target chunk` for
each chunk of this pool. -/
def releaseHeader (asserts : Bool) (pool : CDynamicRapidPool S I) (p : SRapidData)
    (target : Nat → Target) : Except Stop (CDynamicRapidPool S I × SRapidData) := do
  let number := p.dwIndex.toNat
  if 0 = number then
    let (chunk, p) ← pool.oDefaultRapidPool.releaseObj asserts p (target 0)
    return ({ pool with oDefaultRapidPool := chunk }, p)
  check asserts (number < I + 1)
  let some entry := pool.arrGrowRapidPool[number - 1]? | .error .undefined
  check asserts entry.isSome
  let some chunk := entry | .error .undefined
  let (chunk, p) ← chunk.releaseObj asserts p (target number)
  return ({ pool with arrGrowRapidPool := pool.arrGrowRapidPool.set (number - 1) (some chunk) }, p)

def chunk (pool : CDynamicRapidPool S I) : Nat → Option (CDMRapidPool S)
  | 0 => some pool.oDefaultRapidPool
  | i + 1 => pool.arrGrowRapidPool[i]?.join

/-- `*GetRapidData(obj)`. -/
def getRapidData (pool : CDynamicRapidPool S I) (slot : Slot) : Option SRapidData :=
  (pool.chunk slot.chunk).bind fun chunk => chunk.stRapidData[slot.index]?

def setRapidData (pool : CDynamicRapidPool S I) (slot : Slot) (p : SRapidData) :
    CDynamicRapidPool S I :=
  match slot.chunk with
  | 0 => { pool with oDefaultRapidPool := pool.oDefaultRapidPool.setHeader slot.index p }
  | i + 1 =>
      let write := Option.map fun chunk => chunk.setHeader slot.index p
      { pool with arrGrowRapidPool := pool.arrGrowRapidPool.modify i write }

/-- `ReleaseObj` for an object of this pool; `distance` is what the pointer
subtraction yields for a slot of another chunk. -/
def releaseObj (asserts : Bool) (distance : Nat → Slot → UInt16) (pool : CDynamicRapidPool S I) :
    Option Slot → Except Stop (CDynamicRapidPool S I)
  | none => .ok pool
  | some slot => do
      let some p := pool.getRapidData slot | .error .undefined
      let (pool, p) ← pool.releaseHeader asserts p fun chunk =>
        if chunk = slot.chunk then .slot slot.index else .elsewhere (distance chunk slot)
      return pool.setRapidData slot p

end CDynamicRapidPool

end DmLockFree
