import DmLockFree.KFifo.Capacity
import DmLockFree.Library.Block
import DmLockFree.Library.Machine

/-!
# `AtomicKFifo`

The object, the program of each member function with one step for every atomic
load, every `memcpy` and every atomic store, and the machine of two threads
that share the object under sequentially consistent memory.
-/

set_option autoImplicit false

namespace DmLockFree

open Library

structure AtomicKFifo where
  buffer : List UInt8
  capacity : UInt32
  mask : UInt32
  inIdx : UInt32
  outIdx : UInt32
  deriving DecidableEq, Repr

namespace AtomicKFifo

def construct (requestedCapacity : UInt32) : Option AtomicKFifo :=
  (KFifo.chosenCapacity requestedCapacity).map fun capacity =>
    { buffer := List.replicate capacity.toNat 0
      capacity
      mask := capacity - 1
      inIdx := 0
      outIdx := 0 }

/-- The locals of `put`, `get` and `peek` once the length to move is known:
the caller's arguments, the thread's own index and `actual_*_len`. -/
structure Transfer where
  data : List UInt8
  len : UInt32
  index : UInt32
  actual : UInt32
  deriving DecidableEq, Repr

def Transfer.offset (transfer : Transfer) (fifo : AtomicKFifo) : UInt32 :=
  transfer.index &&& fifo.mask

/-- The length `l` of the first `memcpy`. -/
def Transfer.segment (transfer : Transfer) (fifo : AtomicKFifo) : UInt32 :=
  min transfer.actual (fifo.capacity - transfer.offset fifo)

inductive Read where
  | get
  | peek
  deriving DecidableEq, Repr

/-- The observers that load `in_idx_` first; `isEmpty` compares two loads whose
order the language leaves open. -/
inductive Observer where
  | isEmpty
  | isFull
  | len
  | avail
  deriving DecidableEq, Repr

inductive Call where
  | put (data : List UInt8) (len : UInt32)
  | read (kind : Read) (data : List UInt8) (len : UInt32)
  | observe (observer : Observer)
  | isEmptyOutFirst
  | reset
  deriving DecidableEq, Repr

inductive Return where
  | put (data : List UInt8) (count : UInt32)
  | read (kind : Read) (data : List UInt8) (count : UInt32)
  | flag (observer : Observer) (value : Bool)
  | count (observer : Observer) (value : UInt32)
  | reset
  deriving DecidableEq, Repr

/-- Program points: each names the access to shared memory that comes next. -/
inductive Pc where
  | idle
  | putLoadIn (data : List UInt8) (len : UInt32)
  | putLoadOut (data : List UInt8) (len currentIn : UInt32)
  | putCopy (transfer : Transfer)
  | putCopyRest (transfer : Transfer)
  | putStore (transfer : Transfer)
  | readLoadOut (kind : Read) (data : List UInt8) (len : UInt32)
  | readLoadIn (kind : Read) (data : List UInt8) (len currentOut : UInt32)
  | readCopy (kind : Read) (transfer : Transfer)
  | readCopyRest (kind : Read) (transfer : Transfer)
  | getStore (transfer : Transfer)
  | observeIn (observer : Observer)
  | observeOut (observer : Observer) (currentIn : UInt32)
  | isEmptyOut
  | isEmptyIn (currentOut : UInt32)
  | resetIn
  | resetOut
  deriving DecidableEq, Repr

def Call.entry : Call → Pc
  | .put data len => .putLoadIn data len
  | .read kind data len => .readLoadOut kind data len
  | .observe observer => .observeIn observer
  | .isEmptyOutFirst => .isEmptyOut
  | .reset => .resetIn

/-- The caller owns at least `len` bytes at `data`. -/
def Call.Supplied : Call → Prop
  | .put data len | .read _ data len => len.toNat ≤ data.length
  | _ => True

instance (call : Call) : Decidable call.Supplied := by
  cases call <;> unfold Call.Supplied <;> infer_instance

/-- What an observer computes from its two loads. -/
def Observer.result (fifo : AtomicKFifo) (currentIn currentOut : UInt32) : Observer → Return
  | .isEmpty => .flag .isEmpty (currentIn == currentOut)
  | .isFull => .flag .isFull (currentIn - currentOut == fifo.capacity)
  | .len => .count .len (currentIn - currentOut)
  | .avail => .count .avail (fifo.capacity - (currentIn - currentOut))

/-- After the last `memcpy`: `get` goes on to its store, `peek` returns. -/
def Read.finish (transfer : Transfer) : Read → Pc × Option Return
  | .get => (.getStore transfer, none)
  | .peek => (.idle, some (.read .peek transfer.data transfer.actual))

/-- One access of the running call. There is no step at `idle`, and none out of
a `memcpy` whose range leaves an array. -/
def advance (fifo : AtomicKFifo) : Pc → Option (AtomicKFifo × Pc × Option Return)
  | .idle => none
  | .putLoadIn data len => some (fifo, .putLoadOut data len fifo.inIdx, none)
  | .putLoadOut data len currentIn =>
      let currentLength := currentIn - fifo.outIdx
      let freeSpace := fifo.capacity - currentLength
      let actual := min len freeSpace
      if actual = 0 then some (fifo, .idle, some (.put data 0))
      else some (fifo, .putCopy ⟨data, len, currentIn, actual⟩, none)
  | .putCopy transfer =>
      let l := transfer.segment fifo
      (memcpy fifo.buffer (transfer.offset fifo).toNat transfer.data 0 l.toNat).map fun buffer =>
        ({ fifo with buffer },
          if l < transfer.actual then .putCopyRest transfer else .putStore transfer, none)
  | .putCopyRest transfer =>
      let l := transfer.segment fifo
      (memcpy fifo.buffer 0 transfer.data l.toNat (transfer.actual - l).toNat).map fun buffer =>
        ({ fifo with buffer }, .putStore transfer, none)
  | .putStore transfer =>
      some ({ fifo with inIdx := transfer.index + transfer.actual }, .idle,
        some (.put transfer.data transfer.actual))
  | .readLoadOut kind data len => some (fifo, .readLoadIn kind data len fifo.outIdx, none)
  | .readLoadIn kind data len currentOut =>
      let currentDataLen := fifo.inIdx - currentOut
      let actual := min len currentDataLen
      if actual = 0 then some (fifo, .idle, some (.read kind data 0))
      else some (fifo, .readCopy kind ⟨data, len, currentOut, actual⟩, none)
  | .readCopy kind transfer =>
      let l := transfer.segment fifo
      (memcpy transfer.data 0 fifo.buffer (transfer.offset fifo).toNat l.toNat).map fun data =>
        let transfer := { transfer with data }
        if l < transfer.actual then (fifo, .readCopyRest kind transfer, none)
        else (fifo, kind.finish transfer)
  | .readCopyRest kind transfer =>
      let l := transfer.segment fifo
      (memcpy transfer.data l.toNat fifo.buffer 0 (transfer.actual - l).toNat).map fun data =>
        (fifo, kind.finish { transfer with data })
  | .getStore transfer =>
      some ({ fifo with outIdx := transfer.index + transfer.actual }, .idle,
        some (.read .get transfer.data transfer.actual))
  | .observeIn observer => some (fifo, .observeOut observer fifo.inIdx, none)
  | .observeOut observer currentIn =>
      some (fifo, .idle, some (observer.result fifo currentIn fifo.outIdx))
  | .isEmptyOut => some (fifo, .isEmptyIn fifo.outIdx, none)
  | .isEmptyIn currentOut =>
      some (fifo, .idle, some (Observer.isEmpty.result fifo fifo.inIdx currentOut))
  | .resetIn => some ({ fifo with inIdx := 0 }, .resetOut, none)
  | .resetOut => some ({ fifo with outIdx := 0 }, .idle, some .reset)

inductive Thread where
  | producer
  | consumer
  deriving DecidableEq, Repr

structure State where
  fifo : AtomicKFifo
  producer : Pc
  consumer : Pc
  deriving DecidableEq, Repr

def State.pc (state : State) : Thread → Pc
  | .producer => state.producer
  | .consumer => state.consumer

def State.moved (state : State) (fifo : AtomicKFifo) (pc : Pc) : Thread → State
  | .producer => { state with fifo, producer := pc }
  | .consumer => { state with fifo, consumer := pc }

inductive Label where
  | call (thread : Thread) (call : Call)
  | run (thread : Thread)
  deriving DecidableEq, Repr

structure Event where
  thread : Thread
  returned : Option Return
  deriving DecidableEq, Repr

def step (state : State) : Label → Option (State × Event)
  | .call thread call =>
      if state.pc thread = .idle ∧ call.Supplied then
        some (state.moved state.fifo call.entry thread, ⟨thread, none⟩)
      else none
  | .run thread =>
      (advance state.fifo (state.pc thread)).map fun (fifo, pc, returned) =>
        (state.moved fifo pc thread, ⟨thread, returned⟩)

/-- Which member functions each of the two threads calls. -/
abbrev Roles := Thread → Call → Bool

def Roles.Permits (roles : Roles) : Label → Prop
  | .call thread call => roles thread call = true
  | .run _ => True

instance (roles : Roles) (label : Label) : Decidable (roles.Permits label) := by
  cases label <;> unfold Roles.Permits <;> infer_instance

/-- Two threads on one object, in any interleaving of their accesses. -/
def machine (roles : Roles) (fifo : AtomicKFifo) : Machine State Label Event :=
  Machine.restrict { start := ⟨fifo, .idle, .idle⟩, step } fun _ label => roles.Permits label

/-- The producer puts; the consumer gets and peeks. -/
def transferRoles : Roles
  | .producer, .put _ _ => true
  | .consumer, .read _ _ _ => true
  | _, _ => false

/-- As `transferRoles`, and each thread may call every observer. -/
def steadyRoles : Roles
  | .producer, .put _ _ => true
  | .consumer, .read _ _ _ => true
  | _, .observe _ | _, .isEmptyOutFirst => true
  | _, _ => false

end AtomicKFifo

end DmLockFree
