import DmLockFree.CDMQueue.Basic
import DmLockFree.Library.Machine
import Mathlib.Logic.Function.Basic

/-!
# `CDMMutexQueue`

A `CDMQueue` and an initialised flag behind one mutex, with any number of
threads. Every member function takes the lock, tests the flag, works on
`m_queue` and releases the lock; each of these is a step of its own.
-/

set_option autoImplicit false

namespace DmLockFree.CDMMutexQueue

open Library

variable {α Thread : Type}

/-- A call. For `Init` the environment also says whether `new` succeeds. -/
inductive Request (α : Type) where
  | init (nSize : Int) (allocates : Bool)
  | pushBack (ptr : Option α)
  | popFront
  | getUsedSize
  deriving DecidableEq, Repr

inductive Response (α : Type) where
  | flag (ret : Bool)
  | pointer (ptr : Option α)
  | count (used : Int)
  | threw
  deriving DecidableEq, Repr

/-- The early return on `m_bInitialized`, if the call takes it. -/
def earlyReturn (bInitialized : Bool) : Request α → Option (Response α)
  | .init _ _ => if bInitialized then some (.flag false) else none
  | .pushBack _ => if bInitialized then none else some (.flag false)
  | .popFront => if bInitialized then none else some (.pointer none)
  | .getUsedSize => if bInitialized then none else some (.count 0)

/-- The call on `m_queue`. -/
def onQueue (queue : CDMQueue α) : Request α → Except Fault (CDMQueue α × Response α)
  | .init nSize allocates => do
      match ← queue.init nSize allocates with
      | (queue, some ret) => pure (queue, .flag ret)
      | (queue, none) => pure (queue, .threw)
  | .pushBack ptr => do
      let (queue, ret) ← queue.pushBack ptr
      pure (queue, .flag ret)
  | .popFront => do
      let (queue, ptr) ← queue.popFront
      pure (queue, .pointer ptr)
  | .getUsedSize => do pure (queue, .count (← queue.getUsedSize))

/-- `if (ret)` of `Init`, the test before `m_bInitialized = true`. -/
def initializes : Request α → Response α → Bool
  | .init _ _, .flag ret => ret
  | _, _ => false

/-- Where a thread stands in a member function. -/
inductive Pc (α : Type) where
  | idle
  | lock (request : Request α)
  | testInitialized (request : Request α)
  | callQueue (request : Request α)
  | setInitialized (request : Request α) (response : Response α)
  | unlock (response : Except Fault (Response α))

structure State (α Thread : Type) where
  queue : CDMQueue α
  bInitialized : Bool
  mutex : Option Thread
  pc : Thread → Pc α

inductive Label (α Thread : Type) where
  | call (thread : Thread) (request : Request α)
  | run (thread : Thread)

inductive Event (α Thread : Type) where
  | silent
  | performed (thread : Thread) (request : Request α) (response : Except Fault (Response α))
  | returned (thread : Thread) (response : Except Fault (Response α))

variable [DecidableEq Thread]

def State.setPc (state : State α Thread) (thread : Thread) (pc : Pc α) : State α Thread :=
  { state with pc := Function.update state.pc thread pc }

/-- The step in which a call settles its result. -/
def State.perform (state : State α Thread) (thread : Thread) (request : Request α)
    (response : Except Fault (Response α)) : State α Thread × Event α Thread :=
  (state.setPc thread (.unlock response), .performed thread request response)

def advance (state : State α Thread) (thread : Thread) :
    Option (State α Thread × Event α Thread) :=
  match state.pc thread with
  | .idle => none
  | .lock request =>
      if state.mutex = none then
        some ({ state with mutex := some thread }.setPc thread (.testInitialized request), .silent)
      else none
  | .testInitialized request =>
      match earlyReturn state.bInitialized request with
      | some response => some (state.perform thread request (.ok response))
      | none => some (state.setPc thread (.callQueue request), .silent)
  | .callQueue request =>
      match onQueue state.queue request with
      | .error fault => some (state.perform thread request (.error fault))
      | .ok (queue, response) =>
          if initializes request response then
            some ({ state with queue }.setPc thread (.setInitialized request response), .silent)
          else some ({ state with queue }.perform thread request (.ok response))
  | .setInitialized request response =>
      some ({ state with bInitialized := true }.perform thread request (.ok response))
  | .unlock response =>
      some ({ state with mutex := none }.setPc thread .idle, .returned thread response)

/-- The sizes for which `Init` is called: an `int` below `2 ^ 30`. -/
def Request.Sized : Request α → Prop
  | .init nSize _ => -2 ^ 31 ≤ nSize ∧ nSize < 2 ^ 30
  | _ => True

instance : (request : Request α) → Decidable request.Sized
  | .init nSize _ => inferInstanceAs (Decidable (-2 ^ 31 ≤ nSize ∧ nSize < 2 ^ 30))
  | .pushBack _ | .popFront | .getUsedSize => inferInstanceAs (Decidable True)

def machine (α Thread : Type) [DecidableEq Thread] :
    Machine (State α Thread) (Label α Thread) (Event α Thread) where
  start := {
    queue := CDMQueue.empty
    bInitialized := false
    mutex := none
    pc := fun _ => .idle }
  step state
    | .call thread request =>
        match state.pc thread with
        | .idle =>
            if request.Sized then some (state.setPc thread (.lock request), .silent) else none
        | _ => none
    | .run thread => advance state thread

end DmLockFree.CDMMutexQueue
