import DmLockFree.Library.Machine
import DmLockFree.Library.Monitor

/-!
# `ThreadSafeQueue`

A `std::queue` behind a mutex and a condition variable, with any number of
threads. Taking and releasing the mutex, each call on `queue_`, `notify_one` and
the two halves of `wait` are steps of their own.
-/

set_option autoImplicit false

namespace DmLockFree.ThreadSafeQueue

open Library

variable {T Thread : Type}

inductive Request (T : Type) where
  | push (value : T)
  | pop
  | tryPop
  | empty
  deriving DecidableEq, Repr

/-- What a call returns: nothing, or a flag. -/
inductive Response where
  | done
  | flag (ret : Bool)
  deriving DecidableEq, Repr

/-- Where a thread stands in a member function. `testPop` is the predicate of
`wait`; `front` and `popFront` end both `pop` and `try_pop`. -/
inductive Pc (T : Type) where
  | idle
  | lock (request : Request T)
  | pushBack (value : T)
  | notifyOne
  | testPop
  | wait
  | blocked
  | testTryPop
  | testEmpty
  | front (response : Response)
  | popFront (response : Response) (value : T)
  | unlock (response : Response)

/-- The first access under the lock. -/
def Request.entry : Request T → Pc T
  | .push value => .pushBack value
  | .pop => .testPop
  | .tryPop => .testTryPop
  | .empty => .testEmpty

structure State (T Thread : Type) where
  mutex : Option Thread
  queue : List T
  condVar : ConditionVariable Thread
  pc : Thread → Pc T

/-- Besides the calls and the accesses of the threads, the environment chooses
whom `notify_one` wakes and which sleeper wakes spuriously. -/
inductive Label (T Thread : Type) where
  | call (thread : Thread) (request : Request T)
  | run (thread : Thread)
  | notify (thread : Thread) (chosen : Finset Thread)
  | wake (thread : Thread)

/-- `undefined` is `front` or `pop` of an empty `std::queue`. -/
inductive Event (T Thread : Type) where
  | silent
  | pushed (thread : Thread) (value : T)
  | removed (thread : Thread) (value : T)
  | undefined (thread : Thread)
  | returned (thread : Thread) (response : Response)

variable [DecidableEq Thread]

def State.setPc (state : State T Thread) (thread : Thread) (pc : Pc T) : State T Thread :=
  { state with pc := Function.update state.pc thread pc }

def advance (state : State T Thread) (thread : Thread) :
    Option (State T Thread × Event T Thread) :=
  match state.pc thread with
  | .idle | .notifyOne => none
  | .lock request =>
      if state.mutex = none then
        some ({ state with mutex := some thread }.setPc thread request.entry, .silent)
      else none
  | .pushBack value =>
      some ({ state with queue := state.queue ++ [value] }.setPc thread .notifyOne,
        .pushed thread value)
  | .testPop =>
      if state.queue.isEmpty then some (state.setPc thread .wait, .silent)
      else some (state.setPc thread (.front .done), .silent)
  -- the release of the mutex and the start of the wait are one step
  | .wait =>
      some ({ state with mutex := none, condVar := state.condVar.wait thread }.setPc thread .blocked,
        .silent)
  | .blocked =>
      if thread ∈ state.condVar.woken ∧ state.mutex = none then
        some ({ state with mutex := some thread, condVar := state.condVar.leave thread }.setPc
          thread .testPop, .silent)
      else none
  | .testTryPop =>
      if state.queue.isEmpty then some (state.setPc thread (.unlock (.flag false)), .silent)
      else some (state.setPc thread (.front (.flag true)), .silent)
  | .testEmpty =>
      some (state.setPc thread (.unlock (.flag state.queue.isEmpty)), .silent)
  | .front response =>
      match state.queue with
      | [] => some (state, .undefined thread)
      | value :: _ => some (state.setPc thread (.popFront response value), .silent)
  | .popFront response value =>
      match state.queue with
      | [] => some (state, .undefined thread)
      | _ :: rest =>
          some ({ state with queue := rest }.setPc thread (.unlock response),
            .removed thread value)
  | .unlock response =>
      some ({ state with mutex := none }.setPc thread .idle, .returned thread response)

def machine (T Thread : Type) [DecidableEq Thread] :
    Machine (State T Thread) (Label T Thread) (Event T Thread) where
  start := ⟨none, [], .empty, fun _ => .idle⟩
  step state
    | .call thread request =>
        match state.pc thread with
        | .idle => some (state.setPc thread (.lock request), .silent)
        | _ => none
    | .run thread => advance state thread
    | .notify thread chosen =>
        match state.pc thread with
        | .notifyOne =>
            if state.condVar.Notifies chosen then
              some ({ state with condVar := state.condVar.wake chosen }.setPc thread (.unlock .done),
                .silent)
            else none
        | _ => none
    | .wake thread =>
        if thread ∈ state.condVar.waiting then
          some ({ state with condVar := state.condVar.wake {thread} }, .silent)
        else none

end DmLockFree.ThreadSafeQueue
