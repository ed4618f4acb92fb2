import DmLockFree.CDMQueue.Basic
import DmLockFree.Library.Machine
import Mathlib.Algebra.GroupWithZero.Nat
import Mathlib.Data.Fin.Basic
import Mathlib.Logic.Function.Basic

/-!
# `CDMQueueThreadPool`

`N` workers over a pipeline of `N` queues, one client and the thread that runs
the destructor. Every call of `PushBack`, `PopFront` and `GetUsedSize`, every
read of `running` and every call of `OnProcessTask` is one step.
-/

set_option autoImplicit false

namespace DmLockFree.CDMQueueThreadPool

open Library

/-- Where a worker stands in `ThreadFunction` and `ProcessTask`. -/
inductive Worker (α : Type) where
  | readRunning
  | popFront
  | getUsedSize (task : α)
  | pushBack (task : α)
  | onProcessTask (task : α)
  | exited
  deriving DecidableEq, Repr

/-- The thread of `~CDMQueueThreadPool`: it joins the workers in order. -/
inductive Destructor where
  | notEntered
  | joining (thread : Nat)
  | returned
  deriving DecidableEq, Repr

variable {α : Type} {N : Nat}

structure State (α : Type) (N : Nat) where
  queues : Fin N → CDMQueue α
  running : Bool
  workers : Fin N → Worker α
  destructor : Destructor

def State.setQueue (state : State α N) (id : Fin N) (queue : CDMQueue α) : State α N :=
  { state with queues := Function.update state.queues id queue }

def State.setWorker (state : State α N) (id : Fin N) (worker : Worker α) : State α N :=
  { state with workers := Function.update state.workers id worker }

inductive Label (α : Type) (N : Nat) where
  | client (ptr : Option α)
  | worker (id : Fin N)
  | destructor
  deriving DecidableEq, Repr

inductive Event (α : Type) (N : Nat) where
  | silent
  | pushTask (ptr : Option α) (accepted : Bool)
  | forwarded (id : Fin N) (task : α) (accepted : Bool)
  | onProcessTask (id : Fin N) (task : α)
  | joined
  deriving DecidableEq, Repr

/-- For the numerals of two workers. -/
scoped instance twoWorkers : NeZero 2 := ⟨Nat.succ_ne_zero 1⟩

/-- A queue after the constructor's `Init(max_queue)`. -/
def initialQueue (Q : Nat) : CDMQueue α :=
  match CDMQueue.empty.init Q true with
  | .ok (queue, _) => queue
  | .error _ => CDMQueue.empty

/-- `QueueSize > max_queue / N`: the comparison converts the `int` to `size_t`. -/
def shouldBalanceLoad (N Q : Nat) (queueSize : Int) : Bool :=
  (queueSize % 2 ^ 64).toNat > Q / N

/-- Entry of `ProcessTask`: the last worker never looks at another queue. -/
def processTask (id : Fin N) (task : α) : Worker α :=
  if id.val < N - 1 then .getUsedSize task else .onProcessTask task

def stepWorker (Q : Nat) (state : State α N) (id : Fin N) : Option (State α N × Event α N) :=
  match state.workers id with
  | .readRunning =>
      some (state.setWorker id (if state.running then .popFront else .exited), .silent)
  | .popFront =>
      match (state.queues id).popFront with
      | .ok (queue, none) => some ((state.setQueue id queue).setWorker id .readRunning, .silent)
      | .ok (queue, some task) =>
          some ((state.setQueue id queue).setWorker id (processTask id task), .silent)
      | .error _ => none
  | .getUsedSize task =>
      if next : id.val + 1 < N then
        match (state.queues ⟨id.val + 1, next⟩).getUsedSize with
        | .ok queueSize =>
            some (state.setWorker id
              (if shouldBalanceLoad N Q queueSize then .onProcessTask task else .pushBack task),
              .silent)
        | .error _ => none
      else none
  | .pushBack task =>
      if next : id.val + 1 < N then
        match (state.queues ⟨id.val + 1, next⟩).pushBack (some task) with
        -- The result of `PushBack` is dropped.
        | .ok (queue, accepted) =>
            some ((state.setQueue ⟨id.val + 1, next⟩ queue).setWorker id .readRunning,
              .forwarded id task accepted)
        | .error _ => none
      else none
  | .onProcessTask task => some (state.setWorker id .readRunning, .onProcessTask id task)
  | .exited => none

def stepDestructor (state : State α N) : Option (State α N × Event α N) :=
  match state.destructor with
  | .notEntered => some ({ state with running := false, destructor := .joining 0 }, .silent)
  | .joining thread =>
      if alive : thread < N then
        if state.workers ⟨thread, alive⟩ matches .exited then
          some ({ state with destructor := .joining (thread + 1) }, .silent)
        else none
      else some ({ state with destructor := .returned }, .joined)
  | .returned => none

def stepClient [NeZero N] (state : State α N) (ptr : Option α) :
    Option (State α N × Event α N) :=
  if state.destructor = .returned then none
  else
    match (state.queues 0).pushBack ptr with
    | .ok (queue, accepted) => some (state.setQueue 0 queue, .pushTask ptr accepted)
    | .error _ => none

def machine (α : Type) (N Q : Nat) [NeZero N] : Machine (State α N) (Label α N) (Event α N) where
  start := {
    queues := fun _ => initialQueue Q
    running := true
    workers := fun _ => .readRunning
    destructor := .notEntered }
  step state
    | .client ptr => stepClient state ptr
    | .worker id => stepWorker Q state id
    | .destructor => stepDestructor state

end DmLockFree.CDMQueueThreadPool
