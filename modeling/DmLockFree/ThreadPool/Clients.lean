import DmLockFree.CDMQueue.SharedSafety
import DmLockFree.ThreadPool.Basic

/-!
# Several clients

`PushTask` goes straight to queue 0, which worker 0 pops. Clients whose calls
overlap race for its tail; clients that take turns are one producer.
-/

set_option autoImplicit false

namespace DmLockFree.CDMQueueThreadPool.Clients

open Library CDMQueue

variable {α : Type} {clients : Nat}

/-- The threads that use queue 0. -/
inductive Party (clients : Nat) where
  | client (id : Fin clients)
  | worker
  deriving DecidableEq, Repr

/-- `PushTask` is `PushBack` on queue 0; nobody asks queue 0 for its size. -/
def Party.calls : Party clients → Goal α → Bool
  | .client _, .pushBack _ | .worker, .popFront => true
  | _, _ => false

/-- Queue 0 between the clients and worker 0, access by access. -/
def program (clients : Nat) (α : Type) :
    Program (Party clients) (CDMQueue α) (Pc α) (CDMQueue.Call α) (Output α) where
  idle := .idle
  enter
    | party, .idle, call =>
        if party.calls call.goal then some (.readFirst call.goal call.order) else none
    | _, _, _ => none
  advance := CDMQueue.advance

abbrev State (clients : Nat) (α : Type) := Threads (Party clients) (CDMQueue α) (Pc α)

abbrev Event (clients : Nat) (α : Type) :=
  Threads.Event (Party clients) (CDMQueue.Call α) (Output α)

/-- Which end of the queue the thread works at. -/
def Party.role : Party clients → Thread
  | .client _ => .producer
  | .worker => .consumer

/-- The tasks for which `PushTask` returned true. -/
def acceptedTasks (events : List (Event clients α)) : List α :=
  accepted (events.map (Threads.Event.rename Party.role))

/-- The cell that a `PopFront` took: it returns with its write of `m_nHead`. -/
def takenCell : Output α → List (Option α)
  | ⟨.writeHead, some (.popFront ptr)⟩ => [ptr]
  | _ => []

/-- The cells that worker 0 took, in order. -/
def takenCells {Thread : Type}
    (events : List (Threads.Event Thread (CDMQueue.Call α) (Output α))) : List (Option α) :=
  events.flatMap fun event => event.output.elim [] takenCell

/-- The first accesses of a thread's call. -/
def Party.runs (party : Party clients) (accesses : Nat) :
    List (Threads.Label (Party clients) (CDMQueue.Call α)) :=
  List.replicate accesses (.run party)

/-- Two clients test the queue and read its tail before either writes the cell. -/
def bothAtTail : List (Threads.Label (Party 2) (CDMQueue.Call (Option Nat))) :=
  List.flatten [[.call (.client 0) ⟨.pushBack (some 1), .tailFirst⟩,
    .call (.client 1) ⟨.pushBack (some 2), .tailFirst⟩],
    Party.runs (.client 0) 3, Party.runs (.client 1) 3]

/-- Both write the cell, then both advance the tail from 0 to 1. -/
def sameCell : List (Threads.Label (Party 2) (CDMQueue.Call (Option Nat))) :=
  List.flatten [bothAtTail, Party.runs (.client 0) 1, Party.runs (.client 1) 1,
    Party.runs (.client 0) 1, Party.runs (.client 1) 1,
    Party.runs (.client 0) 1, Party.runs (.client 1) 1]

/-- One client finishes, the other overwrites its cell and advances the tail past
a cell that nobody wrote; worker 0 pops twice. -/
def pastUnwritten : List (Threads.Label (Party 2) (CDMQueue.Call (Option Nat))) :=
  List.flatten [bothAtTail, Party.runs (.client 0) 3, Party.runs (.client 1) 3,
    [.call .worker ⟨.popFront, .tailFirst⟩], Party.runs .worker 6,
    [.call .worker ⟨.popFront, .tailFirst⟩], Party.runs .worker 6]

/-- Overlapping `PushTask` calls, a queue of two: two accepted tasks of which one
is neither returned nor stored; and a pop that returns a cell no one wrote. -/
theorem pushTask_races :
    ∃ start : CDMQueue (Option Nat), CDMQueue.empty.init 2 true = .ok (start, some true) ∧
      (∃ events state, ((program 2 (Option Nat)).machine start).Run events state ∧
        acceptedTasks events = [some 1, some 2] ∧ takenCells events = [] ∧
        state.shared.contents = [some (some 2)]) ∧
      ∃ events state, ((program 2 (Option Nat)).machine start).Run events state ∧
        acceptedTasks events = [some 1, some 2] ∧ takenCells events = [some (some 2), none] ∧
        state.shared.contents = [] := by
  have built : CDMQueue.empty.init 2 true =
      .ok ((⟨some [none, none, none], 0, 0, 3⟩ : CDMQueue (Option Nat)), some true) := by decide
  have lost := Machine.exec_run
    ((program 2 (Option Nat)).machine ⟨some [none, none, none], 0, 0, 3⟩) sameCell rfl
  have unwritten := Machine.exec_run
    ((program 2 (Option Nat)).machine ⟨some [none, none, none], 0, 0, 3⟩) pastUnwritten rfl
  exact ⟨_, built, ⟨_, _, lost, rfl, rfl, rfl⟩, ⟨_, _, unwritten, rfl, rfl, rfl⟩⟩

/-- A thread at this point is between two calls. -/
def isIdle : Pc α → Bool
  | .idle => true
  | _ => false

/-- A client calls `PushTask` when no call of a client is in progress. -/
def CallsApart (state : State clients α) :
    Threads.Label (Party clients) (CDMQueue.Call α) → Prop
  | .call (.client _) _ => ∀ other : Fin clients, isIdle (state.pc (.client other))
  | _ => True

instance (state : State clients α) (label : Threads.Label (Party clients) (CDMQueue.Call α)) :
    Decidable (CallsApart state label) :=
  match label with
  | .call (.client _) _ =>
      inferInstanceAs (Decidable (∀ other : Fin clients, isIdle (state.pc (.client other))))
  | .call .worker _ => isTrue trivial
  | .run _ => isTrue trivial

/-- The clients as one producer, which is where the client in its call is. -/
structure Projects (state : State clients α) (pair : CDMQueue.State α) : Prop where
  shared : pair.shared = state.shared
  worker : pair.pc .consumer = state.pc .worker
  active : ∀ id, state.pc (.client id) ≠ .idle → pair.pc .producer = state.pc (.client id) ∧
    ∀ other, other ≠ id → state.pc (.client other) = .idle
  quiet : (∀ id, state.pc (.client id) = .idle) → pair.pc .producer = .idle

section Projection

variable {state after : State clients α} {pair : CDMQueue.State α}
  {label : Threads.Label (Party clients) (CDMQueue.Call α)} {event : Event clients α}
  {start : CDMQueue α} {party : Party clients} {shared : CDMQueue α} {pc : Pc α}

theorem Projects.point (projects : Projects state pair) (busy : state.pc party ≠ .idle) :
    pair.pc party.role = state.pc party := by
  cases party with
  | client id => exact (projects.active id busy).1
  | worker => exact projects.worker

/-- A step of one party, while no other client is in a call. -/
theorem Projects.moved (projects : Projects state pair)
    (alone : ∀ id other, party = .client id → other ≠ id → state.pc (.client other) = .idle) :
    Projects (state.moved shared party pc) (pair.moved shared party.role pc) := by
  cases party with
  | worker =>
      constructor
      · rfl
      · simp only [Threads.moved, Party.role, Function.update_self]
      · simpa [Threads.moved, Party.role] using projects.active
      · simpa [Threads.moved, Party.role] using projects.quiet
  | client id =>
      constructor
      · rfl
      · simpa [Threads.moved, Party.role] using projects.worker
      · intro other busy
        have same : other = id := by
          by_contra different
          apply busy
          have idle := alone id other rfl different
          simpa [Threads.moved, different] using idle
        subst same
        constructor
        · simp only [Threads.moved, Party.role, Function.update_self]
        · intro third different
          have idle := alone other third rfl different
          simpa [Threads.moved, different] using idle
      · intro idle
        have own := idle id
        simpa [Threads.moved, Party.role] using own

theorem isIdle_eq (idle : isIdle pc = true) : pc = .idle := by
  cases pc with
  | idle => rfl
  | _ => cases idle

theorem enter_role {call : CDMQueue.Call α}
    (entered : (program clients α).enter party .idle call = some pc) :
    (CDMQueue.program α).enter party.role .idle call = some pc := by
  obtain ⟨goal, order⟩ := call
  cases party with
  | client id =>
      cases goal with
      | pushBack => exact entered
      | _ => cases entered
  | worker =>
      cases goal with
      | popFront => exact entered
      | _ => cases entered

/-- Clients that take turns are one producer. -/
theorem Projects.next (projects : Projects state pair)
    (taken : (((program clients α).machine start).restrict CallsApart).step state label =
      some (after, event)) :
    ∃ choice later, ((CDMQueue.program α).machine start).step pair choice =
      some (later, event.rename Party.role) ∧ Projects after later := by
  obtain ⟨allowed, taken⟩ := Machine.restrict_step taken
  cases label with
  | call party call =>
      obtain ⟨pc, entered, same⟩ := Option.map_eq_some_iff.mp taken
      cases same
      have idle : state.pc party = .idle := by
        generalize state.pc party = before at entered
        cases before with
        | idle => rfl
        | _ => cases party <;> cases entered
      have between : pair.pc party.role = .idle := by
        cases party with
        | client id => exact projects.quiet fun other => isIdle_eq (allowed other)
        | worker => exact projects.worker.trans idle
      rw [idle] at entered
      refine ⟨.call party.role call, pair.moved pair.shared party.role pc, ?_, ?_⟩
      · simp only [Program.machine, between, enter_role entered]
        rfl
      · rw [projects.shared]
        apply projects.moved
        intro id other same _
        subst same
        exact isIdle_eq (allowed other)
  | run party =>
      obtain ⟨⟨shared, pc, output⟩, advanced, same⟩ := Option.map_eq_some_iff.mp taken
      cases same
      have busy : state.pc party ≠ .idle := by
        intro idle
        rw [idle] at advanced
        cases advanced
      refine ⟨.run party.role, pair.moved shared party.role pc, ?_, ?_⟩
      · simp only [Program.machine, projects.shared, projects.point busy]
        change (CDMQueue.advance _ _).map _ = _
        simp only [show CDMQueue.advance state.shared (state.pc party) = _ from advanced]
        rfl
      · apply projects.moved
        intro id other same different
        subst same
        exact (projects.active id busy).2 other different

end Projection

section TakenCells

variable {Thread : Type} {start queue after : CDMQueue α} {pair : CDMQueue.State α}
  {pc next : Pc α} {output : Output α}

@[simp] theorem takenCells_snoc
    (events : List (Threads.Event Thread (CDMQueue.Call α) (Output α)))
    (event : Threads.Event Thread (CDMQueue.Call α) (Output α)) :
    takenCells (events ++ [event]) = takenCells events ++ event.output.elim [] takenCell := by
  simp [takenCells]

theorem takenCells_rename {Role : Type} (role : Thread → Role)
    (events : List (Threads.Event Thread (CDMQueue.Call α) (Output α))) :
    takenCells (events.map (Threads.Event.rename role)) = takenCells events := by
  simp [takenCells, List.flatMap_map]

/-- Only the last access of a pop takes a cell, and it delivers the pointer in it. -/
theorem advance_takenCell (taken : advance queue pc = some (after, next, output))
    (written : ∀ ptr nHead, pc = .popWriteHead ptr nHead → ptr.isSome) :
    takenCell output = (popped output.returned).map some := by
  cases pc with
  | idle => cases taken
  | readFirst goal order => cases order <;> cases taken <;> rfl
  | readSecond goal order first =>
      simp only [advance] at taken
      obtain ⟨nUsed, _, same⟩ := Option.map_eq_some_iff.mp taken
      cases same
      have nothing : popped (decideUsed queue nUsed goal).2 = [] := by
        cases goal with
        | getUsedSize => rfl
        | _ => simp only [decideUsed]; split <;> rfl
      simp only [nothing]
      cases order <;> rfl
  | popWriteHead ptr nHead =>
      cases taken
      obtain ⟨first, rfl⟩ := Option.isSome_iff_exists.mp (written ptr nHead rfl)
      rfl
  | pushReadTail | pushWriteTail | popReadHead => cases taken; rfl
  | _ =>
      unfold advance at taken
      obtain ⟨_, _, same⟩ := Option.map_eq_some_iff.mp taken
      cases same
      rfl

theorem takenCells_delivered {capacity : Nat} (built : start.Represents capacity [])
    {events : List (CDMQueue.Event α)}
    (run : ((CDMQueue.program α).machine start).Run events pair) :
    takenCells events = (delivered events).map some := by
  induction run with
  | refl => rfl
  | @snoc pair after events label event path taken ih =>
      obtain ⟨elements, _, facts⟩ := run_invariant built path
      rw [takenCells_snoc, delivered_snoc, ih, List.map_append]
      congr 1
      cases label with
      | call thread call =>
          obtain ⟨_, _, same⟩ := Option.map_eq_some_iff.mp taken
          cases same
          rfl
      | run thread =>
          obtain ⟨⟨shared, pc, output⟩, advanced, same⟩ := Option.map_eq_some_iff.mp taken
          cases same
          apply advance_takenCell advanced
          intro ptr nHead point
          have own := facts thread
          rw [point] at own
          cases thread with
          | producer => exact own.elim
          | consumer =>
              obtain ⟨first, _, _, rfl, _⟩ := own
              rfl

/-- The queue after `Init(-1)`: `new` of no cells succeeds. -/
def noCells : CDMQueue α := ⟨some [], 0, 0, 0⟩

/-- Where a call on that queue can be. -/
def Refuses : Pc α → Prop
  | .idle | .readFirst _ _ => True
  | .readSecond _ _ first => first = 0
  | _ => False

theorem noCells_of_init {nSize : Int} (negative : nSize < 0)
    (built : CDMQueue.empty.init nSize true = .ok (start, some true)) : start = noCells := by
  simp only [init, bind, Except.bind] at built
  cases grown : int (nSize + 1) with
  | error => simp only [grown] at built; cases built
  | ok cells =>
      have value := int_eq grown
      subst value
      simp only [grown] at built
      split at built
      case isTrue allocates =>
          have zero : nSize + 1 = 0 := by omega
          cases built
          simp only [zero]
          rfl
      case isFalse => cases built

theorem Refuses.advance (refuses : Refuses pc)
    (taken : CDMQueue.advance noCells pc = some (after, next, output)) :
    after = noCells ∧ Refuses next ∧ pushed output.returned = [] ∧ takenCell output = [] := by
  cases pc with
  | idle => cases taken
  | readFirst goal order => cases order <;> cases taken <;> exact ⟨rfl, rfl, rfl, rfl⟩
  | readSecond goal order first =>
      have zero : first = 0 := refuses
      subst zero
      cases order <;> cases goal <;> cases taken <;> exact ⟨rfl, trivial, rfl, rfl⟩
  | _ => exact refuses.elim

/-- A queue built for -1 elements refuses every task. -/
theorem noCells_run {events : List (CDMQueue.Event α)}
    (run : ((CDMQueue.program α).machine noCells).Run events pair) :
    pair.shared = noCells ∧ accepted events = [] ∧ takenCells events = [] := by
  obtain ⟨_, kept, _⟩ := @Program.run_invariant _ _ _ _ _ _ (CDMQueue.program α) noCells pair
    events Unit
    (fun events _ queue => queue = noCells ∧ accepted events = [] ∧ takenCells events = [])
    (fun _ _ _ _ pc => Refuses pc) () ⟨rfl, rfl, rfl⟩ (fun _ => trivial)
    (by
      intro events _ state thread call pc _ sound _ entered
      obtain ⟨_, _, rfl⟩ := enter_eq entered
      refine ⟨(), ⟨sound.1, ?_, ?_⟩, trivial, fun _ _ _ facts => facts⟩
      · rw [accepted_snoc, sound.2.1]
        rfl
      · rw [takenCells_snoc, sound.2.2]
        rfl)
    (by
      intro events _ state thread after pc output _ sound facts advanced
      rw [sound.1] at advanced
      obtain ⟨same, refuses, nothing, none⟩ := facts.advance advanced
      refine ⟨(), ⟨same, ?_, ?_⟩, refuses, fun _ _ _ facts => facts⟩
      · rw [accepted_snoc, sound.2.1]
        exact nothing
      · rw [takenCells_snoc, sound.2.2]
        exact none)
    run
  exact kept

theorem accepted_taken {nSize : Int}
    (built : CDMQueue.empty.init nSize true = .ok (start, some true))
    {events : List (CDMQueue.Event α)}
    (run : ((CDMQueue.program α).machine start).Run events pair) :
    (accepted events).map some = takenCells events ++ pair.shared.contents := by
  by_cases nonneg : 0 ≤ nSize
  · have empty := represents_of_init nonneg rfl rfl built
    obtain ⟨elements, ⟨stored, balance⟩, _⟩ := run_invariant empty run
    rw [takenCells_delivered empty run, stored.contents_eq, balance, List.map_append]
  · obtain rfl := noCells_of_init (not_le.mp nonneg) built
    obtain ⟨same, nothing, none⟩ := noCells_run run
    rw [nothing, none, same]
    rfl

end TakenCells

/-- Clients that take turns, at any moment of any run, with worker 0 in between:
the accepted tasks are those that worker 0 took, in order, followed by those in
queue 0. The template argument reaches `Init` as an `int`. -/
theorem pushTask_apart {Task : Type} {Q : Nat} {start : CDMQueue (Option Task)}
    {events : List (Event clients (Option Task))} {state : State clients (Option Task)}
    (built : CDMQueue.empty.init ((Q : Int).bmod (2 ^ 32)) true = .ok (start, some true))
    (run : (((program clients (Option Task)).machine start).restrict CallsApart).Run events
      state) :
    (acceptedTasks events).map some = takenCells events ++ state.shared.contents ∧
      (Q + 1 ≤ 2 ^ 30 → ∀ party, state.pc party ≠ .idle →
        (CDMQueue.advance state.shared (state.pc party)).isSome) := by
  have projected : Projects
      (((program clients (Option Task)).machine start).restrict CallsApart).start
      ((CDMQueue.program (Option Task)).machine start).start :=
    ⟨rfl, rfl, fun _ busy => absurd rfl busy, fun _ => rfl⟩
  obtain ⟨pair, path, projects⟩ :=
    run.simulates Projects (Threads.Event.rename Party.role) projected Projects.next
  constructor
  · have balance := accepted_taken built path
    rw [takenCells_rename, projects.shared] at balance
    exact balance
  · intro small party busy
    have same : (Q : Int).bmod (2 ^ 32) = Q := by
      rw [Int.bmod_eq_of_le] <;> omega
    rw [same] at built
    have empty := represents_of_init (Int.natCast_nonneg Q) rfl rfl built
    have point := projects.point busy
    have goesOn := calls_never_stuck small empty path (point ▸ busy)
    rw [projects.shared, point] at goesOn
    exact goesOn

/-- Client 1 pushes after client 0 has, while worker 0 pops. -/
def takingTurns : List (Threads.Label (Party 2) (CDMQueue.Call (Option Nat))) :=
  List.flatten [[.call (.client 0) ⟨.pushBack (some 1), .tailFirst⟩], Party.runs (.client 0) 6,
    [.call (.client 1) ⟨.pushBack (some 2), .headFirst⟩, .call .worker ⟨.popFront, .tailFirst⟩],
    Party.runs (.client 1) 4, Party.runs .worker 6, Party.runs (.client 1) 2]

theorem pushTask_apart_takingTurns :
    ∃ (start : CDMQueue (Option Nat)) (events : List (Event 2 (Option Nat)))
      (state : State 2 (Option Nat)),
      CDMQueue.empty.init ((2 : Nat) : Int) true = .ok (start, some true) ∧
      acceptedTasks events = [some 1, some 2] ∧ takenCells events = [some (some 1)] ∧
      (acceptedTasks events).map some = takenCells events ++ state.shared.contents := by
  have built : CDMQueue.empty.init (((2 : Nat) : Int).bmod (2 ^ 32)) true =
      .ok ((⟨some [none, none, none], 0, 0, 3⟩ : CDMQueue (Option Nat)), some true) := by decide
  have run := Machine.exec_run
    (((program 2 (Option Nat)).machine ⟨some [none, none, none], 0, 0, 3⟩).restrict CallsApart)
    takingTurns rfl
  exact ⟨_, _, _, built, rfl, rfl, (pushTask_apart built run).1⟩

end DmLockFree.CDMQueueThreadPool.Clients
