import DmLockFree.CDMQueue.SharedInvariant

/-! Every run of one producer and one consumer on a `CDMQueue` is a first-in
first-out queue, and every answer is right about a moment of its own call. -/

set_option autoImplicit false

namespace DmLockFree.CDMQueue

open Library Program

variable {α : Type}

abbrev Event (α : Type) := Threads.Event Thread (Call α) (Output α)

abbrev State (α : Type) := Threads Thread (CDMQueue α) (Pc α)

def returned (event : Event α) : Option (Return α) := event.output.bind Output.returned

/-- The pointers for which `PushBack` returned true. -/
def accepted (events : List (Event α)) : List α :=
  events.flatMap fun event => pushed (returned event)

/-- The pointers returned by `PopFront`, without the `nullptr` results. -/
def delivered (events : List (Event α)) : List α :=
  events.flatMap fun event => popped (returned event)

@[simp] theorem accepted_snoc (events : List (Event α)) (event : Event α) :
    accepted (events ++ [event]) = accepted events ++ pushed (returned event) := by
  simp [accepted]

@[simp] theorem delivered_snoc (events : List (Event α)) (event : Event α) :
    delivered (events ++ [event]) = delivered events ++ popped (returned event) := by
  simp [delivered]

/-- The running call of the thread made this access on a queue of `used` elements. -/
def Observed (start : CDMQueue α) (thread : Thread) (access : Access)
    (events : List (Event α)) (used : Nat) : Prop :=
  Witnessed (program α) start thread (fun queue event =>
    (∃ returned, event = .ran thread ⟨access, returned⟩) ∧ queue.contents.length = used) events

/-- The other index: the one that a thread does not write. -/
def Thread.reads : Thread → Access
  | .producer => .readHead
  | .consumer => .readTail

def Sound (capacity : Nat) (events : List (Event α)) (elements : List α) (queue : CDMQueue α) :
    Prop :=
  queue.Represents capacity (elements.map some) ∧ accepted events = delivered events ++ elements

def Facts (capacity : Nat) (start : CDMQueue α) (thread : Thread) (events : List (Event α))
    (elements : List α) (queue : CDMQueue α) : Pc α → Prop :=
  match thread with
  | .producer => ProducerFacts capacity (Observed start .producer .readHead events) queue elements
  | .consumer => ConsumerFacts capacity (Observed start .consumer .readTail events) queue elements

section Runs

variable {capacity : Nat} {start queue : CDMQueue α} {elements : List α} {state : State α}
  {events : List (Event α)} {thread : Thread}

theorem Observed.now {output : Output α}
    (run : ((program α).machine start).Run events state)
    (stored : state.shared.Represents capacity (elements.map some)) {access : Access}
    (reads : output.access = access) :
    Observed start thread access (events ++ [.ran thread output]) elements.length := by
  refine Witnessed.now run ⟨⟨output.returned, ?_⟩, ?_⟩ nofun
  · rw [← reads]
  · rw [stored.contents_eq, List.length_map]

theorem Facts.called {caller other : Thread} {call : Call α} {pc : Pc α}
    (facts : Facts capacity start other events elements queue pc) (apart : other ≠ caller) :
    Facts capacity start other (events ++ [.called caller call]) elements queue pc := by
  have keeps : ∀ access used, Observed start other access events used →
      Observed start other access (events ++ [.called caller call]) used :=
    fun access used seen => seen.snoc fun _ same => apart (by cases same; rfl)
  cases other with
  | producer => exact @ProducerFacts.taken _ _ _ _ _ _ _ [] _ facts (keeps _) rfl rfl
  | consumer =>
      have grown := @ConsumerFacts.added _ _ _ _ _ queue _ _ [] facts (keeps _) rfl
      rwa [List.append_nil] at grown

/-- What every step owes to the threads, in the form of the invariant rule. -/
theorem advance_preserves (run : ((program α).machine start).Run events state)
    (sound : Sound capacity events elements state.shared)
    (facts : Facts capacity start thread events elements state.shared (state.pc thread))
    {after : CDMQueue α} {pc : Pc α} {output : Output α}
    (taken : advance state.shared (state.pc thread) = some (after, pc, output)) :
    ∃ rest, Preserves (Sound capacity) (Facts capacity start) thread events (.ran thread output)
      elements rest state.shared after pc := by
  obtain ⟨stored, balance⟩ := sound
  have keeps : ∀ other access used, Observed start other access events used →
      Observed start other access (events ++ [.ran thread output]) used :=
    fun other access used seen => seen.snoc nofun
  cases thread with
  | producer =>
      have moved := producer_advance stored facts taken (keeps .producer .readHead)
        (Observed.now run stored)
      refine ⟨elements ++ pushed output.returned, ⟨moved.stored, ?_⟩, moved.facts, ?_⟩
      · rw [accepted_snoc, delivered_snoc, balance]
        change _ ++ pushed output.returned = _ ++ popped output.returned ++ _
        rw [moved.takes, List.append_nil, List.append_assoc]
      · rintro (_ | _) apart other otherFacts
        · exact absurd rfl apart
        · exact otherFacts.added (keeps .consumer .readTail) moved.head
  | consumer =>
      obtain ⟨rest, moved⟩ := consumer_advance stored facts taken
        (keeps .consumer .readTail) (Observed.now run stored)
      refine ⟨rest, ⟨moved.stored, ?_⟩, moved.facts, ?_⟩
      · rw [accepted_snoc, delivered_snoc, balance]
        change _ ++ pushed output.returned = _ ++ popped output.returned ++ _
        rw [moved.gives, List.append_nil, List.append_assoc, ← moved.split]
      · rintro (_ | _) apart other otherFacts
        · have split := moved.split
          subst split
          exact otherFacts.taken (keeps .producer .readHead) moved.tail moved.array
        · exact absurd rfl apart

theorem enter_eq {call : Call α} {before after : Pc α}
    (entered : (program α).enter thread before call = some after) :
    before = .idle ∧ thread.calls call.goal = true ∧ after = .readFirst call.goal call.order := by
  cases before with
  | idle =>
      simp only [program, Option.ite_none_right_eq_some] at entered
      exact ⟨rfl, entered.1, (Option.some.inj entered.2).symm⟩
  | _ => cases entered

theorem run_invariant (built : start.Represents capacity [])
    (run : ((program α).machine start).Run events state) :
    ∃ elements, Sound capacity events elements state.shared ∧
      ∀ thread, Facts capacity start thread events elements state.shared (state.pc thread) := by
  refine Program.run_invariant (Sound capacity) (Facts capacity start) ⟨built, rfl⟩ ?_ ?_
    (fun run sound facts taken => advance_preserves run sound facts taken) run
  · rintro (_ | _) <;> trivial
  · intro events elements state thread call pc _ sound facts entered
    refine ⟨elements, ⟨sound.1, ?_⟩, ?_, fun other apart pc otherFacts => otherFacts.called apart⟩
    · rw [accepted_snoc, delivered_snoc, sound.2]
      simp [returned, Threads.Event.output, pushed, popped]
    · obtain ⟨_, allowed, rfl⟩ := enter_eq entered
      cases thread <;> exact allowed

/-- No access of a call in progress faults. -/
theorem calls_never_stuck (small : capacity + 1 ≤ 2 ^ 30) (built : start.Represents capacity [])
    (run : ((program α).machine start).Run events state) (busy : state.pc thread ≠ .idle) :
    (advance state.shared (state.pc thread)).isSome := by
  obtain ⟨elements, ⟨stored, _⟩, facts⟩ := run_invariant built run
  cases thread with
  | producer => exact producer_goes_on stored small (facts .producer) busy
  | consumer => exact consumer_goes_on stored small (facts .consumer) busy

/-- What the last step of a run answers, and what its thread saw for it. -/
structure Justified (capacity : Nat) (start : CDMQueue α) (events : List (Event α))
    (event : Event α) : Prop where
  refused : ∀ ptr, returned event = some (.pushBack ptr false) →
    Observed start .producer .readHead events capacity
  empty : returned event = some (.popFront none) → Observed start .consumer .readTail events 0
  measured : ∀ used, returned event = some (.getUsedSize used) →
    ∃ (count : Nat) (thread : Thread) (output : Output α), used = count ∧ count ≤ capacity ∧
      event = .ran thread output ∧ Observed start thread thread.reads events count

theorem justified (built : start.Represents capacity [])
    {event : Event α} (run : ((program α).machine start).Run (events ++ [event]) state) :
    Justified capacity start (events ++ [event]) event := by
  obtain ⟨before, earlier, last⟩ := run.split
  obtain ⟨label, taken⟩ := Machine.path_singleton last
  obtain ⟨elements, ⟨stored, _⟩, facts⟩ := run_invariant built earlier
  cases label with
  | call thread call =>
      obtain ⟨_, _, same⟩ := Option.map_eq_some_iff.mp taken
      cases same
      exact ⟨nofun, nofun, nofun⟩
  | run thread =>
      obtain ⟨⟨after, pc, output⟩, advanced, same⟩ := Option.map_eq_some_iff.mp taken
      cases same
      have own := facts thread
      have keeps : ∀ access used, Observed start thread access events used →
          Observed start thread access (events ++ [.ran thread output]) used :=
        fun access used seen => seen.snoc nofun
      cases thread with
      | producer =>
          have moved := producer_advance stored own advanced (keeps .readHead)
            (Observed.now earlier stored)
          refine ⟨moved.refused, fun empty => absurd empty moved.found, fun used answer => ?_⟩
          obtain ⟨count, rfl, fits, seen⟩ := moved.measured used answer
          exact ⟨count, .producer, output, rfl, fits, rfl, seen⟩
      | consumer =>
          obtain ⟨rest, moved⟩ := consumer_advance stored own advanced (keeps .readTail)
            (Observed.now earlier stored)
          refine ⟨fun ptr answer => absurd answer (moved.refused ptr), moved.found,
            fun used answer => ?_⟩
          obtain ⟨count, rfl, fits, seen⟩ := moved.measured used answer
          exact ⟨count, .consumer, output, rfl, fits, rfl, seen⟩

end Runs

/-- After `Init(n)`, one producer, one consumer, any calls and any interleaving:
first in, first out; a refused push saw `n` elements when it read the head, an
empty pop saw none when it read the tail, and a measured size was the occupancy
at a read of the same call; the cell being written is not the cell being read. -/
theorem producer_consumer_queue {n : Int} {start : CDMQueue α} {events : List (Event α)}
    {state : State α} (nonneg : 0 ≤ n) (small : n < 2 ^ 30)
    (built : CDMQueue.empty.init n true = .ok (start, some true))
    (run : ((program α).machine start).Run events state) :
    delivered events <+: accepted events ∧
    (accepted events).map some = (delivered events).map some ++ state.shared.contents ∧
    (∀ before event after, events = before ++ event :: after →
      Justified n.toNat start (before ++ [event]) event) ∧
    ∀ ptr index index', state.pc .producer = .pushWriteCell ptr index →
      state.pc .consumer = .popReadCell index' → index ≠ index' := by
  obtain ⟨first, result, empty⟩ :=
    @init_represents α CDMQueue.empty n (by omega) nonneg rfl rfl
  rw [built] at result
  cases result
  obtain ⟨elements, ⟨stored, balance⟩, facts⟩ := run_invariant empty run
  refine ⟨⟨elements, balance.symm⟩, ?_, ?_, ?_⟩
  · rw [stored.contents_eq, balance, List.map_append]
  · intro before event after same
    subst same
    rw [← List.singleton_append, ← List.append_assoc] at run
    obtain ⟨_, run, _⟩ := run.split
    exact justified empty run
  · intro ptr index index' writing reading
    have producer := facts .producer
    have consumer := facts .consumer
    rw [writing] at producer
    rw [reading] at consumer
    obtain ⟨room, rfl⟩ := producer
    obtain ⟨present, rfl⟩ := consumer
    exact stored.tail_ne_head (by simpa using present) (room_of_map room)

/-- A push and a pop that overlap, with the indices read in both orders. -/
def overlap : List (Threads.Label Thread (Call Nat)) :=
  [.call .producer ⟨.pushBack 7, .headFirst⟩, .call .consumer ⟨.popFront, .tailFirst⟩,
    .run .producer, .run .consumer, .run .producer, .run .producer, .run .consumer,
    .run .producer, .run .producer, .run .producer,
    .call .consumer ⟨.popFront, .headFirst⟩, .run .consumer, .run .consumer,
    .run .consumer, .run .consumer, .run .consumer, .run .consumer]

theorem producer_consumer_queue_overlap :
    ∃ (start : CDMQueue Nat) (events : List (Event Nat)) (state : State Nat),
      CDMQueue.empty.init 1 true = .ok (start, some true) ∧
      ((program Nat).machine start).Run events state ∧
      accepted events = [7] ∧ delivered events = [7] ∧ delivered events <+: accepted events := by
  have built : CDMQueue.empty.init 1 true =
      .ok ((⟨some [none, none], 0, 0, 2⟩ : CDMQueue Nat), some true) := by decide
  have run := Machine.exec_run ((program Nat).machine ⟨some [none, none], 0, 0, 2⟩) overlap rfl
  exact ⟨_, _, _, built, run, rfl, rfl,
    (producer_consumer_queue (by decide) (by decide) built run).1⟩

end DmLockFree.CDMQueue
