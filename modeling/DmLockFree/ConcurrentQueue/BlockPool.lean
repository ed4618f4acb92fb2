import DmLockFree.ConcurrentQueue.FreeList.Safety
import DmLockFree.ConcurrentQueue.Implicit.Run

/-!
# The blocks of a `ConcurrentQueue`

Any number of `ImplicitProducer`s take their blocks from one `FreeList` and give them
back to it. What `requisition_block` returns is a block of the initial pool, a new one or
one that `try_get` has handed out; `add_block_to_free_list` adds a block that a producer
has given back. That such a block is in use nowhere is not assumed here. Every producer
still has a memory of its own; `SharedBlocks` has one for all of them.
-/

set_option autoImplicit false

namespace DmLockFree.ConcurrentQueue.BlockPool

open Library

variable {Name Worker Consumer T : Type}

/-- `fresh` is a block of the initial pool or a new one, `out` one that `try_get` has
handed out, and `emptied` one that is to be added to the list. -/
inductive Standing (Name : Type) where
  | fresh
  | listed
  | out
  | used (name : Name)
  | emptied
  deriving DecidableEq, Repr

/-- What `requisition_block` may return. -/
def Standing.Free (standing : Standing Name) : Prop := standing = .fresh ∨ standing = .out

instance [DecidableEq Name] (standing : Standing Name) : Decidable standing.Free :=
  inferInstanceAs (Decidable (_ ∨ _))

theorem Standing.Free.apart {standing : Standing Name} (free : standing.Free) :
    standing ≠ .listed ∧ ∀ name, standing ≠ .used name := by
  rcases free with rfl | rfl
  · exact ⟨fun same => (by cases same), fun name same => (by cases same)⟩
  · exact ⟨fun same => (by cases same), fun name same => (by cases same)⟩

/-- `standing` follows every block through the history. -/
structure State (Name Worker Consumer T : Type) where
  list : FreeList.State Worker Nat
  producers : Name → ImplicitProducer.State Consumer T
  standing : Nat → Standing Name

inductive Label (Name Worker Consumer T : Type) where
  | list (label : Threads.Label Worker (FreeList.Call Nat))
  | producer (name : Name)
      (label : Threads.Label (ImplicitProducer.Thread Consumer) (ImplicitProducer.Call T))

inductive Event (Name Worker Consumer T : Type) where
  | list (event : FreeList.Event Worker Nat)
  | producer (name : Name) (event : ImplicitProducer.Event Consumer T)

namespace Event

/-- The block that an event is about, and where it is then. -/
def change : Event Name Worker Consumer T → Option (Nat × Standing Name)
  | .list (.called _ (.add block)) => some (block, .listed)
  | .list (.ran _ output) => output.taken.map fun block => (block, .out)
  | .producer name (.ran _ output) =>
      output.access.hands.map fun (block, taken) =>
        (block, if taken then .used name else .emptied)
  | _ => none

/-- Blocks come to a producer from `requisition_block`, and to the list from a producer. -/
def permitted [DecidableEq Name] (standing : Nat → Standing Name) :
    Event Name Worker Consumer T → Bool
  | .list (.called _ (.add block)) => standing block = .emptied
  | .producer _ (.ran _ ⟨.requisition (some block), _⟩) => (standing block).Free
  | _ => true

def settle (standing : Nat → Standing Name) (event : Event Name Worker Consumer T) :
    Nat → Standing Name :=
  event.change.elim standing fun change => Function.update standing change.1 change.2

end Event

/-- The ledger agrees with the list and with the producers. -/
structure Agrees (held : Nat → Bool) (requisitioned : Name → Nat → Bool)
    (standing : Nat → Standing Name) : Prop where
  listed : ∀ block, held block = false ↔ standing block = .listed
  used : ∀ name block, requisitioned name block = true ↔ standing block = .used name

section Agrees

variable {held later : Nat → Bool} {requisitioned blocks : Name → Nat → Bool}
  {standing : Nat → Standing Name}

/-- One block changes its standing. -/
theorem Agrees.change (agrees : Agrees held requisitioned standing) (block : Nat)
    (stands : Standing Name) (listed : later block = false ↔ stands = .listed)
    (used : ∀ name, blocks name block = true ↔ stands = .used name)
    (heldOthers : ∀ other, other ≠ block → later other = held other)
    (usedOthers : ∀ name other, other ≠ block → blocks name other = requisitioned name other) :
    Agrees later blocks (Function.update standing block stands) := by
  constructor
  · intro other
    rcases eq_or_ne other block with rfl | apart
    · rw [Function.update_self, listed]
    · rw [Function.update_of_ne apart, heldOthers other apart, agrees.listed]
  · intro name other
    rcases eq_or_ne other block with rfl | apart
    · rw [Function.update_self, used]
    · rw [Function.update_of_ne apart, usedOthers name other apart, agrees.used]

/-- A block that no producer has goes into the list or comes out of it. -/
theorem Agrees.pass (agrees : Agrees held requisitioned standing) (block : Nat)
    (stands : Standing Name) (listed : later block = false ↔ stands = .listed)
    (before : ∀ name, standing block ≠ .used name) (after : ∀ name, stands ≠ .used name)
    (others : ∀ other, other ≠ block → later other = held other) :
    Agrees later requisitioned (Function.update standing block stands) := by
  refine agrees.change block stands listed (fun name => ?_) others fun _ _ _ => rfl
  rw [agrees.used]
  exact iff_of_false (before name) (after name)

theorem Agrees.unused (agrees : Agrees held requisitioned standing) {block : Nat}
    (apart : ∀ name, standing block ≠ .used name) (name : Name) :
    requisitioned name block = false := by
  rw [← Bool.not_eq_true, agrees.used]
  exact apart name

theorem Agrees.unlisted (agrees : Agrees held requisitioned standing) {block : Nat}
    (apart : standing block ≠ .listed) : held block = true := by
  rw [← Bool.not_eq_false, agrees.listed]
  exact apart

end Agrees

variable [DecidableEq Name] [DecidableEq Worker] [DecidableEq Consumer]

def State.settle (state : State Name Worker Consumer T) (event : Event Name Worker Consumer T) :
    Option (State Name Worker Consumer T × Event Name Worker Consumer T) :=
  if event.permitted state.standing then
    some ({ state with standing := event.settle state.standing }, event)
  else none

omit [DecidableEq Worker] [DecidableEq Consumer] in
theorem settle_cases {state after : State Name Worker Consumer T}
    {event shown : Event Name Worker Consumer T}
    (settled : state.settle event = some (after, shown)) :
    event.permitted state.standing = true ∧ shown = event ∧
      after = { state with standing := event.settle state.standing } := by
  unfold State.settle at settled
  split at settled
  case isTrue permitted =>
      cases settled
      exact ⟨permitted, rfl, rfl⟩
  case isFalse => cases settled

abbrev listMachine (Worker : Type) [DecidableEq Worker] :=
  (FreeList.program Worker Nat).machine (FreeList.construct Nat)

abbrev producerMachine (Consumer T : Type) [DecidableEq Consumer] (maxSubqueueSize : UInt64)
    (allocated : Bool) :=
  (ImplicitProducer.program Consumer T maxSubqueueSize).machine
    (ImplicitProducer.construct T allocated)

/-- A step of the list or of one of the producers. -/
def machine (Name Worker Consumer T : Type) [DecidableEq Name] [DecidableEq Worker]
    [DecidableEq Consumer] (maxSubqueueSize : UInt64) (allocated : Name → Bool) :
    Machine (State Name Worker Consumer T) (Label Name Worker Consumer T)
      (Event Name Worker Consumer T) where
  start := ⟨(listMachine Worker).start,
    fun name => (producerMachine Consumer T maxSubqueueSize (allocated name)).start,
    fun _ => .fresh⟩
  step state
    | .list label => do
        let (list, event) ← (listMachine Worker).step state.list label
        { state with list }.settle (.list event)
    | .producer name label => do
        let (producer, event) ←
          (producerMachine Consumer T maxSubqueueSize (allocated name)).step
            (state.producers name) label
        { state with producers := Function.update state.producers name producer }.settle
          (.producer name event)

/-- What the list shows of a history. -/
def listEvents (events : List (Event Name Worker Consumer T)) : List (FreeList.Event Worker Nat) :=
  events.filterMap fun event => match event with
    | .list event => some event
    | .producer _ _ => none

def producerEvents (name : Name) (events : List (Event Name Worker Consumer T)) :
    List (ImplicitProducer.Event Consumer T) :=
  events.filterMap fun event => match event with
    | .list _ => none
    | .producer other event => if other = name then some event else none

section Projections

variable {events : List (Event Name Worker Consumer T)} {name other : Name}

omit [DecidableEq Name] [DecidableEq Worker] [DecidableEq Consumer] in
@[simp] theorem listEvents_list (event : FreeList.Event Worker Nat) :
    listEvents (events ++ [.list event]) = listEvents events ++ [event] := by
  simp [listEvents]

omit [DecidableEq Name] [DecidableEq Worker] [DecidableEq Consumer] in
@[simp] theorem listEvents_producer (event : ImplicitProducer.Event Consumer T) :
    listEvents (events ++ [.producer name event]) = listEvents events := by
  simp [listEvents]

omit [DecidableEq Worker] [DecidableEq Consumer] in
@[simp] theorem producerEvents_list (event : FreeList.Event Worker Nat) :
    producerEvents name (events ++ [.list event]) = producerEvents name events := by
  simp [producerEvents]

omit [DecidableEq Worker] [DecidableEq Consumer] in
@[simp] theorem producerEvents_self (event : ImplicitProducer.Event Consumer T) :
    producerEvents name (events ++ [.producer name event]) =
      producerEvents name events ++ [event] := by
  simp [producerEvents]

omit [DecidableEq Worker] [DecidableEq Consumer] in
theorem producerEvents_of_ne (event : ImplicitProducer.Event Consumer T) (apart : other ≠ name) :
    producerEvents other (events ++ [.producer name event]) = producerEvents other events := by
  simp [producerEvents, Ne.symm apart]

omit [DecidableEq Worker] in
theorem timely_before {event : Event Name Worker Consumer T}
    (timely : ∀ name, ImplicitProducer.Timely (producerEvents name (events ++ [event])))
    (name : Name) : ImplicitProducer.Timely (producerEvents name events) := by
  have later := timely name
  rw [producerEvents, List.filterMap_append] at later
  exact later.before

end Projections

/-- Whose step it is. -/
inductive Step (maxSubqueueSize : UInt64) (allocated : Name → Bool)
    (before : State Name Worker Consumer T) :
    State Name Worker Consumer T → Event Name Worker Consumer T → Prop where
  | list {label : Threads.Label Worker (FreeList.Call Nat)} {list : FreeList.State Worker Nat}
      {event : FreeList.Event Worker Nat}
      (taken : (listMachine Worker).step before.list label = some (list, event))
      (permitted : (Event.list event : Event Name Worker Consumer T).permitted before.standing) :
      Step maxSubqueueSize allocated before
        ⟨list, before.producers,
          (Event.list event : Event Name Worker Consumer T).settle before.standing⟩ (.list event)
  | producer (name : Name)
      {label : Threads.Label (ImplicitProducer.Thread Consumer) (ImplicitProducer.Call T)}
      {producer : ImplicitProducer.State Consumer T} {event : ImplicitProducer.Event Consumer T}
      (taken : (producerMachine Consumer T maxSubqueueSize (allocated name)).step
        (before.producers name) label = some (producer, event))
      (permitted : (Event.producer name event : Event Name Worker Consumer T).permitted
        before.standing) :
      Step maxSubqueueSize allocated before
        ⟨before.list, Function.update before.producers name producer,
          (Event.producer name event : Event Name Worker Consumer T).settle before.standing⟩
        (.producer name event)

section Run

variable {maxSubqueueSize : UInt64} {allocated : Name → Bool}
  {events : List (Event Name Worker Consumer T)} {state after : State Name Worker Consumer T}
  {label : Label Name Worker Consumer T} {event : Event Name Worker Consumer T}

theorem step_cases (taken : (machine Name Worker Consumer T maxSubqueueSize allocated).step state
    label = some (after, event)) : Step maxSubqueueSize allocated state after event := by
  cases label with
  | list label =>
      obtain ⟨⟨list, event⟩, moved, settled⟩ := Option.bind_eq_some_iff.mp taken
      obtain ⟨permitted, rfl, rfl⟩ := settle_cases settled
      exact .list moved permitted
  | producer name label =>
      obtain ⟨⟨producer, event⟩, moved, settled⟩ := Option.bind_eq_some_iff.mp taken
      obtain ⟨permitted, rfl, rfl⟩ := settle_cases settled
      exact .producer name moved permitted

/-- Seen alone, the list does a run of its own. -/
theorem run_list
    (run : (machine Name Worker Consumer T maxSubqueueSize allocated).Run events state) :
    (listMachine Worker).Run (listEvents events) state.list := by
  induction run with
  | refl => exact .refl
  | snoc _ taken ih =>
      cases step_cases taken with
      | list moved permitted =>
          rw [listEvents_list]
          exact ih.snoc moved
      | producer name moved permitted =>
          rw [listEvents_producer]
          exact ih

/-- And so does every producer. -/
theorem run_producer
    (run : (machine Name Worker Consumer T maxSubqueueSize allocated).Run events state)
    (name : Name) : (producerMachine Consumer T maxSubqueueSize (allocated name)).Run
      (producerEvents name events) (state.producers name) := by
  induction run with
  | refl => exact .refl
  | snoc _ taken ih =>
      cases step_cases taken with
      | list moved permitted =>
          rw [producerEvents_list]
          exact ih
      | producer other moved permitted =>
          rcases eq_or_ne other name with rfl | apart
          · simp only [producerEvents_self, Function.update_self]
            exact ih.snoc moved
          · rw [producerEvents_of_ne _ (Ne.symm apart)]
            simp only [Function.update_of_ne (Ne.symm apart)]
            exact ih

def State.requisitioned (state : State Name Worker Consumer T) (name : Name) : Nat → Bool :=
  (state.producers name).shared.requisitioned

structure Sound (events : List (Event Name Worker Consumer T))
    (state : State Name Worker Consumer T) : Prop where
  disciplined : FreeList.Disciplined (listEvents events)
  agrees : Agrees (FreeList.held (listEvents events)) state.requisitioned state.standing

omit [DecidableEq Name] [DecidableEq Worker] [DecidableEq Consumer] in
theorem Sound.add (sound : Sound events state) {worker : Worker} {block : Nat}
    {list : FreeList.State Worker Nat} (emptied : state.standing block = .emptied) :
    Sound (events ++ [.list (.called worker (.add block))])
      ⟨list, state.producers, Function.update state.standing block .listed⟩ := by
  have agrees := sound.agrees
  refine ⟨?_, ?_⟩
  · rw [listEvents_list]
    refine sound.disciplined.snoc fun other node same => ?_
    cases same
    refine agrees.unlisted ?_
    rw [emptied]
    exact fun same => by cases same
  · rw [listEvents_list, FreeList.held_snoc]
    refine agrees.pass block .listed (iff_of_true (Function.update_self ..) rfl) ?_ ?_ ?_
    · intro name
      rw [emptied]
      exact fun same => by cases same
    · intro name same
      cases same
    · exact fun other apart => Function.update_of_ne apart ..

omit [DecidableEq Name] [DecidableEq Consumer] in
theorem Sound.get [Fintype Worker] (few : Fintype.card Worker + 1 < 2 ^ 31)
    (sound : Sound events state) (run : (listMachine Worker).Run (listEvents events) state.list)
    {worker : Worker} {list : FreeList Nat} {pc : FreeList.Pc Nat} {output : FreeList.Output Nat}
    (taken : FreeList.advance state.list.shared (state.list.pc worker) = some (list, pc, output)) :
    Sound (events ++ [.list (.ran worker output)])
      ⟨state.list.moved list worker pc, state.producers,
        (Event.list (.ran worker output) : Event Name Worker Consumer T).settle
          state.standing⟩ := by
  have agrees := sound.agrees
  refine ⟨?_, ?_⟩
  · rw [listEvents_list]
    exact sound.disciplined.snoc fun _ _ same => by cases same
  · rw [listEvents_list, FreeList.held_snoc]
    simp only [Event.settle, Event.change]
    cases hands : output.taken with
    | none =>
        have still : FreeList.keep (FreeList.held (listEvents events)) (.ran worker output) =
            FreeList.held (listEvents events) := by
          funext block
          simp [FreeList.keep, hands]
        rw [still]
        exact agrees
    | some block =>
        have gone := FreeList.taken_unheld few run sound.disciplined taken hands
        have listed := (agrees.listed block).mp gone
        refine agrees.pass block .out ?_ ?_ ?_ ?_
        · refine iff_of_false ?_ fun same => by cases same
          rw [FreeList.keep_ran.mpr (.inr hands)]
          exact Bool.true_eq_false.mp
        · intro name
          rw [listed]
          exact fun same => by cases same
        · intro name same
          cases same
        · intro other apart
          have different : output.taken ≠ some other := by
            rw [hands]
            exact fun same => apart (Option.some.inj same).symm
          simp [FreeList.keep, different]

/-- A producer takes a block that is in use nowhere, or gives back one of its own. -/
theorem Agrees.hand {held : Nat → Bool} {requisitioned : Name → Nat → Bool}
    {standing : Nat → Standing Name} (agrees : Agrees held requisitioned standing) (name : Name)
    {block : Nat} (taken : Bool) (unlisted : standing block ≠ .listed)
    (others : ∀ other, other ≠ name → standing block ≠ .used other) :
    Agrees held
      (Function.update requisitioned name (Function.update (requisitioned name) block taken))
      (Function.update standing block (if taken then .used name else .emptied)) := by
  refine agrees.change block _ ?_ (fun other => ?_) (fun _ _ => rfl) fun other second apart => ?_
  · rw [agrees.listed]
    refine iff_of_false unlisted ?_
    cases taken with
    | false => exact fun same => by cases same
    | true => exact fun same => by cases same
  · rcases eq_or_ne other name with rfl | apart
    · simp only [Function.update_self]
      cases taken with
      | false => exact iff_of_false Bool.false_ne_true fun same => by cases same
      | true => exact iff_of_true rfl rfl
    · rw [Function.update_of_ne apart, agrees.used]
      refine iff_of_false (others other apart) ?_
      cases taken with
      | false => exact fun same => by cases same
      | true => exact fun same => apart (Standing.used.inj same).symm
  · rcases eq_or_ne other name with rfl | different
    · simp only [Function.update_self, Function.update_of_ne apart]
    · rw [Function.update_of_ne different]

omit [DecidableEq Worker] [DecidableEq Consumer] in
theorem Agrees.access {held : Nat → Bool} {requisitioned : Name → Nat → Bool}
    {standing : Nat → Standing Name} (agrees : Agrees held requisitioned standing) {name : Name}
    {thread : ImplicitProducer.Thread Consumer} {output : ImplicitProducer.Output T}
    (permitted : (Event.producer name (.ran thread output) :
      Event Name Worker Consumer T).permitted standing)
    (given : ∀ block, output.access = .release block → requisitioned name block = true) :
    Agrees held
      (Function.update requisitioned name (output.access.requisitions (requisitioned name)))
      ((Event.producer name (.ran thread output) :
        Event Name Worker Consumer T).settle standing) := by
  have quiet : Agrees held (Function.update requisitioned name (requisitioned name)) standing := by
    rw [Function.update_eq_self]
    exact agrees
  obtain ⟨access, returned⟩ := output
  cases access with
  | requisition block =>
      cases block with
      | none => exact quiet
      | some block =>
          have free : (standing block).Free := of_decide_eq_true permitted
          exact agrees.hand name true free.apart.1 fun other _ => free.apart.2 other
  | release block =>
      have used := (agrees.used name block).mp (given block rfl)
      refine agrees.hand name false ?_ fun other apart => ?_
      · rw [used]
        exact fun same => by cases same
      · rw [used]
        exact fun same => apart (Standing.used.inj same).symm
  | _ => exact quiet

omit [DecidableEq Worker] [DecidableEq Consumer] in
theorem requisitioned_update (state : State Name Worker Consumer T) (name : Name)
    (producer : ImplicitProducer.State Consumer T) (standing : Nat → Standing Name) :
    State.requisitioned ⟨state.list, Function.update state.producers name producer, standing⟩ =
      Function.update state.requisitioned name producer.shared.requisitioned := by
  funext other
  rcases eq_or_ne other name with rfl | apart
  · simp only [State.requisitioned, Function.update_self]
  · simp only [State.requisitioned, Function.update_of_ne apart]

theorem run_sound [Fintype Worker] (few : Fintype.card Worker + 1 < 2 ^ 31)
    (run : (machine Name Worker Consumer T maxSubqueueSize allocated).Run events state)
    (timely : ∀ name, ImplicitProducer.Timely (producerEvents name events)) :
    Sound events state := by
  induction run with
  | refl =>
      refine ⟨.nil, fun block => ?_, fun name block => ?_⟩
      · exact iff_of_false (fun gone => by cases gone) fun same => by cases same
      · exact iff_of_false (fun used => by cases used) fun same => by cases same
  | @snoc state after events label event path taken ih =>
      have sound := ih (timely_before timely)
      cases step_cases taken with
      | @list label list event moved permitted =>
          cases label with
          | call worker request =>
              obtain ⟨_, _, same⟩ := Option.map_eq_some_iff.mp moved
              cases same
              cases request with
              | tryGet =>
                  refine ⟨?_, ?_⟩
                  · rw [listEvents_list]
                    exact sound.disciplined.snoc fun _ _ same => by cases same
                  · rw [listEvents_list, FreeList.held_snoc]
                    exact sound.agrees
              | add block => exact sound.add (of_decide_eq_true permitted)
          | run worker =>
              obtain ⟨⟨_, _, output⟩, advanced, same⟩ := Option.map_eq_some_iff.mp moved
              cases same
              exact sound.get few (run_list path) advanced
      | @producer name label producer event moved permitted =>
          have late := timely name
          rw [producerEvents_self] at late
          refine ⟨?_, ?_⟩
          · rw [listEvents_producer]
            exact sound.disciplined
          · rw [listEvents_producer, requisitioned_update]
            cases label with
            | call thread request =>
                obtain ⟨_, _, same⟩ := Option.map_eq_some_iff.mp moved
                cases same
                have still : Function.update state.requisitioned name
                    (state.producers name).shared.requisitioned = state.requisitioned :=
                  Function.update_eq_self ..
                rw [Threads.moved_shared, still]
                exact sound.agrees
            | run thread =>
                obtain ⟨⟨_, _, output⟩, advanced, same⟩ := Option.map_eq_some_iff.mp moved
                cases same
                obtain ⟨own, given⟩ :=
                  ImplicitProducer.run_hands (run_producer path name) late advanced
                rw [Threads.moved_shared, own]
                exact sound.agrees.access permitted given

/-- Producers that share their blocks over one list. The callers of the list keep to its
discipline, and no thread aborts. No two producers have the same block, a block in the
list is had by none, and what a producer does not have is empty for it. A block that
`requisition_block` may return is in use nowhere, so the producer goes on with it. -/
theorem blocks_in_one_hand [Fintype Worker] (few : Fintype.card Worker + 1 < 2 ^ 31)
    (run : (machine Name Worker Consumer T maxSubqueueSize allocated).Run events state)
    (timely : ∀ name, ImplicitProducer.Timely (producerEvents name events)) :
    FreeList.Disciplined (listEvents events) ∧
      (∀ worker, state.list.pc worker ≠ .aborted) ∧
      (∀ name thread, (state.producers name).pc thread ≠ .aborted) ∧
      (∀ name other block, state.requisitioned name block = true →
        state.requisitioned other block = true → name = other) ∧
      (∀ name block, FreeList.held (listEvents events) block = false →
        state.requisitioned name block = false) ∧
      (∀ name block, state.requisitioned name block = false → ∀ offset, offset < 32 →
        ((state.producers name).shared.blocks block).elements offset = none) ∧
      ∀ block, (state.standing block).Free →
        (∀ name, state.requisitioned name block = false) ∧
        ∀ name request currentTailIndex entry, request.block = some block →
          (state.producers name).pc .producer = .enqRequisition request currentTailIndex entry →
          ∃ after, (machine Name Worker Consumer T maxSubqueueSize allocated).step state
            (.producer name (.run .producer)) =
              some (after, .producer name (.ran .producer ⟨.requisition (some block), none⟩)) := by
  obtain ⟨disciplined, agrees⟩ := run_sound few run timely
  refine ⟨disciplined, fun worker aborted => ?_, fun name thread => ?_,
    fun name other block mine its => ?_, fun name block gone => ?_,
    fun name block unused => ?_, fun block free => ?_⟩
  · obtain ⟨_, _, knowing⟩ := FreeList.run_sound few (run_list run)
    have facts := knowing worker disciplined
    rw [aborted] at facts
    exact facts.knows
  · obtain ⟨_, _, facts⟩ := ImplicitProducer.run_sound (run_producer run name) (timely name)
    exact (facts thread).alive
  · have used := (agrees.used name block).mp mine
    rw [(agrees.used other block).mp its] at used
    exact (Standing.used.inj used).symm
  · refine agrees.unused (fun other => ?_) name
    rw [(agrees.listed block).mp gone]
    exact fun same => by cases same
  · exact ImplicitProducer.run_vacant (run_producer run name) (timely name) unused
  · have unused := agrees.unused free.apart.2
    refine ⟨unused, fun name request currentTailIndex entry asks stands => ?_⟩
    have here : (state.producers name).shared.requisitioned block = false := unused name
    have advanced : ImplicitProducer.advance maxSubqueueSize (state.producers name).shared
        ((state.producers name).pc .producer) =
          some ((state.producers name).shared.setRequisitioned block true,
            .enqResetEmpty request currentTailIndex entry block,
            ⟨.requisition (some block), none⟩) := by
      rw [stands]
      simp [ImplicitProducer.advance, ImplicitProducer.advanceEnqueue, asks, here]
    have moved : (producerMachine Consumer T maxSubqueueSize (allocated name)).step
        (state.producers name) (.run .producer) =
          some (_, .ran .producer ⟨.requisition (some block), none⟩) :=
      Option.map_eq_some_iff.mpr ⟨_, advanced, rfl⟩
    have permitted : (Event.producer name (.ran .producer ⟨.requisition (some block), none⟩) :
        Event Name Worker Consumer T).permitted state.standing = true := decide_eq_true free
    exact ⟨_, Option.bind_eq_some_iff.mpr ⟨_, moved, if_pos permitted⟩⟩

end Run

/-- One producer fills a block, its consumer empties it and gives it back, and another
producer gets it from the list. -/
def recycling : List (Label Bool Unit Unit Nat) :=
  .producer false (.call .producer (.enqueue ⟨0, .canAlloc, true, some 0⟩)) ::
    List.replicate 10 (.producer false (.run .producer)) ++
  (List.range 31).flatMap (fun value =>
    .producer false (.call .producer (.enqueue ⟨value + 1, .canAlloc, true, none⟩)) ::
      List.replicate 3 (.producer false (.run .producer))) ++
  .producer false (.call (.consumer ()) (.dequeue (.bulk 32))) ::
    List.replicate 47 (.producer false (.run (.consumer ()))) ++
  .list (.call () (.add 0)) :: List.replicate 5 (.list (.run ())) ++
  .list (.call () .tryGet) :: List.replicate 7 (.list (.run ())) ++
  .producer true (.call .producer (.enqueue ⟨100, .canAlloc, true, some 0⟩)) ::
    List.replicate 10 (.producer true (.run .producer))

def recyclingEvents : List (Event Bool Unit Unit Nat) :=
  (((machine Bool Unit Unit Nat 0xFFFFFFFFFFFFFFFF fun _ => true).exec
    (machine Bool Unit Unit Nat 0xFFFFFFFFFFFFFFFF fun _ => true).start recycling).map
      Prod.fst).getD []

theorem recycling_run : ∃ state,
    (machine Bool Unit Unit Nat 0xFFFFFFFFFFFFFFFF fun _ => true).Run recyclingEvents state ∧
      state.requisitioned true 0 = true ∧
      ((state.producers true).shared.blocks 0).elements 0 = some 100 := by
  have done : ((machine Bool Unit Unit Nat 0xFFFFFFFFFFFFFFFF fun _ => true).exec
      (machine Bool Unit Unit Nat 0xFFFFFFFFFFFFFFFF fun _ => true).start recycling).map
        (fun last => (last.2.requisitioned true 0,
          ((last.2.producers true).shared.blocks 0).elements 0)) = some (true, some 100) := by
    decide +kernel
  obtain ⟨⟨events, state⟩, executed, ends⟩ := Option.map_eq_some_iff.mp done
  obtain ⟨used, holds⟩ := Prod.mk.inj ends
  have same : recyclingEvents = events := by simp only [recyclingEvents, executed]; rfl
  rw [same]
  exact ⟨state, Machine.exec_run _ recycling executed, used, holds⟩

theorem recycling_timely (name : Bool) :
    ImplicitProducer.Timely (producerEvents name recyclingEvents) := by
  cases name
  · exact .of_check (by decide +kernel)
  · exact .of_check (by decide +kernel)

theorem blocks_in_one_hand_recycling : ∃ state,
    (machine Bool Unit Unit Nat 0xFFFFFFFFFFFFFFFF fun _ => true).Run recyclingEvents state ∧
      ImplicitProducer.published (producerEvents true recyclingEvents) = [100] ∧
      state.requisitioned true 0 = true ∧ state.requisitioned false 0 = false := by
  obtain ⟨state, run, used, _⟩ := recycling_run
  obtain ⟨_, _, _, once, _⟩ := blocks_in_one_hand (by decide) run recycling_timely
  refine ⟨state, run, by decide +kernel, used, ?_⟩
  rw [← Bool.not_eq_true]
  intro both
  cases once false true 0 both used

end DmLockFree.ConcurrentQueue.BlockPool
