import DmLockFree.CDMAtomicQueue.Alone
import DmLockFree.CDMAtomicQueue.Run

/-!
# `size()` and `empty()` for any caller

The producer, the consumer and a third thread, all of which may ask for the
size. The answer is made of two loads, and it is the number of elements at a
moment between them if there is a moment at which both indices had the loaded
values.
-/

set_option autoImplicit false

namespace DmLockFree.CDMAtomicQueue

open Library Program

variable {T : Type}

inductive Party where
  | producer
  | consumer
  | observer
  deriving DecidableEq, Repr

def Party.enter : Party → Pc T → Call T → Option (Pc T)
  | _, .idle ready, .observe kind order => some (.observeFirst kind order ready)
  | .producer, pc, call => CDMAtomicQueue.enter .producer pc call
  | .consumer, pc, call => CDMAtomicQueue.enter .consumer pc call
  | .observer, _, _ => none

def watched (T : Type) : Program Party (CDMAtomicQueue T) (Pc T) (Call T) (Output T) where
  idle := .idle false
  enter := Party.enter
  advance := advance

abbrev Watched (T : Type) := Threads.Event Party (Call T) (Output T)

/-- The access stores the index that is loaded first in this order. -/
def Access.stores : Order → Access T → Bool
  | .headFirst, .storeHead | .tailFirst, .storeTail => true
  | _, _ => false

def storing (order : Order) (event : Watched T) : Bool :=
  (event.output.map fun output => output.access.stores order).getD false

/-- The elements in the queue after a history: those whose push has stored
`head_`, without those whose pop has stored `tail_`. -/
def held (events : List (Watched T)) : Nat :=
  events.countP (storing .headFirst) - events.countP (storing .tailFirst)

def Order.swap : Order → Order
  | .headFirst => .tailFirst
  | .tailFirst => .headFirst

/-- The order of a call, from the access of its second load. -/
def Access.order : Access T → Order
  | .loadTail => .headFirst
  | _ => .tailFirst

/-- Before the second load of a call the queue held `count` elements at some moment
since the first load, which was the last event of the caller. -/
def SeenBetween (party : Party) (events : List (Watched T)) (count : Nat) : Prop :=
  ∃ earlier access left right,
    events = earlier ++ .ran party ⟨access, none⟩ :: (left ++ right) ∧
    (∀ event ∈ left ++ right, event.thread ≠ party) ∧
    held (earlier ++ .ran party ⟨access, none⟩ :: left) = count

/-- No store to the index that is loaded first comes before a store to the other. -/
def Sorted (order : Order) (events : List (Watched T)) : Prop :=
  ∃ left right, events = left ++ right ∧ (∀ event ∈ left, storing order event = false) ∧
    ∀ event ∈ right, storing order.swap event = false

/-- The events since the last event of the party are sorted. -/
def Orderly (party : Party) (order : Order) (events : List (Watched T)) : Prop :=
  ∀ earlier first rest, events = earlier ++ first :: rest → first.thread = party →
    (∀ event ∈ rest, event.thread ≠ party) → Sorted order rest

theorem Sorted.of_first {order : Order} {events : List (Watched T)}
    (quiet : ∀ event ∈ events, storing order event = false) : Sorted order events :=
  ⟨events, [], (List.append_nil events).symm, quiet, List.forall_mem_nil _⟩

theorem Sorted.of_second {order : Order} {events : List (Watched T)}
    (quiet : ∀ event ∈ events, storing order.swap event = false) : Sorted order events :=
  ⟨[], events, rfl, List.forall_mem_nil _, quiet⟩

section Accesses

variable {queue after : CDMAtomicQueue T} {pc next : Pc T} {output : Output T}

/-- An index changes only by its store, and only the store of `head_` accepts. -/
theorem advance_indices (taken : advance queue pc = some (after, next, output)) :
    (output.access.stores .headFirst = false → after.head = queue.head) ∧
    (output.access.stores .tailFirst = false → after.tail = queue.tail) ∧
    output.accepted.length = if output.access.stores .headFirst then 1 else 0 := by
  cases advances taken with
  | emplaceStoreHead =>
      refine ⟨?_, fun _ => rfl, rfl⟩
      intro other
      cases other
  | popStoreTail =>
      refine ⟨fun _ => rfl, ?_, rfl⟩
      intro other
      cases other
  | observeTailSecond observer | observeHeadSecond observer =>
      cases observer <;> exact ⟨fun _ => rfl, fun _ => rfl, rfl⟩
  | _ => exact ⟨fun _ => rfl, fun _ => rfl, rfl⟩

/-- Only an emplace that is about to return stores `head_`. -/
theorem emplaceStoreHead_of_stores (taken : advance queue pc = some (after, next, output))
    (stores : output.access.stores .headFirst = true) :
    ∃ value nextHead, pc = .emplaceStoreHead value nextHead := by
  cases advances taken with
  | emplaceStoreHead value nextHead => exact ⟨value, nextHead, rfl⟩
  | _ => cases stores

/-- Only a pop that is about to return stores `tail_`. -/
theorem popStoreTail_of_stores (taken : advance queue pc = some (after, next, output))
    (stores : output.access.stores .tailFirst = true) : pc = .popStoreTail after.tail := by
  cases advances taken with
  | popStoreTail => rfl
  | _ => cases stores

theorem enter_ne_second {party : Party} {call : Call T} {kind : Observer} {order : Order}
    {ready : Bool} {first : UInt64} :
    party.enter pc call ≠ some (.observeSecond kind order ready first) := by
  intro entered
  cases pc with
  | idle known => cases party <;> cases call <;> cases known <;> cases entered
  | _ => cases party <;> cases call <;> cases entered

def Order.index (queue : CDMAtomicQueue T) : Order → UInt64
  | .headFirst => queue.head
  | .tailFirst => queue.tail

theorem advance_second {kind : Observer} {order : Order} {ready : Bool} {first : UInt64}
    (taken : advance queue pc = some (after, .observeSecond kind order ready first, output)) :
    after = queue ∧ first = order.index queue ∧ output.returned = none := by
  generalize point : Pc.observeSecond kind order ready first = next at taken
  cases advances taken with
  | observeHead | observeTail => cases point; exact ⟨rfl, rfl, rfl⟩
  | observeTailSecond observer | observeHeadSecond observer => cases observer <;> cases point
  | _ => cases point

def Return.asked : Return T → Bool
  | .size _ | .empty _ => true
  | _ => false

/-- `size()` and `empty()` answer what they would answer alone on any queue that has
both loaded indices. -/
theorem advance_answers {access : Access T} {returned : Return T}
    (taken : advance queue pc = some (after, next, ⟨access, some returned⟩))
    (asked : returned.asked = true) :
    ∃ kind ready first, pc = .observeSecond kind access.order ready first ∧
      ∀ middle : CDMAtomicQueue T, middle.capacity = queue.capacity →
        access.order.index middle = first →
        access.order.swap.index middle = access.order.swap.index queue →
        returned = (middle.observed ready middle.head middle.tail kind).2 := by
  cases advances taken with
  | observeTailSecond kind ready first =>
      refine ⟨kind, ready, first, rfl, ?_⟩
      rintro middle capacity rfl tail
      simp only [Access.order, Order.swap, Order.index] at tail ⊢
      rw [tail]
      cases kind <;> simp only [observed, sizeOf, capacity]
  | observeHeadSecond kind ready first =>
      refine ⟨kind, ready, first, rfl, ?_⟩
      rintro middle capacity rfl head
      simp only [Access.order, Order.swap, Order.index] at head ⊢
      rw [head]
      cases kind <;> simp only [observed, sizeOf, capacity]
  | _ => cases asked

end Accesses

section Invariant

variable {size : Nat} {contents later : Contents T} {queue after : CDMAtomicQueue T}
  {pc next : Pc T} {output : Output T} {memory : Memory} {party : Party}
  {events : List (Watched T)}

/-- A step of the consumer takes an element out exactly if it stores `tail_`. -/
theorem Sound.length_eq (sound : Sound size contents queue) (last : Sound size later after)
    {steps : Nat} (few : steps ≤ 1) (head : after.head = queue.head)
    (tail : after.tail.toNat = (queue.tail.toNat + steps) % size)
    (fewer : later.stored.length ≤ contents.stored.length) :
    contents.stored.length = later.stored.length + steps := by
  have large := sound.large
  have room := sound.ring.room
  have second := last.head
  rw [head, tail, Nat.mod_add_mod, sound.head] at second
  have inside : steps + later.stored.length < size := by
    by_contra whole
    exact Ring.mod_ne_of_window (by omega) (by omega) second
  have same := Ring.eq_of_mod_eq second (Nat.le_add_right _ _) (by omega) (by omega) (by omega)
  omega

theorem ConsumerKeeps.length_eq (sound : Sound size contents queue)
    (facts : ConsumerFacts size contents queue memory pc)
    (keeps : ConsumerKeeps size contents queue memory later after next output)
    (taken : advance queue pc = some (after, next, output)) :
    contents.stored.length =
      later.stored.length + if output.access.stores .tailFirst then 1 else 0 := by
  apply sound.length_eq keeps.sound
  case few => split <;> omega
  case head => exact keeps.head
  case fewer => exact keeps.fewer
  case tail =>
      cases stores : output.access.stores .tailFirst with
      | false =>
          rw [(advance_indices taken).2.1 stores]
          exact (Nat.mod_eq_of_lt sound.tail).symm
      | true =>
          have point := popStoreTail_of_stores taken stores
          subst point
          rw [facts.2]
          exact sound.next_toNat sound.tail

def Pc.observing : Pc T → Bool
  | .observeFirst .. | .observeSecond .. => true
  | _ => false

def Pc.resting : Pc T → Bool
  | .idle _ => true
  | pc => pc.observing

/-- The numbers of stores account for the elements in the ring. -/
def Counted (size : Nat) (events : List (Watched T)) (contents : Contents T)
    (queue : CDMAtomicQueue T) : Prop :=
  Sound size contents queue ∧
    events.countP (storing .headFirst) =
      events.countP (storing .tailFirst) + contents.stored.length

def PartyFacts (size : Nat) (party : Party) (_ : List (Watched T)) (contents : Contents T)
    (queue : CDMAtomicQueue T) (pc : Pc T) : Prop :=
  match party with
  | .producer =>
      (pc.observing = true ∧ contents.ahead = none) ∨ ProducerFacts size contents queue pc
  | .consumer => ∃ memory, ConsumerFacts size contents queue memory pc
  | .observer => pc.resting = true

theorem countP_ran (order : Order) :
    (events ++ [(.ran party output : Watched T)]).countP (storing order) =
      events.countP (storing order) + if output.access.stores order then 1 else 0 := by
  rw [List.countP_append, List.countP_singleton]
  rfl

/-- A step that only reads and leaves its caller where it may be. -/
theorem Counted.quiet (counted : Counted size events contents queue)
    (reads : ∀ order, output.access.stores order = false)
    (facts : PartyFacts size party events contents queue next) :
    Preserves (Counted size) (PartyFacts size) party events (.ran party output) contents contents
      queue queue next := by
  refine ⟨⟨counted.1, ?_⟩, ?_, ?_⟩
  · simp [List.countP_append, storing, Threads.Event.output, reads, counted.2]
  · cases party <;> exact facts
  · intro other _ pc otherFacts
    cases other <;> exact otherFacts

theorem observing_reads (observing : pc.observing = true)
    (taken : advance queue pc = some (after, next, output)) :
    after = queue ∧ next.resting = true ∧ ∀ order, output.access.stores order = false := by
  cases advances taken with
  | observeHead | observeTail => exact ⟨rfl, rfl, fun order => by cases order <;> rfl⟩
  | observeTailSecond observer | observeHeadSecond observer =>
      cases observer <;> exact ⟨rfl, rfl, fun order => by cases order <;> rfl⟩
  | _ => cases observing

theorem resting_facts (resting : pc.resting = true) (ahead : contents.ahead = none) :
    PartyFacts size .producer events contents queue pc := by
  cases pc with
  | idle => exact .inr ahead
  | observeFirst | observeSecond => exact .inl ⟨rfl, ahead⟩
  | _ => cases resting

theorem producer_counted (counted : Counted size events contents queue)
    (facts : PartyFacts size .producer events contents queue pc)
    (taken : advance queue pc = some (after, next, output)) :
    ∃ later, Preserves (Counted size) (PartyFacts size) .producer events (.ran .producer output)
      contents later queue after next := by
  rcases facts with ⟨observing, ahead⟩ | facts
  · obtain ⟨rfl, resting, reads⟩ := observing_reads observing taken
    exact ⟨contents, counted.quiet reads (resting_facts resting ahead)⟩
  · obtain ⟨later, moved⟩ := producer_advance counted.1 facts taken
    have accepted := (advance_indices taken).2.2
    have leaves : output.access.stores .tailFirst = false := by
      rw [← Bool.not_eq_true]
      intro stores
      rw [popStoreTail_of_stores taken stores] at facts
      exact facts
    refine ⟨later, ⟨moved.sound, ?_⟩, .inr moved.facts, ?_⟩
    · have grown := congrArg List.length moved.stored
      rw [List.length_append, accepted] at grown
      rw [countP_ran, countP_ran, leaves, counted.2, grown]
      simp only [Bool.false_eq_true, if_false]
      omega
    · intro other apart point otherFacts
      cases other with
      | producer => exact absurd rfl apart
      | consumer =>
          obtain ⟨memory, own⟩ := otherFacts
          exact ⟨memory, own.added moved.stored moved.hollow moved.tail moved.slot moved.next⟩
      | observer => exact otherFacts

theorem consumer_counted (counted : Counted size events contents queue)
    (facts : PartyFacts size .consumer events contents queue pc)
    (taken : advance queue pc = some (after, next, output)) :
    ∃ later, Preserves (Counted size) (PartyFacts size) .consumer events (.ran .consumer output)
      contents later queue after next := by
  obtain ⟨memory, own⟩ := facts
  obtain ⟨later, moved⟩ := consumer_advance counted.1 own taken
  have accepted := (advance_indices taken).2.2
  rw [moved.adds, List.length_nil] at accepted
  have leaves : output.access.stores .headFirst = false := by
    rw [← Bool.not_eq_true]
    intro stores
    rw [stores] at accepted
    cases accepted
  refine ⟨later, ⟨moved.sound, ?_⟩, ⟨_, moved.facts⟩, ?_⟩
  · have shrunk := moved.length_eq counted.1 own taken
    rw [countP_ran, countP_ran, leaves, counted.2, shrunk]
    simp only [Bool.false_eq_true, if_false]
    omega
  · intro other apart point otherFacts
    cases other with
    | producer =>
        rcases otherFacts with ⟨observing, ahead⟩ | facts
        · exact .inl ⟨observing, moved.ahead.trans ahead⟩
        · exact .inr (facts.taken moved.ahead moved.fewer moved.head moved.next)
    | consumer => exact absurd rfl apart
    | observer => exact otherFacts

theorem observer_counted (counted : Counted size events contents queue)
    (facts : PartyFacts size .observer events contents queue pc)
    (taken : advance queue pc = some (after, next, output)) :
    Preserves (Counted size) (PartyFacts size) .observer events (.ran .observer output)
      contents contents queue after next := by
  have observing : pc.observing = true := by
    cases pc with
    | idle => cases taken
    | observeFirst | observeSecond => rfl
    | _ => cases facts
  obtain ⟨rfl, resting, reads⟩ := observing_reads observing taken
  exact counted.quiet reads resting

theorem enter_counted (counted : Counted size events contents queue) {call : Call T}
    (facts : PartyFacts size party events contents queue pc)
    (entered : party.enter pc call = some next) :
    Preserves (Counted size) (PartyFacts size) party events (.called party call) contents contents
      queue queue next := by
  refine ⟨⟨counted.1, ?_⟩, ?_, ?_⟩
  · simp [List.countP_append, storing, Threads.Event.output, counted.2]
  · cases party with
    | producer =>
        rcases facts with ⟨observing, _⟩ | facts
        · cases pc with
          | observeFirst | observeSecond => cases call <;> cases entered
          | _ => cases observing
        · cases pc with
          | idle ready =>
              cases call <;> cases entered
              · exact .inr facts
              · exact .inl ⟨rfl, facts⟩
          | _ => cases call <;> cases entered
    | consumer =>
        obtain ⟨memory, own⟩ := facts
        cases pc with
        | idle ready =>
            cases call with
            | emplace => cases ready <;> cases entered
            | front => cases ready <;> cases entered <;> exact ⟨memory, own⟩
            | pop =>
                cases ready with
                | false => cases entered
                | true =>
                    cases entered
                    exact ⟨⟨false, none⟩, own.solid, own.present own.ready.symm, rfl⟩
            | observe => cases entered; exact ⟨memory, own⟩
        | _ => cases call <;> cases entered
    | observer =>
        cases pc with
        | idle => cases call <;> cases entered; rfl
        | _ => cases call <;> cases entered
  · intro other _ point otherFacts
    cases other <;> exact otherFacts

end Invariant

section Runs

variable {size : Nat} {start : CDMAtomicQueue T} {events : List (Watched T)}
  {state : Threads Party (CDMAtomicQueue T) (Pc T)}

theorem watched_invariant (built : Sound size ⟨[], none, false⟩ start)
    (run : ((watched T).machine start).Run events state) :
    ∃ contents, Counted size events contents state.shared ∧
      ∀ party, PartyFacts size party events contents state.shared (state.pc party) := by
  refine Program.run_invariant (Counted size) (PartyFacts size) ⟨built, rfl⟩ ?_
    (fun _ counted facts entered => ⟨_, enter_counted counted facts entered⟩) ?_ run
  · intro party
    cases party with
    | producer => exact .inr rfl
    | consumer => exact ⟨⟨false, none⟩, rfl, rfl, nofun, nofun⟩
    | observer => rfl
  · intro events contents state party after pc output _ counted facts taken
    cases party with
    | producer => exact producer_counted counted facts taken
    | consumer => exact consumer_counted counted facts taken
    | observer => exact ⟨contents, observer_counted counted facts taken⟩

/-- Each index is stored by one party only. -/
def Order.storer : Order → Party
  | .headFirst => .producer
  | .tailFirst => .consumer

theorem storing_party (built : Sound size ⟨[], none, false⟩ start)
    (run : ((watched T).machine start).Run events state)
    {after : Threads Party (CDMAtomicQueue T) (Pc T)} {event : Watched T}
    {label : Threads.Label Party (Call T)}
    (taken : ((watched T).machine start).step state label = some (after, event)) {order : Order}
    (stores : storing order event = true) : event.thread = order.storer := by
  obtain ⟨contents, _, facts⟩ := watched_invariant built run
  cases label with
  | call party call =>
      obtain ⟨_, _, same⟩ := Option.map_eq_some_iff.mp taken
      cases same
      cases stores
  | run party =>
      obtain ⟨⟨shared, pc, output⟩, advanced, same⟩ := Option.map_eq_some_iff.mp taken
      cases same
      have own := facts party
      cases order with
      | headFirst =>
          obtain ⟨value, nextHead, point⟩ := emplaceStoreHead_of_stores advanced stores
          rw [point] at own
          cases party with
          | producer => rfl
          | consumer => exact own.choose_spec.elim
          | observer => cases own
      | tailFirst =>
          rw [popStoreTail_of_stores advanced stores] at own
          cases party with
          | producer =>
              rcases own with ⟨observing, _⟩ | facts
              · cases observing
              · exact facts.elim
          | consumer => rfl
          | observer => cases own

theorem path_index {first last : Threads Party (CDMAtomicQueue T) (Pc T)} {order : Order}
    (path : ((watched T).machine start).Path first events last)
    (quiet : ∀ event ∈ events, storing order event = false) :
    order.index last.shared = order.index first.shared := by
  induction path with
  | refl => rfl
  | @snoc state after events label event _ taken ih =>
      have before := ih fun event member => quiet event (List.mem_append_left _ member)
      have reads := quiet event (List.mem_append_right _ (List.mem_singleton_self _))
      rw [← before]
      cases label with
      | call party call =>
          obtain ⟨_, _, same⟩ := Option.map_eq_some_iff.mp taken
          cases same
          rfl
      | run party =>
          obtain ⟨⟨shared, pc, output⟩, advanced, same⟩ := Option.map_eq_some_iff.mp taken
          cases same
          obtain ⟨head, tail, _⟩ := advance_indices advanced
          cases order with
          | headFirst => exact head reads
          | tailFirst => exact tail reads

/-- The event that leads to the second load is the first load. -/
theorem first_load {before after : Threads Party (CDMAtomicQueue T) (Pc T)}
    {event : Watched T} {label : Threads.Label Party (Call T)} {party : Party}
    {kind : Observer} {order : Order} {ready : Bool} {first : UInt64}
    (taken : ((watched T).machine start).step before label = some (after, event))
    (own : event.thread = party) (point : after.pc party = .observeSecond kind order ready first) :
    ∃ access, event = .ran party ⟨access, none⟩ ∧ first = order.index after.shared := by
  cases label with
  | call caller call =>
      obtain ⟨pc, entered, same⟩ := Option.map_eq_some_iff.mp taken
      cases same
      cases own
      rw [Threads.Event.thread, Threads.moved_pc_self] at point
      subst point
      exact absurd entered enter_ne_second
  | run caller =>
      obtain ⟨⟨shared, pc, output⟩, advanced, same⟩ := Option.map_eq_some_iff.mp taken
      cases same
      cases own
      rw [Threads.Event.thread, Threads.moved_pc_self] at point
      subst point
      obtain ⟨rfl, loaded, returned⟩ := advance_second advanced
      obtain ⟨access, _⟩ := output
      cases returned
      exact ⟨access, rfl, loaded⟩

/-- The events since a party's own last event store at most the other index. -/
theorem sorted_own (built : Sound size ⟨[], none, false⟩ start)
    {first last : Threads Party (CDMAtomicQueue T) (Pc T)} {rest : List (Watched T)}
    (run : ((watched T).machine start).Run events first)
    (path : ((watched T).machine start).Path first rest last) {party : Party}
    (others : ∀ event ∈ rest, event.thread ≠ party) (owner : party ≠ .observer) (order : Order) :
    Sorted order rest := by
  have quiet : ∀ index : Order, index.storer = party →
      ∀ event ∈ rest, storing index event = false := by
    intro index stores event member
    rw [← Bool.not_eq_true]
    intro storing
    obtain ⟨left, right, rfl⟩ := List.append_of_mem member
    rw [← List.singleton_append, ← List.append_assoc] at path
    obtain ⟨_, front, _⟩ := path.split
    obtain ⟨middle, before, step⟩ := front.split
    obtain ⟨label, taken⟩ := Machine.path_singleton step
    exact others event member ((storing_party built (run.trans before) taken storing).trans stores)
  cases party with
  | observer => exact absurd rfl owner
  | producer =>
      cases order with
      | headFirst => exact .of_first (quiet .headFirst rfl)
      | tailFirst => exact .of_second (quiet .headFirst rfl)
  | consumer =>
      cases order with
      | headFirst => exact .of_second (quiet .tailFirst rfl)
      | tailFirst => exact .of_first (quiet .tailFirst rfl)

/-- The moment at which the queue had both loaded indices. -/
theorem seen_between (built : Sound size ⟨[], none, false⟩ start)
    (run : ((watched T).machine start).Run events state) {party : Party} {kind : Observer}
    {order : Order} {ready : Bool} {first : UInt64}
    (point : state.pc party = .observeSecond kind order ready first)
    (orderly : party = .observer → Orderly party order events) :
    ∃ (contents : Contents T) (middle : CDMAtomicQueue T), Sound size contents middle ∧
      SeenBetween party events contents.stored.length ∧ order.index middle = first ∧
      order.swap.index middle = order.swap.index state.shared := by
  have busy : state.pc party ≠ (watched T).idle := by
    rw [point]
    nofun
  obtain ⟨earlier, event, rest, before, after, rfl, front, ⟨label, taken⟩, path, own, same,
    others⟩ := last_own run busy
  obtain ⟨access, rfl, loaded⟩ := first_load taken own (same.trans point)
  have loadedRun := front.snoc taken
  have sorted : Sorted order rest := by
    by_cases owner : party = .observer
    · exact orderly owner earlier _ rest rfl own others
    · exact sorted_own built loadedRun path others owner order
  obtain ⟨left, right, rfl, firstQuiet, secondQuiet⟩ := sorted
  obtain ⟨middle, toMiddle, fromMiddle⟩ := path.split
  obtain ⟨contents, ⟨sound, balance⟩, _⟩ := watched_invariant built (loadedRun.trans toMiddle)
  refine ⟨contents, middle.shared, sound, ⟨earlier, access, left, right, rfl, others, ?_⟩, ?_, ?_⟩
  · rw [List.append_assoc, List.singleton_append] at balance
    rw [held, balance, Nat.add_sub_cancel_left]
  · rw [path_index toMiddle firstQuiet]
    exact loaded.symm
  · exact (path_index fromMiddle secondQuiet).symm

end Runs

section Answers

variable {size : Nat} {contents : Contents T} {queue : CDMAtomicQueue T}

theorem Sound.head_toNat (sound : Sound size contents queue) :
    queue.head.toNat = if queue.tail.toNat + contents.stored.length < size
      then queue.tail.toNat + contents.stored.length
      else queue.tail.toNat + contents.stored.length - size := by
  have tail := sound.tail
  have room := sound.ring.room
  rw [sound.head]
  split
  case isTrue below => exact Nat.mod_eq_of_lt below
  case isFalse => rw [Nat.mod_eq_sub_mod (by omega), Nat.mod_eq_of_lt (by omega)]

/-- The signed difference is right as long as it fits its type. -/
theorem Sound.sizeOf_toNat (sound : Sound size contents queue) (fits : size ≤ 2 ^ 63) :
    (queue.sizeOf queue.head queue.tail).toNat = contents.stored.length := by
  have room := sound.ring.room
  have tail := sound.tail
  have head := sound.head_toNat
  have capacity := sound.capacity
  have difference : (queue.head - queue.tail).toNat =
      (2 ^ 64 - queue.tail.toNat + queue.head.toNat) % 2 ^ 64 :=
    UInt64.toNat_sub queue.head queue.tail
  rw [sizeOf]
  split at head
  case isTrue =>
      rw [if_neg (by omega)]
      omega
  case isFalse =>
      rw [if_pos (by omega), UInt64.toNat_add]
      omega

theorem Sound.sizeOf_zero (sound : Sound size contents queue) :
    (queue.sizeOf queue.head queue.tail == 0) = true ↔ contents.stored.length = 0 := by
  rw [beq_iff_eq]
  exact observed_empty sound le_rfl sound.head

end Answers

/-- One producer, one consumer and a third thread, any interleaving. What `size()`
returns is the number of elements at some moment between its two loads, and
`empty()` says whether that number is zero: for the two owners of the indices
always, for the third thread if no store to the index it loaded first came before
a store to the other. -/
theorem observers_see {sizeT capacity : UInt64} {start : CDMAtomicQueue T}
    {events : List (Watched T)} {state : Threads Party (CDMAtomicQueue T) (Pc T)} {party : Party}
    {access : Access T} {returned : Return T}
    (built : construct T sizeT capacity = some start)
    (run : ((watched T).machine start).Run
      (events ++ [.ran party ⟨access, some returned⟩]) state)
    (orderly : party = .observer → Orderly party access.order events) :
    (∀ value, returned = .size value → capacity.toNat ≤ 2 ^ 63 →
      SeenBetween party events value.toNat) ∧
    ∀ isEmpty, returned = .empty isEmpty →
      ∃ count, SeenBetween party events count ∧ (isEmpty = true ↔ count = 0) := by
  have sound := construct_sound built
  obtain ⟨before, earlier, last⟩ := run.split
  obtain ⟨label, taken⟩ := Machine.path_singleton last
  cases label with
  | call caller call =>
      obtain ⟨_, _, same⟩ := Option.map_eq_some_iff.mp taken
      cases same
  | run caller =>
      obtain ⟨⟨after, pc, output⟩, advanced, same⟩ := Option.map_eq_some_iff.mp taken
      cases same
      have seen : returned.asked = true → ∃ (contents : Contents T) (middle : CDMAtomicQueue T)
          (kind : Observer) (ready : Bool), Sound capacity.toNat contents middle ∧
          SeenBetween party events contents.stored.length ∧
          returned = (middle.observed ready middle.head middle.tail kind).2 := by
        intro asked
        obtain ⟨kind, ready, first, point, answers⟩ := advance_answers advanced asked
        obtain ⟨contents, middle, good, between, index, other⟩ :=
          seen_between sound earlier point orderly
        obtain ⟨_, ⟨now, _⟩, _⟩ := watched_invariant sound earlier
        have capacities : middle.capacity = before.shared.capacity := by
          rw [← UInt64.toNat_inj, good.capacity, now.capacity]
        exact ⟨contents, middle, kind, ready, good, between, answers middle capacities index other⟩
      constructor
      · rintro value rfl fits
        obtain ⟨contents, middle, kind, ready, good, between, answer⟩ := seen rfl
        cases kind <;> cases answer
        rw [good.sizeOf_toNat fits]
        exact between
      · intro isEmpty same
        subst same
        obtain ⟨contents, middle, kind, ready, good, between, answer⟩ := seen rfl
        cases kind <;> cases answer
        exact ⟨_, between, good.sizeOf_zero⟩

/-- One whole push by the producer. -/
def pushing (value : Nat) : List (Threads.Label Party (Call Nat)) :=
  [.call .producer (.tryPush (some value)), .run .producer, .run .producer, .run .producer,
    .run .producer]

def popping : List (Threads.Label Party (Call Nat)) :=
  [.call .consumer .front, .run .consumer, .run .consumer, .call .consumer .pop, .run .consumer,
    .run .consumer, .run .consumer, .run .consumer]

/-- The producer pushes and then asks for the size itself. -/
theorem observers_see_producer :
    ∃ (start : CDMAtomicQueue Nat) (events : List (Watched Nat))
      (state : Threads Party (CDMAtomicQueue Nat) (Pc Nat)),
      construct Nat 8 4 = some start ∧
      ((watched Nat).machine start).Run
        (events ++ [.ran .producer ⟨.loadTail, some (.size 1)⟩]) state ∧
      SeenBetween .producer events 1 := by
  have built : construct Nat 8 4 = some ⟨4, padding 8, fun _ => none, 0, 0⟩ := rfl
  have run := Machine.exec_run ((watched Nat).machine ⟨4, padding 8, fun _ => none, 0, 0⟩)
    (pushing 5 ++ [.call .producer (.observe .size .headFirst), .run .producer, .run .producer]) rfl
  rw [← List.dropLast_append_getLast (List.cons_ne_nil _ _)] at run
  refine ⟨_, _, _, built, run, ?_⟩
  exact (observers_see built run nofun).1 1 rfl (by decide)

/-- Moments between the loads are prefixes of the history after which the party does
nothing. -/
theorem SeenBetween.moment {party : Party} {events : List (Watched T)} {count : Nat}
    (seen : SeenBetween party events count) :
    ∃ moment, moment ≤ events.length ∧ (∀ event ∈ events.drop moment, event.thread ≠ party) ∧
      held (events.take moment) = count := by
  obtain ⟨earlier, access, left, right, rfl, others, held⟩ := seen
  refine ⟨(earlier ++ .ran party ⟨access, none⟩ :: left).length, ?_, ?_, ?_⟩
  · simp only [List.length_append, List.length_cons]
    omega
  · intro event member
    rw [← List.cons_append, ← List.append_assoc, List.drop_left] at member
    exact others event (List.mem_append_right _ member)
  · rw [← List.cons_append, ← List.append_assoc, List.take_left]
    exact held

/-- A push and a pop between the two loads of a third thread. -/
def crossing : List (Threads.Label Party (Call Nat)) :=
  List.flatten [pushing 5, [.call .observer (.observe .size .headFirst), .run .observer],
    pushing 6, popping, [.run .observer]]

/-- What these calls show, but for the second load. -/
def crossed : List (Watched Nat) :=
  List.flatten [pushed 5 16,
    [.called .observer (.observe .size .headFirst), .ran .observer ⟨.loadHead, none⟩],
    pushed 6 17, popped 5 16]
where
  pushed (value : Nat) (slot : UInt64) : List (Watched Nat) :=
    [.called .producer (.tryPush (some value)), .ran .producer ⟨.loadHead, none⟩,
      .ran .producer ⟨.loadTail, none⟩, .ran .producer ⟨.construct slot (some value), none⟩,
      .ran .producer ⟨.storeHead, some (.emplaced value)⟩]
  popped (value : Nat) (slot : UInt64) : List (Watched Nat) :=
    [.called .consumer .front, .ran .consumer ⟨.loadTail, none⟩,
      .ran .consumer ⟨.loadHead, some (.front (some slot))⟩, .called .consumer .pop,
      .ran .consumer ⟨.loadTail, none⟩, .ran .consumer ⟨.loadHead, none⟩,
      .ran .consumer ⟨.destroy slot (some value), none⟩, .ran .consumer ⟨.storeTail, some .popped⟩]

/-- The queue is never empty between the loads, and `size()` returns zero. -/
theorem crossing_misses :
    ∃ (start : CDMAtomicQueue Nat) (state : Threads Party (CDMAtomicQueue Nat) (Pc Nat)),
      construct Nat 8 4 = some start ∧
      ((watched Nat).machine start).Run
        (crossed ++ [.ran .observer ⟨.loadTail, some (.size 0)⟩]) state ∧
      ¬SeenBetween .observer crossed 0 := by
  have built : construct Nat 8 4 = some ⟨4, padding 8, fun _ => none, 0, 0⟩ := rfl
  have run : ∃ state, ((watched Nat).machine ⟨4, padding 8, fun _ => none, 0, 0⟩).Run
      (crossed ++ [.ran .observer ⟨.loadTail, some (.size 0)⟩]) state :=
    ⟨_, Machine.exec_run _ crossing rfl⟩
  obtain ⟨state, run⟩ := run
  refine ⟨_, state, built, run, ?_⟩
  intro seen
  obtain ⟨moment, inside, others, count⟩ := seen.moment
  revert moment
  decide

section LargeCapacity

theorem producing_watched : Producing (watched T) .producer :=
  ⟨rfl, fun _ _ => rfl⟩

theorem countP_pushes {Thread : Type} (select : Threads.Event Thread (Call T) (Output T) → Bool)
    (thread : Thread) (value : T) {each : Nat}
    (once : ∀ slot, (pushEvents thread value slot).countP select = each)
    (queue : CDMAtomicQueue T) (count : Nat) :
    (pushesEvents thread value queue count).countP select = count * each := by
  induction count with
  | zero => rw [Nat.zero_mul]; rfl
  | succ count ih =>
      rw [pushesEvents, List.range_succ, List.flatMap_append, List.countP_append,
        List.flatMap_singleton, once, Nat.succ_mul]
      exact congrArg (· + each) ih

/-- If the last event is the caller's, only the present moment remains. -/
theorem SeenBetween.now {party : Party} {events : List (Watched T)} {last : Watched T}
    {count : Nat} (seen : SeenBetween party (events ++ [last]) count) (own : last.thread = party) :
    held (events ++ [last]) = count := by
  obtain ⟨earlier, access, left, right, same, others, held⟩ := seen
  rcases List.eq_nil_or_concat (left ++ right) with nothing | ⟨between, final, some⟩
  · obtain ⟨rfl, rfl⟩ := List.append_eq_nil_iff.mp nothing
    rw [same]
    exact held
  · rw [some, List.concat_eq_append, ← List.cons_append, ← List.append_assoc] at same
    obtain ⟨_, final⟩ := List.append_inj' same rfl
    cases final
    refine absurd own (others last ?_)
    rw [some]
    simp

/-- The producer pushes a number of elements and asks for the size. -/
theorem asks_after_pushes (start : CDMAtomicQueue T) (fresh : start.head = 0 ∧ start.tail = 0)
    (value : T) {count : Nat} (fits : count < start.capacity.toNat) :
    ∃ state, ((watched T).machine start).Run
      (((pushesEvents .producer value start count ++
        [.called .producer (.observe .size .headFirst)]) ++ [.ran .producer ⟨.loadHead, none⟩]) ++
        [.ran .producer ⟨.loadTail, some (.size (start.sizeOf (UInt64.ofNat count) 0))⟩])
      state := by
  obtain ⟨full, path, head, tail, capacity, ready, rests⟩ :=
    pushes_run producing_watched rfl value fresh fits
  have answer : full.shared.sizeOf full.shared.head full.shared.tail =
      start.sizeOf (UInt64.ofNat count) 0 := by
    rw [head, tail, sizeOf, sizeOf, capacity]
  have asked : (watched T).alone .producer [some (.observe .size .headFirst), none, none]
      full.shared (full.pc .producer) = some
        ([.called .producer (.observe .size .headFirst), .ran .producer ⟨.loadHead, none⟩,
          .ran .producer ⟨.loadTail, some (.size (start.sizeOf (UInt64.ofNat count) 0))⟩],
          full.shared, .idle ready) := by
    rw [rests, ← answer]
    rfl
  simp only [List.append_assoc, List.cons_append, List.nil_append]
  exact ⟨_, path.trans (alone_path asked)⟩

theorem held_after_pushes (value : T) (start : CDMAtomicQueue T) (count : Nat) :
    held ((pushesEvents .producer value start count ++
      [.called .producer (.observe .size .headFirst)]) ++ [.ran .producer ⟨.loadHead, none⟩]) =
        count := by
  rw [held, List.countP_append, List.countP_append, List.countP_append, List.countP_append,
    countP_pushes _ _ _ (fun _ => rfl), countP_pushes _ _ _ (fun _ => rfl)]
  show count * 1 + 0 + 0 - (count * 0 + 0 + 0) = count
  omega

/-- With more than `2 ^ 63` slots the signed difference overflows: the producer
pushes `2 ^ 63` elements and reads a size that the queue did not have. -/
theorem large_misread {sizeT capacity : UInt64} (large : 2 ^ 63 < capacity.toNat) (value : T) :
    ∃ (start : CDMAtomicQueue T) (events : List (Watched T))
      (state : Threads Party (CDMAtomicQueue T) (Pc T)) (size : UInt64),
      construct T sizeT capacity = some start ∧
      ((watched T).machine start).Run
        (events ++ [.ran .producer ⟨.loadTail, some (.size size)⟩]) state ∧
      ¬SeenBetween .producer events size.toNat := by
  have small := capacity.toNat_lt
  have enough : ¬capacity < 2 := by
    rw [UInt64.not_lt, UInt64.le_iff_toNat_le]
    exact le_trans (by decide) large.le
  obtain ⟨count, half⟩ : ∃ count, count = 2 ^ 63 := ⟨_, rfl⟩
  obtain ⟨state, run⟩ := asks_after_pushes ⟨capacity, padding sizeT, fun _ => none, 0, 0⟩
    ⟨rfl, rfl⟩ value (show count < capacity.toNat by omega)
  refine ⟨_, _, state, _, if_neg enough, run, ?_⟩
  intro seen
  have misread := seen.now rfl
  rw [held_after_pushes] at misread
  have pushed : (UInt64.ofNat count).toNat = 2 ^ 63 := by
    rw [half]
    rfl
  rw [sizeOf, UInt64.sub_zero, pushed, if_pos le_rfl, UInt64.toNat_add, pushed] at misread
  change count = (2 ^ 63 + capacity.toNat) % 2 ^ 64 at misread
  omega

end LargeCapacity

end DmLockFree.CDMAtomicQueue
