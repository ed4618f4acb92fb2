import DmLockFree.CDMAtomicQueue.Invariant
import DmLockFree.CDMAtomicQueue.Steps

/-! One producer and one consumer on a `CDMAtomicQueue`: what each thread knows at
each of its program points, kept by every access of either thread. -/

set_option autoImplicit false

namespace DmLockFree.CDMAtomicQueue

open Library Program

variable {T : Type}

abbrev Event (T : Type) := Threads.Event Thread (Call T) (Output T)

abbrev State (T : Type) := Threads Thread (CDMAtomicQueue T) (Pc T)

def Output.accepted : Output T → List T
  | ⟨_, some (.emplaced value)⟩ => [value]
  | _ => []

def Access.destroyed : Access T → List T
  | .destroy _ (some value) => [value]
  | _ => []

def Output.destroyed (output : Output T) : List T := output.access.destroyed

/-- The values successfully emplaced. -/
def accepted (events : List (Event T)) : List T :=
  events.flatMap fun event => (event.output.map Output.accepted).getD []

/-- The values whose objects `pop` destroyed. -/
def popped (events : List (Event T)) : List T :=
  events.flatMap fun event => (event.output.map Output.destroyed).getD []

/-- What the consumer remembers: whether it knows the queue to be non-empty, and
the pointer of its last `front()` since its last `pop()`. -/
structure Memory where
  ready : Bool
  held : Option UInt64

def Memory.after (memory : Memory) : Event T → Memory
  | .called .consumer .pop => ⟨false, none⟩
  | .ran .consumer ⟨_, some (.front pointer)⟩ => ⟨memory.ready || pointer.isSome, pointer⟩
  | .ran .consumer ⟨_, some (.empty value)⟩ => { memory with ready := memory.ready || !value }
  | _ => memory

def memory (events : List (Event T)) : Memory := events.foldl Memory.after ⟨false, none⟩

section Histories

variable (events : List (Event T)) (event : Event T)

@[simp] theorem accepted_snoc :
    accepted (events ++ [event]) =
      accepted events ++ (event.output.map Output.accepted).getD [] := by
  simp [accepted]

@[simp] theorem popped_snoc :
    popped (events ++ [event]) =
      popped events ++ (event.output.map Output.destroyed).getD [] := by
  simp [popped]

@[simp] theorem memory_snoc :
    memory (events ++ [event]) = (memory events).after event := by
  simp [memory]

end Histories

section Facts

variable (size : Nat) (contents : Contents T) (queue : CDMAtomicQueue T)

def ProducerFacts : Pc T → Prop
  | .idle _ | .emplaceLoadHead _ _ => contents.ahead = none
  | .emplaceLoadTail _ _ head nextHead =>
      contents.ahead = none ∧ head = queue.head ∧ nextHead = queue.next queue.head
  | .emplaceConstruct _ head nextHead =>
      contents.ahead = none ∧ head = queue.head ∧ nextHead = queue.next queue.head ∧
        contents.stored.length + 1 < size
  | .emplaceStoreHead value nextHead =>
      contents.ahead = some value ∧ nextHead = queue.next queue.head ∧
        contents.stored.length + 1 < size
  | _ => False

/-- Between two pops: what the consumer remembers is right. -/
structure Waiting (memory : Memory) (ready : Bool) : Prop where
  solid : contents.hollow = false
  ready : ready = memory.ready
  present : memory.ready = true → contents.stored ≠ []
  held : ∀ pointer, memory.held = some pointer →
    pointer = queue.slot queue.tail ∧ contents.stored ≠ []

structure Popping (memory : Memory) (hollow : Bool) : Prop where
  hollow : contents.hollow = hollow
  present : contents.stored ≠ []
  forgotten : memory = ⟨false, none⟩

def ConsumerFacts (memory : Memory) : Pc T → Prop
  | .idle ready | .frontLoadTail ready | .observeFirst _ _ ready =>
      Waiting contents queue memory ready
  | .frontLoadHead ready tail => Waiting contents queue memory ready ∧ tail = queue.tail
  | .observeSecond _ .tailFirst ready first =>
      Waiting contents queue memory ready ∧ first = queue.tail
  | .observeSecond _ .headFirst ready first =>
      Waiting contents queue memory ready ∧ ∃ used, used ≤ contents.stored.length ∧
        first.toNat = (queue.tail.toNat + used) % size
  | .popLoadTail => Popping contents memory false
  | .popAssert tail | .popDestroy tail => Popping contents memory false ∧ tail = queue.tail
  | .popStoreTail nextTail =>
      Popping contents memory true ∧ nextTail = queue.next queue.tail
  | _ => False

end Facts

section Steps

variable {size : Nat} {contents later : Contents T} {queue after : CDMAtomicQueue T}
  {memory : Memory} {pc next : Pc T} {output : Output T}

/-- The consumer takes objects out and leaves `head_` alone. -/
theorem ProducerFacts.taken (facts : ProducerFacts size contents queue pc)
    (ahead : later.ahead = contents.ahead)
    (fewer : later.stored.length ≤ contents.stored.length) (head : after.head = queue.head)
    (next : after.next = queue.next) : ProducerFacts size later after pc := by
  cases pc <;> simp only [ProducerFacts, ahead, head, next] at facts ⊢
  case emplaceConstruct => exact ⟨facts.1, facts.2.1, facts.2.2.1, by omega⟩
  case emplaceStoreHead => exact ⟨facts.1, facts.2.1, by omega⟩
  all_goals exact facts

theorem Waiting.added {ready : Bool} {added : List T}
    (waiting : Waiting contents queue memory ready)
    (stored : later.stored = contents.stored ++ added) (hollow : later.hollow = contents.hollow)
    (tail : after.tail = queue.tail) (slot : after.slot = queue.slot) :
    Waiting later after memory ready := by
  refine ⟨hollow.trans waiting.solid, waiting.ready, fun ready => ?_, fun pointer holds => ?_⟩
  · rw [stored]
    exact List.append_ne_nil_of_left_ne_nil (waiting.present ready) added
  · rw [stored, slot, tail]
    obtain ⟨same, present⟩ := waiting.held pointer holds
    exact ⟨same, List.append_ne_nil_of_left_ne_nil present added⟩

/-- The producer adds objects and leaves `tail_` alone. -/
theorem ConsumerFacts.added {added : List T}
    (facts : ConsumerFacts size contents queue memory pc)
    (stored : later.stored = contents.stored ++ added) (hollow : later.hollow = contents.hollow)
    (tail : after.tail = queue.tail) (slot : after.slot = queue.slot)
    (next : after.next = queue.next) : ConsumerFacts size later after memory pc := by
  have popping : ∀ {emptied : Bool}, Popping contents memory emptied →
      Popping later memory emptied := by
    intro emptied popping
    refine ⟨hollow.trans popping.hollow, ?_, popping.forgotten⟩
    rw [stored]
    exact List.append_ne_nil_of_left_ne_nil popping.present added
  cases pc with
  | idle | frontLoadTail | observeFirst =>
      exact Waiting.added facts stored hollow tail slot
  | frontLoadHead ready index =>
      exact ⟨facts.1.added stored hollow tail slot, facts.2.trans tail.symm⟩
  | observeSecond observer order ready first =>
      cases order with
      | tailFirst => exact ⟨facts.1.added stored hollow tail slot, facts.2.trans tail.symm⟩
      | headFirst =>
          obtain ⟨waiting, used, fits, shown⟩ := facts
          refine ⟨waiting.added stored hollow tail slot, used, ?_, by rwa [tail]⟩
          rw [stored, List.length_append]
          omega
  | popLoadTail => exact popping facts
  | popAssert | popDestroy => exact ⟨popping facts.1, facts.2.trans tail.symm⟩
  | popStoreTail =>
      refine ⟨popping facts.1, ?_⟩
      rw [next, tail]
      exact facts.2
  | _ => exact facts

structure ProducerKeeps (size : Nat) (contents : Contents T) (queue : CDMAtomicQueue T)
    (later : Contents T) (after : CDMAtomicQueue T) (next : Pc T) (output : Output T) : Prop where
  sound : Sound size later after
  facts : ProducerFacts size later after next
  stored : later.stored = contents.stored ++ output.accepted
  hollow : later.hollow = contents.hollow
  tail : after.tail = queue.tail
  slot : after.slot = queue.slot
  next : after.next = queue.next
  takes : output.destroyed = []

structure ConsumerKeeps (size : Nat) (contents : Contents T) (queue : CDMAtomicQueue T)
    (memory : Memory) (later : Contents T) (after : CDMAtomicQueue T) (next : Pc T)
    (output : Output T) : Prop where
  sound : Sound size later after
  facts : ConsumerFacts size later after
    (memory.after (.ran .consumer output : Event T)) next
  ahead : later.ahead = contents.ahead
  fewer : later.stored.length ≤ contents.stored.length
  remaining : contents.remaining = output.destroyed ++ later.remaining
  head : after.head = queue.head
  next : after.next = queue.next
  adds : output.accepted = []

/-- A step that only reads, answers or throws. -/
theorem ProducerKeeps.quiet (sound : Sound size contents queue)
    (facts : ProducerFacts size contents queue next) (accepted : output.accepted = [])
    (destroyed : output.destroyed = []) :
    ProducerKeeps size contents queue contents queue next output := by
  constructor
  case sound => exact sound
  case facts => exact facts
  case stored => rw [accepted, List.append_nil]
  case takes => exact destroyed
  all_goals rfl

theorem producer_advance (sound : Sound size contents queue)
    (facts : ProducerFacts size contents queue pc)
    (taken : advance queue pc = some (after, next, output)) :
    ∃ later, ProducerKeeps size contents queue later after next output := by
  cases advances taken with
  | emplaceLoadHead => exact ⟨contents, .quiet sound ⟨facts, rfl, rfl⟩ rfl rfl⟩
  | emplaceSpins => exact ⟨contents, .quiet sound facts rfl rfl⟩
  | emplaceRefuses | emplaceThrows => exact ⟨contents, .quiet sound facts.1 rfl rfl⟩
  | emplaceLoadTail kind outcome head nextHead free =>
      obtain ⟨ahead, rfl, rfl⟩ := facts
      have fits := sound.ring.room
      rw [Ne, sound.full_iff] at free
      have room : contents.stored.length + 1 < size := by omega
      exact ⟨contents, .quiet sound ⟨ahead, rfl, rfl, room⟩ rfl rfl⟩
  | emplaceConstruct value =>
      obtain ⟨ahead, rfl, rfl, room⟩ := facts
      exact ⟨_, sound.construct value, ⟨rfl, rfl, room⟩, (List.append_nil _).symm, rfl, rfl,
        rfl, rfl, rfl⟩
  | emplaceStoreHead =>
      obtain ⟨ahead, rfl, room⟩ := facts
      exact ⟨_, sound.storeHead ahead room, rfl, rfl, rfl, rfl, rfl, rfl, rfl⟩
  | _ => exact facts.elim

theorem observed_empty (sound : Sound size contents queue) {head : UInt64} {used : Nat}
    (fits : used ≤ contents.stored.length)
    (shown : head.toNat = (queue.tail.toNat + used) % size) :
    queue.sizeOf head queue.tail = 0 ↔ used = 0 := by
  have positive := sound.large
  rw [sizeOf_eq_zero_iff, sound.empty_iff fits shown]
  · rw [shown, sound.capacity]; exact Nat.mod_lt _ (by omega)
  · rw [sound.capacity]; exact sound.tail

section ConsumerKeeps

theorem ConsumerKeeps.quiet (sound : Sound size contents queue)
    (facts : ConsumerFacts size contents queue
      (memory.after (.ran .consumer output : Event T)) next)
    (accepted : output.accepted = []) (destroyed : output.destroyed = []) :
    ConsumerKeeps size contents queue memory contents queue next output := by
  constructor
  case sound => exact sound
  case facts => exact facts
  case fewer => exact le_rfl
  case remaining => rw [destroyed, List.nil_append]
  case adds => exact accepted
  all_goals rfl

/-- The answers of `size` and `empty`: in both orders the other index is the
consumer's own. -/
theorem ConsumerKeeps.observes (sound : Sound size contents queue) {observer : Observer}
    {ready : Bool} {head : UInt64} {used : Nat} {access : Access T}
    (load : (Output.mk access none).destroyed = [])
    (waiting : Waiting contents queue memory ready) (fits : used ≤ contents.stored.length)
    (shown : head.toNat = (queue.tail.toNat + used) % size) :
    ConsumerKeeps size contents queue memory contents queue
      (queue.observed ready head queue.tail observer).1
      ⟨access, some (queue.observed ready head queue.tail observer).2⟩ := by
  cases observer with
  | size => exact .quiet sound waiting rfl load
  | empty =>
      have isEmpty := observed_empty sound fits shown
      refine .quiet sound ⟨waiting.solid, ?_, fun known => ?_, waiting.held⟩ rfl load
      · simp [Memory.after, observed, waiting.ready]
      · rcases Bool.or_eq_true_iff.mp known with before | found
        · exact waiting.present before
        · intro nothing
          rw [nothing] at fits
          have zero := isEmpty.mpr (Nat.le_zero.mp fits)
          simp [zero] at found

theorem ConsumerKeeps.destroy (sound : Sound size contents queue)
    (popping : Popping contents memory false) :
    ConsumerKeeps size contents queue memory { contents with hollow := true }
      (queue.setSlot queue.tail none) (.popStoreTail (queue.next queue.tail))
      ⟨.destroy (queue.slot queue.tail) (queue.slots (queue.slot queue.tail)), none⟩ := by
  obtain ⟨value, rest, stored⟩ := List.exists_cons_of_ne_nil popping.present
  have object := sound.slot_tail stored
  rw [popping.hollow, if_neg Bool.false_ne_true] at object
  constructor
  case sound => exact sound.destroy popping.present
  case facts => exact ⟨⟨rfl, popping.present, popping.forgotten⟩, rfl⟩
  case fewer => exact le_rfl
  case remaining =>
      simp [Contents.remaining, Output.destroyed, Access.destroyed, popping.hollow, object, stored]
  all_goals rfl

theorem ConsumerKeeps.storeTail (sound : Sound size contents queue)
    (popping : Popping contents memory true) :
    ∃ later, ConsumerKeeps size contents queue memory later
      { queue with tail := queue.next queue.tail } (.idle false) ⟨.storeTail, some .popped⟩ := by
  obtain ⟨value, rest, stored⟩ := List.exists_cons_of_ne_nil popping.present
  refine ⟨{ contents with stored := rest, hollow := false }, ?_⟩
  constructor
  case sound => exact sound.storeTail stored popping.hollow
  case facts =>
      refine ⟨rfl, ?_, ?_, ?_⟩
      · rw [popping.forgotten]; rfl
      · rw [popping.forgotten]; exact nofun
      · rw [popping.forgotten]; exact nofun
  case fewer => simp [stored]
  case remaining =>
      simp [Contents.remaining, Output.destroyed, Access.destroyed, popping.hollow, stored]
  all_goals rfl

theorem consumer_advance (sound : Sound size contents queue)
    (facts : ConsumerFacts size contents queue memory pc)
    (taken : advance queue pc = some (after, next, output)) :
    ∃ later, ConsumerKeeps size contents queue memory later after next output := by
  cases advances taken with
  | frontLoadTail | popLoadTail => exact ⟨contents, .quiet sound ⟨facts, rfl⟩ rfl rfl⟩
  | frontNull =>
      obtain ⟨waiting, rfl⟩ := facts
      refine ⟨contents, .quiet sound ⟨waiting.solid, ?_, ?_, nofun⟩ rfl rfl⟩
      · exact waiting.ready.trans (Bool.or_false _).symm
      · intro known
        exact waiting.present (by simpa [Memory.after] using known)
  | frontLoadHead ready tail apart =>
      obtain ⟨waiting, rfl⟩ := facts
      have present : contents.stored ≠ [] := by
        intro nothing
        exact apart ((sound.empty_iff le_rfl sound.head).mpr (by rw [nothing]; rfl))
      refine ⟨contents, .quiet sound
        ⟨waiting.solid, (Bool.or_true _).symm, fun _ => present, ?_⟩ rfl rfl⟩
      intro _ same
      cases same
      exact ⟨rfl, present⟩
  | popAssert => exact ⟨contents, .quiet sound facts rfl rfl⟩
  | popDestroy =>
      obtain ⟨popping, rfl⟩ := facts
      exact ⟨_, .destroy sound popping⟩
  | popStoreTail =>
      obtain ⟨popping, rfl⟩ := facts
      exact ConsumerKeeps.storeTail sound popping
  | observeHead => exact ⟨contents, .quiet sound ⟨facts, _, le_rfl, sound.head⟩ rfl rfl⟩
  | observeTail => exact ⟨contents, .quiet sound ⟨facts, rfl⟩ rfl rfl⟩
  | observeTailSecond =>
      obtain ⟨waiting, used, fits, shown⟩ := facts
      exact ⟨contents, .observes sound rfl waiting fits shown⟩
  | observeHeadSecond =>
      obtain ⟨waiting, rfl⟩ := facts
      exact ⟨contents, .observes sound rfl waiting le_rfl sound.head⟩
  | _ => exact facts.elim

end ConsumerKeeps

end Steps

def RunSound (size : Nat) (events : List (Event T)) (contents : Contents T)
    (queue : CDMAtomicQueue T) : Prop :=
  Sound size contents queue ∧ accepted events = popped events ++ contents.remaining

def Facts (size : Nat) (thread : Thread) (events : List (Event T)) (contents : Contents T)
    (queue : CDMAtomicQueue T) : Pc T → Prop :=
  match thread with
  | .producer => ProducerFacts size contents queue
  | .consumer => ConsumerFacts size contents queue (memory events)

section Runs

variable {size : Nat} {start queue : CDMAtomicQueue T} {contents : Contents T}
  {events : List (Event T)} {state : State T} {thread : Thread}

theorem enter_facts {before after : Pc T} {call : Call T}
    (facts : Facts size thread events contents queue before)
    (entered : enter thread before call = some after) :
    Facts size thread (events ++ [.called thread call]) contents queue after := by
  cases thread with
  | producer =>
      cases before <;> cases call <;> cases entered
      exact facts
  | consumer =>
      simp only [Facts, memory_snoc] at facts ⊢
      cases before with
      | idle ready =>
          cases call with
          | emplace => cases ready <;> cases entered
          | front =>
              cases ready <;> cases entered <;> exact facts
          | pop =>
              cases ready with
              | false => cases entered
              | true =>
                  cases entered
                  exact ⟨facts.solid, facts.present facts.ready.symm, rfl⟩
          | observe observer order => cases ready <;> cases entered <;> exact facts
      | _ => cases call <;> cases entered

theorem call_preserves (sound : RunSound size events contents queue) {before after : Pc T}
    {call : Call T} (facts : Facts size thread events contents queue before)
    (entered : enter thread before call = some after) :
    Preserves (RunSound size) (Facts size) thread events (.called thread call) contents contents
      queue queue after := by
  refine ⟨⟨sound.1, ?_⟩, enter_facts facts entered, ?_⟩
  · rw [accepted_snoc, popped_snoc, sound.2]
    simp [Threads.Event.output]
  · intro other apart pc otherFacts
    cases other with
    | producer => exact otherFacts
    | consumer =>
        cases thread with
        | producer =>
            simp only [Facts, memory_snoc]
            exact otherFacts
        | consumer => exact absurd rfl apart

theorem advance_preserves (sound : RunSound size events contents queue) {before pc : Pc T}
    {after : CDMAtomicQueue T} {output : Output T}
    (facts : Facts size thread events contents queue before)
    (taken : advance queue before = some (after, pc, output)) :
    ∃ later, Preserves (RunSound size) (Facts size) thread events (.ran thread output) contents
      later queue after pc := by
  obtain ⟨good, balance⟩ := sound
  cases thread with
  | producer =>
      obtain ⟨later, moved⟩ := producer_advance good facts taken
      refine ⟨later, ⟨moved.sound, ?_⟩, moved.facts, ?_⟩
      · rw [accepted_snoc, popped_snoc, balance,
          Contents.remaining_append moved.stored moved.hollow good.ring.hollow]
        simp [Threads.Event.output, moved.takes]
      · rintro (_ | _) apart other otherFacts
        · exact absurd rfl apart
        · simp only [Facts, memory_snoc]
          exact ConsumerFacts.added otherFacts moved.stored moved.hollow moved.tail moved.slot
            moved.next
  | consumer =>
      obtain ⟨later, moved⟩ := consumer_advance good facts taken
      refine ⟨later, ⟨moved.sound, ?_⟩, ?_, ?_⟩
      · rw [accepted_snoc, popped_snoc, balance, moved.remaining]
        simp [Threads.Event.output, moved.adds]
      · simp only [Facts, memory_snoc]
        exact moved.facts
      · rintro (_ | _) apart other otherFacts
        · exact ProducerFacts.taken otherFacts moved.ahead moved.fewer moved.head moved.next
        · exact absurd rfl apart

theorem run_invariant (built : Sound size ⟨[], none, false⟩ start)
    (run : ((program T).machine start).Run events state) :
    ∃ contents, RunSound size events contents state.shared ∧
      ∀ thread, Facts size thread events contents state.shared (state.pc thread) := by
  refine Program.run_invariant (RunSound size) (Facts size) ⟨built, rfl⟩ ?_
    (fun _ sound facts entered => ⟨_, call_preserves sound facts entered⟩)
    (fun _ sound facts taken => advance_preserves sound facts taken) run
  rintro (_ | _)
  · rfl
  · exact ⟨rfl, rfl, nofun, nofun⟩

end Runs

end DmLockFree.CDMAtomicQueue
