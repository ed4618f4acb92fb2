import DmLockFree.CAtomicQueue.Invariant
import DmLockFree.CAtomicQueue.Steps

/-! One producer and one consumer on a `CAtomicQueue`: who owns which object, and
what each thread knows at each of its program points. -/

set_option autoImplicit false

namespace DmLockFree.CAtomicQueue

open Library Program

variable {Consumer T : Type}

abbrev Event (Consumer T : Type) := Threads.Event (Thread Consumer) (Call T) (Output T)

abbrev State (Consumer T : Type) := Threads (Thread Consumer) (CAtomicQueue T) (Pc T)

def Output.pushed : Output T → List T
  | ⟨_, some (.pushed value true)⟩ => [value]
  | _ => []

def Access.popped : Access T → List (Option T)
  | .exchange _ (some _) object => [object]
  | _ => []

/-- The values for which `try_push` returned true. -/
def pushed (events : List (Event Consumer T)) : List T :=
  events.flatMap fun event => (event.output.map Output.pushed).getD []

/-- The objects behind the pointers that `pop` took out of their cells. -/
def popped (events : List (Event Consumer T)) : List (Option T) :=
  events.flatMap fun event => (event.output.map fun output => output.access.popped).getD []

/-- What the consumer remembers since its last `pop()`: whether it knows the queue
to be non-empty, and the pointer of its last `front()`. -/
structure Memory where
  ready : Bool
  held : Option Nat

def Memory.told (memory : Memory) : Output T → Memory
  | ⟨_, some (.front pointer)⟩ => ⟨memory.ready || pointer.isSome, pointer⟩
  | ⟨_, some (.empty result)⟩ => { memory with ready := memory.ready || !result }
  | _ => memory

def Memory.after (memory : Memory) : Event Consumer T → Memory
  | .called (.consumer _) .pop => ⟨false, none⟩
  | .ran (.consumer _) output => memory.told output
  | _ => memory

def memory (events : List (Event Consumer T)) : Memory :=
  events.foldl Memory.after ⟨false, none⟩

section Histories

variable (events : List (Event Consumer T)) (event : Event Consumer T)

@[simp] theorem pushed_snoc :
    pushed (events ++ [event]) =
      pushed events ++ (event.output.map Output.pushed).getD [] := by
  simp [pushed]

@[simp] theorem popped_snoc :
    popped (events ++ [event]) =
      popped events ++ (event.output.map fun output => output.access.popped).getD [] := by
  simp [popped]

@[simp] theorem memory_snoc :
    memory (events ++ [event]) = (memory events).after event := by
  simp [memory]

end Histories

/-- Besides the cells: an object that is allocated and not stored yet, one that is
taken out and not deleted yet, and a value that is published while its
`try_push` has not returned. -/
structure Ghost (T : Type) where
  contents : Contents Nat
  fresh : Option Nat
  removed : Option Nat
  publishing : List T

def Ghost.owned (ghost : Ghost T) : List Nat :=
  ghost.removed.toList ++
    (ghost.contents.remaining ++ (ghost.contents.ahead.toList ++ ghost.fresh.toList))

/-- The objects in the cells and in the producer's hand. -/
def Ghost.rest (ghost : Ghost T) : List Nat :=
  ghost.contents.remaining ++ (ghost.contents.ahead.toList ++ ghost.fresh.toList)

section Facts

variable (size : Nat) (ghost : Ghost T) (queue : CAtomicQueue T)

structure Offers (ahead fresh : Option Nat) (publishing : List T) : Prop where
  ahead : ghost.contents.ahead = ahead
  fresh : ghost.fresh = fresh
  publishing : ghost.publishing = publishing

/-- The snapshots of a `try_push` that found a free cell. -/
structure Room (nextTail : UInt64) : Prop where
  next : nextTail = queue.next queue.tail
  room : ghost.contents.stored.length + 1 < size

def ProducerFacts : Pc T → Prop
  | .idle | .pushLoadTail _ _ => Offers ghost none none []
  | .pushLoadHead _ _ currentTail nextTail =>
      Offers ghost none none [] ∧ currentTail = queue.tail ∧ nextTail = queue.next queue.tail
  | .pushAllocate _ _ currentTail nextTail =>
      Offers ghost none none [] ∧ currentTail = queue.tail ∧ Room size ghost queue nextTail
  | .pushStoreCell value pointer currentTail nextTail =>
      Offers ghost none (some pointer) [] ∧ queue.heap pointer = some value ∧
        currentTail = queue.tail ∧ Room size ghost queue nextTail
  | .pushStoreTail value nextTail =>
      ∃ pointer, Offers ghost (some pointer) none [] ∧ queue.heap pointer = some value ∧
        Room size ghost queue nextTail
  | .pushCountUp value => Offers ghost none none [value]
  | _ => False

/-- Between two pops: what the consumer remembers is right. -/
structure Waiting (memory : Memory) : Prop where
  solid : ghost.contents.hollow = false
  removed : ghost.removed = none
  present : memory.ready = true → ghost.contents.stored ≠ []
  held : ∀ pointer, memory.held = some pointer →
    ∃ rest, ghost.contents.stored = pointer :: rest

structure Popping (memory : Memory) (hollow : Bool) (removed : Option Nat) : Prop where
  hollow : ghost.contents.hollow = hollow
  removed : ghost.removed = removed
  forgotten : memory = ⟨false, none⟩

def ConsumerFacts (memory : Memory) : Pc T → Prop
  | .idle | .frontLoadHead | .emptyFirst _ => Waiting ghost memory
  | .frontLoadTail currentHead | .emptySecond .headFirst currentHead =>
      Waiting ghost memory ∧ currentHead = queue.head
  | .frontLoadCell currentHead =>
      Waiting ghost memory ∧ currentHead = queue.head ∧ ghost.contents.stored ≠ []
  | .emptySecond .tailFirst currentTail =>
      Waiting ghost memory ∧ ∃ used, used ≤ ghost.contents.stored.length ∧
        currentTail.toNat = (queue.head.toNat + used) % size
  | .popLoadHead => Popping ghost memory false none
  | .popLoadTail currentHead => Popping ghost memory false none ∧ currentHead = queue.head
  | .popExchange currentHead =>
      Popping ghost memory false none ∧ currentHead = queue.head ∧ ghost.contents.stored ≠ []
  | .popStoreHead currentHead pointer =>
      Popping ghost memory true (some pointer) ∧ currentHead = queue.head ∧
        ghost.contents.stored ≠ []
  | .popDelete pointer => Popping ghost memory false (some pointer)
  | .popCountDown => Popping ghost memory false none
  | _ => False

end Facts

section Rely

variable {size : Nat} {ghost later : Ghost T} {queue after : CAtomicQueue T}
  {memory : Memory} {pc : Pc T}

/-- The consumer takes pointers out, leaves `tail` alone and touches no object of
the producer. -/
theorem ProducerFacts.taken (facts : ProducerFacts size ghost queue pc)
    (ahead : later.contents.ahead = ghost.contents.ahead) (fresh : later.fresh = ghost.fresh)
    (publishing : later.publishing = ghost.publishing)
    (fewer : later.contents.stored.length ≤ ghost.contents.stored.length)
    (tail : after.tail = queue.tail) (next : after.next = queue.next)
    (heap : ∀ pointer, pointer ∈ ghost.contents.ahead.toList ++ ghost.fresh.toList →
      after.heap pointer = queue.heap pointer) : ProducerFacts size later after pc := by
  have offers : ∀ {first second : Option Nat} {third : List T},
      Offers ghost first second third → Offers later first second third :=
    fun before => ⟨ahead.trans before.ahead, fresh.trans before.fresh,
      publishing.trans before.publishing⟩
  have room : ∀ {nextTail : UInt64}, Room size ghost queue nextTail →
      Room size later after nextTail :=
    fun before => ⟨by rw [next, tail]; exact before.next, lt_of_le_of_lt (by omega) before.room⟩
  cases pc with
  | idle | pushLoadTail | pushCountUp => exact offers facts
  | pushLoadHead =>
      refine ⟨offers facts.1, facts.2.1.trans tail.symm, ?_⟩
      rw [next, tail]
      exact facts.2.2
  | pushAllocate => exact ⟨offers facts.1, facts.2.1.trans tail.symm, room facts.2.2⟩
  | pushStoreCell value pointer =>
      obtain ⟨offer, alive, currentTail, free⟩ := facts
      refine ⟨offers offer, ?_, currentTail.trans tail.symm, room free⟩
      rw [heap pointer (by simp [offer.fresh])]
      exact alive
  | pushStoreTail value =>
      obtain ⟨pointer, offer, alive, free⟩ := facts
      refine ⟨pointer, offers offer, ?_, room free⟩
      rw [heap pointer (by simp [offer.ahead])]
      exact alive
  | _ => exact facts

/-- The producer adds pointers and leaves `head` alone. -/
theorem ConsumerFacts.added {pointers : List Nat}
    (facts : ConsumerFacts size ghost queue memory pc)
    (stored : later.contents.stored = ghost.contents.stored ++ pointers)
    (hollow : later.contents.hollow = ghost.contents.hollow)
    (removed : later.removed = ghost.removed) (head : after.head = queue.head) :
    ConsumerFacts size later after memory pc := by
  have present : ghost.contents.stored ≠ [] → later.contents.stored ≠ [] := by
    intro before
    rw [stored]
    exact List.append_ne_nil_of_left_ne_nil before pointers
  have waiting : Waiting ghost memory → Waiting later memory := by
    intro before
    refine ⟨hollow.trans before.solid, removed.trans before.removed,
      fun ready => present (before.present ready), fun pointer holds => ?_⟩
    obtain ⟨rest, first⟩ := before.held pointer holds
    exact ⟨rest ++ pointers, by rw [stored, first, List.cons_append]⟩
  have popping : ∀ {emptied : Bool} {taken : Option Nat}, Popping ghost memory emptied taken →
      Popping later memory emptied taken :=
    fun before => ⟨hollow.trans before.hollow, removed.trans before.removed, before.forgotten⟩
  cases pc with
  | idle | frontLoadHead | emptyFirst => exact waiting facts
  | frontLoadTail => exact ⟨waiting facts.1, facts.2.trans head.symm⟩
  | frontLoadCell => exact ⟨waiting facts.1, facts.2.1.trans head.symm, present facts.2.2⟩
  | emptySecond order first =>
      cases order with
      | headFirst => exact ⟨waiting facts.1, facts.2.trans head.symm⟩
      | tailFirst =>
          obtain ⟨before, used, fits, shown⟩ := facts
          refine ⟨waiting before, used, ?_, by rwa [head]⟩
          rw [stored, List.length_append]
          omega
  | popLoadHead | popDelete | popCountDown => exact popping facts
  | popLoadTail => exact ⟨popping facts.1, facts.2.trans head.symm⟩
  | popExchange | popStoreHead =>
      exact ⟨popping facts.1, facts.2.1.trans head.symm, present facts.2.2⟩
  | _ => exact facts

end Rely

section Guarantee

variable {size : Nat} {ghost : Ghost T} {queue after : CAtomicQueue T} {memory : Memory}
  {pc next : Pc T} {output : Output T}

structure ProducerKeeps (size : Nat) (ghost : Ghost T) (queue : CAtomicQueue T) (later : Ghost T)
    (after : CAtomicQueue T) (next : Pc T) (output : Output T) (pointers : List Nat) : Prop where
  sound : Sound size later.contents after
  owns : Owns later.owned after.heap
  facts : ProducerFacts size later after next
  stored : later.contents.stored = ghost.contents.stored ++ pointers
  hollow : later.contents.hollow = ghost.contents.hollow
  removed : later.removed = ghost.removed
  head : after.head = queue.head
  heap : ghost.contents.remaining.map after.heap = ghost.contents.remaining.map queue.heap
  adds : (output.pushed ++ later.publishing).map some =
    ghost.publishing.map some ++ pointers.map after.heap
  takes : output.access.popped = []

/-- The same step beside any other owners: `others` are the pointers that
consumers hold. -/
structure ProducerMoves (size : Nat) (others : List Nat) (ghost : Ghost T)
    (queue : CAtomicQueue T) (later : Ghost T) (after : CAtomicQueue T) (next : Pc T)
    (output : Output T) (pointers : List Nat) : Prop where
  sound : Sound size later.contents after
  owns : Owns (others ++ later.rest) after.heap
  facts : ProducerFacts size later after next
  stored : later.contents.stored = ghost.contents.stored ++ pointers
  hollow : later.contents.hollow = ghost.contents.hollow
  removed : later.removed = ghost.removed
  head : after.head = queue.head
  heap : ghost.contents.remaining.map after.heap = ghost.contents.remaining.map queue.heap
  adds : (output.pushed ++ later.publishing).map some =
    ghost.publishing.map some ++ pointers.map after.heap
  takes : output.access.popped = []

structure ConsumerKeeps (size : Nat) (ghost : Ghost T) (queue : CAtomicQueue T)
    (memory : Memory) (later : Ghost T) (after : CAtomicQueue T) (next : Pc T)
    (output : Output T) : Prop where
  sound : Sound size later.contents after
  owns : Owns later.owned after.heap
  facts : ConsumerFacts size later after (memory.told output) next
  ahead : later.contents.ahead = ghost.contents.ahead
  fresh : later.fresh = ghost.fresh
  publishing : later.publishing = ghost.publishing
  fewer : later.contents.stored.length ≤ ghost.contents.stored.length
  tail : after.tail = queue.tail
  next : after.next = queue.next
  heap : ∀ pointer, pointer ∈ ghost.contents.ahead.toList ++ ghost.fresh.toList →
    after.heap pointer = queue.heap pointer
  remaining : ghost.contents.remaining.map queue.heap =
    output.access.popped ++ later.contents.remaining.map after.heap
  adds : output.pushed = []

section ProducerMoves

variable {others : List Nat}

theorem ProducerMoves.quiet (sound : Sound size ghost.contents queue)
    (owns : Owns (others ++ ghost.rest) queue.heap) (facts : ProducerFacts size ghost queue next)
    (pushed : output.pushed = []) (popped : output.access.popped = []) :
    ProducerMoves size others ghost queue ghost queue next output [] := by
  constructor
  case sound => exact sound
  case owns => exact owns
  case facts => exact facts
  case stored => exact (List.append_nil _).symm
  case adds => rw [pushed, List.nil_append, List.map_nil, List.append_nil]
  case takes => exact popped
  all_goals rfl

theorem ProducerMoves.allocate (sound : Sound size ghost.contents queue)
    (owns : Owns (others ++ ghost.rest) queue.heap) (offers : Offers ghost none none [])
    {value : T} {pointer : Nat} {nextTail : UInt64} (room : Room size ghost queue nextTail)
    (dead : queue.heap pointer = none) :
    ProducerMoves size others ghost queue { ghost with fresh := some pointer }
      (queue.setHeap pointer (some value)) (.pushStoreCell value pointer queue.tail nextTail)
      ⟨.allocate pointer value, none⟩ [] := by
  have unowned : pointer ∉ ghost.contents.remaining := by
    intro member
    refine (owns.alive pointer).mpr ?_ dead
    exact List.mem_append_right _ (List.mem_append_left _ member)
  constructor
  case sound => exact sound.setHeap _ _
  case owns =>
      have allocated := owns.allocate dead value
      simpa [Ghost.rest, offers.fresh, setHeap] using allocated
  case facts =>
      exact ⟨⟨offers.ahead, rfl, offers.publishing⟩, Function.update_self .., rfl,
        room.next, room.room⟩
  case stored => exact (List.append_nil _).symm
  case heap => exact Owns.map_update unowned _
  case adds => simp [Output.pushed]
  all_goals rfl

/-- The object moves into the cell behind the stored ones. -/
theorem ProducerMoves.storeCell (sound : Sound size ghost.contents queue)
    (owns : Owns (others ++ ghost.rest) queue.heap) {value : T} {pointer : Nat}
    {nextTail : UInt64} (offers : Offers ghost none (some pointer) [])
    (alive : queue.heap pointer = some value) (room : Room size ghost queue nextTail) :
    ProducerMoves size others ghost queue
      { ghost with contents := { ghost.contents with ahead := some pointer }, fresh := none }
      (queue.setCell queue.tail (some pointer)) (.pushStoreTail value nextTail)
      ⟨.storeCell queue.tail pointer, none⟩ [] := by
  constructor
  case sound => exact sound.storeCell pointer
  case owns =>
      have owned : Ghost.rest { ghost with
          contents := { ghost.contents with ahead := some pointer }, fresh := none } =
            ghost.rest := by
        simp [Ghost.rest, Contents.remaining, offers.ahead, offers.fresh]
      rw [owned]
      exact owns
  case facts => exact ⟨pointer, ⟨rfl, rfl, offers.publishing⟩, alive, room.next, room.room⟩
  case stored => exact (List.append_nil _).symm
  case adds => simp [Output.pushed]
  all_goals rfl

/-- The store of `tail` publishes the cell. -/
theorem ProducerMoves.storeTail (sound : Sound size ghost.contents queue)
    (owns : Owns (others ++ ghost.rest) queue.heap) {value : T} {pointer : Nat}
    (offers : Offers ghost (some pointer) none []) (alive : queue.heap pointer = some value)
    (room : ghost.contents.stored.length + 1 < size) :
    ProducerMoves size others ghost queue
      { ghost with
        contents := { ghost.contents with
          stored := ghost.contents.stored ++ [pointer], ahead := none },
        publishing := [value] }
      { queue with tail := queue.next queue.tail } (.pushCountUp value) ⟨.storeTail, none⟩
      [pointer] := by
  constructor
  case sound => exact sound.storeTail offers.ahead room
  case owns =>
      have more : Contents.remaining { ghost.contents with
          stored := ghost.contents.stored ++ [pointer], ahead := none } =
            ghost.contents.remaining ++ [pointer] :=
        Contents.remaining_append rfl rfl sound.ring.hollow
      have owned : Ghost.rest { ghost with
          contents := { ghost.contents with
            stored := ghost.contents.stored ++ [pointer], ahead := none },
          publishing := [value] } = ghost.rest := by
        simp [Ghost.rest, more, offers.ahead, offers.fresh]
      rw [owned]
      exact owns
  case facts => exact ⟨rfl, offers.fresh, rfl⟩
  case adds => simp [Output.pushed, offers.publishing, alive]
  all_goals rfl

theorem producer_moves (others : List Nat) (sound : Sound size ghost.contents queue)
    (owns : Owns (others ++ ghost.rest) queue.heap) (facts : ProducerFacts size ghost queue pc)
    (taken : advance queue pc = some (after, next, output)) :
    ∃ later pointers, ProducerMoves size others ghost queue later after next output pointers := by
  cases advances taken with
  | pushLoadTail => exact ⟨ghost, [], .quiet sound owns ⟨facts, rfl, rfl⟩ rfl rfl⟩
  | pushRefuses => exact ⟨ghost, [], .quiet sound owns facts.1 rfl rfl⟩
  | pushLoadHead value pointer currentTail nextTail free =>
      obtain ⟨offers, rfl, rfl⟩ := facts
      have fits := sound.ring.room
      rw [Ne, sound.full_iff] at free
      have room : ghost.contents.stored.length + 1 < size := by omega
      exact ⟨ghost, [], .quiet sound owns ⟨offers, rfl, rfl, room⟩ rfl rfl⟩
  | pushAllocate value pointer currentTail nextTail dead =>
      obtain ⟨offers, rfl, room⟩ := facts
      exact ⟨_, [], .allocate sound owns offers room dead⟩
  | pushStoreCell =>
      obtain ⟨offers, alive, rfl, room⟩ := facts
      exact ⟨_, [], .storeCell sound owns offers alive room⟩
  | pushStoreTail =>
      obtain ⟨pointer, offers, alive, rfl, room⟩ := facts
      exact ⟨_, [pointer], .storeTail sound owns offers alive room⟩
  | pushCountUp =>
      refine ⟨{ ghost with publishing := [] }, [], ?_⟩
      constructor
      case sound => exact sound.setSize _
      case owns => exact owns
      case facts => exact ⟨facts.ahead, facts.fresh, rfl⟩
      case stored => exact (List.append_nil _).symm
      case adds => rw [facts.publishing]; rfl
      all_goals rfl
  | _ => exact facts.elim

end ProducerMoves

theorem producer_advance (sound : Sound size ghost.contents queue)
    (owns : Owns ghost.owned queue.heap) (facts : ProducerFacts size ghost queue pc)
    (taken : advance queue pc = some (after, next, output)) :
    ∃ later pointers, ProducerKeeps size ghost queue later after next output pointers := by
  obtain ⟨later, pointers, moved⟩ := producer_moves ghost.removed.toList sound owns facts taken
  have owned : Owns later.owned after.heap := by
    have owns := moved.owns
    rw [← moved.removed] at owns
    exact owns
  exact ⟨later, pointers, moved.sound, owned, moved.facts, moved.stored, moved.hollow,
    moved.removed, moved.head, moved.heap, moved.adds, moved.takes⟩

section ConsumerKeeps

theorem ConsumerKeeps.quiet (sound : Sound size ghost.contents queue)
    (owns : Owns ghost.owned queue.heap)
    (facts : ConsumerFacts size ghost queue (memory.told output) next)
    (pushed : output.pushed = []) (popped : output.access.popped = []) :
    ConsumerKeeps size ghost queue memory ghost queue next output := by
  constructor
  case sound => exact sound
  case owns => exact owns
  case facts => exact facts
  case fewer => exact le_rfl
  case heap => exact fun _ _ => rfl
  case remaining => rw [popped, List.nil_append]
  case adds => exact pushed
  all_goals rfl

/-- An answer of `front` or `empty` that is right about the first cell. -/
theorem Waiting.told {later : Memory} (waiting : Waiting ghost memory)
    (ready : later.ready = true → memory.ready = true ∨ ghost.contents.stored ≠ [])
    (held : ∀ pointer, later.held = some pointer →
      ∃ rest, ghost.contents.stored = pointer :: rest) : Waiting ghost later where
  solid := waiting.solid
  removed := waiting.removed
  present := fun known => (ready known).elim waiting.present id
  held := held

/-- The answer of `empty`: in both orders the other index is the consumer's own. -/
theorem ConsumerKeeps.empty (sound : Sound size ghost.contents queue)
    (owns : Owns ghost.owned queue.heap) (waiting : Waiting ghost memory) {index : UInt64}
    {used : Nat} {access : Access T} (load : access.popped = [])
    (fits : used ≤ ghost.contents.stored.length)
    (shown : index.toNat = (queue.head.toNat + used) % size) :
    ConsumerKeeps size ghost queue memory ghost queue .idle
      ⟨access, some (.empty (queue.head == index))⟩ := by
  refine .quiet sound owns (waiting.told (fun known => ?_) waiting.held) rfl load
  rcases Bool.or_eq_true_iff.mp known with before | found
  · exact .inl before
  · right
    intro nothing
    rw [nothing] at fits
    have same := (sound.empty_iff (by rw [nothing]; exact fits) shown).mpr (Nat.le_zero.mp fits)
    simp [same] at found

theorem ConsumerKeeps.exchange (sound : Sound size ghost.contents queue)
    (owns : Owns ghost.owned queue.heap) (popping : Popping ghost memory false none)
    {pointer : Nat} {rest : List Nat} (stored : ghost.contents.stored = pointer :: rest) :
    ConsumerKeeps size ghost queue memory
      { ghost with contents := { ghost.contents with hollow := true }, removed := some pointer }
      (queue.setCell queue.head none) (.popStoreHead queue.head pointer)
      ⟨.exchange queue.head (some pointer) (queue.heap pointer), none⟩ := by
  have present : ghost.contents.stored ≠ [] := by
    rw [stored]
    exact List.cons_ne_nil pointer rest
  constructor
  case sound => exact sound.exchange present
  case owns =>
      have owned : Ghost.owned { ghost with
          contents := { ghost.contents with hollow := true }, removed := some pointer } =
            ghost.owned := by
        simp [Ghost.owned, Contents.remaining, popping.hollow, popping.removed, stored]
      rw [owned]
      exact owns
  case facts => exact ⟨⟨rfl, rfl, popping.forgotten⟩, rfl, present⟩
  case fewer => exact le_rfl
  case heap => exact fun _ _ => rfl
  case remaining => simp [Contents.remaining, Access.popped, popping.hollow, stored, setCell]
  all_goals rfl

theorem ConsumerKeeps.storeHead (sound : Sound size ghost.contents queue)
    (owns : Owns ghost.owned queue.heap) {pointer first : Nat} {rest : List Nat}
    (popping : Popping ghost memory true (some pointer))
    (stored : ghost.contents.stored = first :: rest) :
    ConsumerKeeps size ghost queue memory
      { ghost with contents := { ghost.contents with stored := rest, hollow := false } }
      { queue with head := queue.next queue.head } (.popDelete pointer) ⟨.storeHead, none⟩ := by
  have same : Contents.remaining { ghost.contents with stored := rest, hollow := false } =
      ghost.contents.remaining := by
    simp [Contents.remaining, popping.hollow, stored]
  constructor
  case sound => exact sound.storeHead stored popping.hollow
  case owns =>
      have owned : Ghost.owned { ghost with
          contents := { ghost.contents with stored := rest, hollow := false } } = ghost.owned := by
        simp only [Ghost.owned, same]
      rw [owned]
      exact owns
  case facts => exact ⟨rfl, popping.removed, popping.forgotten⟩
  case fewer => simp [stored]
  case heap => exact fun _ _ => rfl
  case remaining =>
      simp only [same]
      rfl
  all_goals rfl

theorem ConsumerKeeps.delete (sound : Sound size ghost.contents queue)
    (owns : Owns ghost.owned queue.heap) {pointer : Nat}
    (popping : Popping ghost memory false (some pointer)) :
    ConsumerKeeps size ghost queue memory { ghost with removed := none }
      (queue.setHeap pointer none) .popCountDown ⟨.delete pointer (queue.heap pointer), none⟩ := by
  have owned : ghost.owned = pointer :: (ghost.contents.remaining ++
      (ghost.contents.ahead.toList ++ ghost.fresh.toList)) := by
    simp [Ghost.owned, popping.removed]
  rw [owned] at owns
  have apart := (List.nodup_cons.mp owns.nodup).1
  constructor
  case sound => exact sound.setHeap _ _
  case owns => exact owns.free
  case facts => exact ⟨popping.hollow, rfl, popping.forgotten⟩
  case fewer => exact le_rfl
  case heap =>
      intro other member
      apply Function.update_of_ne
      intro same
      subst same
      exact apart (List.mem_append_right _ member)
  case remaining =>
      have unowned : pointer ∉ ghost.contents.remaining :=
        fun member => apart (List.mem_append_left _ member)
      exact (Owns.map_update unowned none).symm
  all_goals rfl

/-- A pop that returns, with or without a pointer: the consumer waits again. -/
theorem Popping.ends (popping : Popping ghost memory false none) : Waiting ghost memory := by
  constructor
  case solid => exact popping.hollow
  case removed => exact popping.removed
  case present => rw [popping.forgotten]; exact nofun
  case held => rw [popping.forgotten]; exact nofun

theorem consumer_advance (sound : Sound size ghost.contents queue)
    (owns : Owns ghost.owned queue.heap) (facts : ConsumerFacts size ghost queue memory pc)
    (taken : advance queue pc = some (after, next, output)) :
    ∃ later, ConsumerKeeps size ghost queue memory later after next output := by
  cases advances taken with
  | frontLoadHead | popLoadHead => exact ⟨ghost, .quiet sound owns ⟨facts, rfl⟩ rfl rfl⟩
  | frontNull =>
      obtain ⟨waiting, rfl⟩ := facts
      refine ⟨ghost, .quiet sound owns (waiting.told (fun known => .inl ?_) nofun) rfl rfl⟩
      simpa [Memory.told] using known
  | frontLoadTail currentHead apart =>
      obtain ⟨waiting, rfl⟩ := facts
      rw [Ne, sound.empty_iff le_rfl sound.tail, List.length_eq_zero_iff] at apart
      exact ⟨ghost, .quiet sound owns ⟨waiting, rfl, apart⟩ rfl rfl⟩
  | frontLoadCell currentHead pointer found =>
      obtain ⟨waiting, rfl, present⟩ := facts
      obtain ⟨first, rest, stored⟩ := List.exists_cons_of_ne_nil present
      rw [sound.cell_head stored, waiting.solid] at found
      cases found
      refine ⟨ghost, .quiet sound owns (waiting.told (fun _ => .inr present) ?_) rfl rfl⟩
      intro _ same
      cases same
      exact ⟨rest, stored⟩
  | popRefuses => exact ⟨ghost, .quiet sound owns facts.1.ends rfl rfl⟩
  | popLoadTail currentHead apart =>
      obtain ⟨popping, rfl⟩ := facts
      rw [Ne, sound.empty_iff le_rfl sound.tail, List.length_eq_zero_iff] at apart
      exact ⟨ghost, .quiet sound owns ⟨popping, rfl, apart⟩ rfl rfl⟩
  | popNull currentHead found =>
      obtain ⟨popping, rfl, present⟩ := facts
      obtain ⟨first, rest, stored⟩ := List.exists_cons_of_ne_nil present
      rw [sound.cell_head stored, popping.hollow] at found
      cases found
  | popExchange currentHead pointer found =>
      obtain ⟨popping, rfl, present⟩ := facts
      obtain ⟨first, rest, stored⟩ := List.exists_cons_of_ne_nil present
      rw [sound.cell_head stored, popping.hollow] at found
      cases found
      exact ⟨_, .exchange sound owns popping stored⟩
  | popStoreHead =>
      obtain ⟨popping, rfl, present⟩ := facts
      obtain ⟨first, rest, stored⟩ := List.exists_cons_of_ne_nil present
      exact ⟨_, .storeHead sound owns popping stored⟩
  | popDelete => exact ⟨_, .delete sound owns facts⟩
  | popCountDown =>
      refine ⟨ghost, ?_⟩
      constructor
      case sound => exact sound.setSize _
      case owns => exact owns
      case facts => exact Popping.ends facts
      case fewer => exact le_rfl
      case heap => exact fun _ _ => rfl
      all_goals rfl
  | emptyHead => exact ⟨ghost, .quiet sound owns ⟨facts, rfl⟩ rfl rfl⟩
  | emptyTail => exact ⟨ghost, .quiet sound owns ⟨facts, _, le_rfl, sound.tail⟩ rfl rfl⟩
  | emptyTailSecond =>
      obtain ⟨waiting, rfl⟩ := facts
      exact ⟨ghost, .empty sound owns waiting rfl le_rfl sound.tail⟩
  | emptyHeadSecond =>
      obtain ⟨waiting, used, fits, shown⟩ := facts
      exact ⟨ghost, .empty sound owns waiting rfl fits shown⟩
  | _ => exact facts.elim

end ConsumerKeeps

end Guarantee

def RunSound (size : Nat) (events : List (Event Unit T)) (ghost : Ghost T)
    (queue : CAtomicQueue T) : Prop :=
  Sound size ghost.contents queue ∧ Owns ghost.owned queue.heap ∧
    (pushed events ++ ghost.publishing).map some =
      popped events ++ ghost.contents.remaining.map queue.heap

def Facts (size : Nat) (thread : Thread Unit) (events : List (Event Unit T)) (ghost : Ghost T)
    (queue : CAtomicQueue T) : Pc T → Prop :=
  match thread with
  | .producer => ProducerFacts size ghost queue
  | .consumer _ => ConsumerFacts size ghost queue (memory events)

section Runs

variable {size : Nat} {start queue : CAtomicQueue T} {ghost : Ghost T}
  {events : List (Event Unit T)} {state : State Unit T} {thread : Thread Unit}

theorem enter_facts {before after : Pc T} {call : Call T}
    (facts : Facts size thread events ghost queue before)
    (entered : enter thread before call = some after) :
    Facts size thread (events ++ [.called thread call]) ghost queue after := by
  cases thread with
  | producer =>
      cases before <;> cases call <;> cases entered
      exact facts
  | consumer name =>
      simp only [Facts, memory_snoc] at facts ⊢
      cases before with
      | idle =>
          cases call with
          | tryPush => cases entered
          | pop => cases entered; exact ⟨facts.solid, facts.removed, rfl⟩
          | front | empty => cases entered; exact facts
      | _ => cases call <;> cases entered

theorem call_preserves (sound : RunSound size events ghost queue) {before after : Pc T}
    {call : Call T} (facts : Facts size thread events ghost queue before)
    (entered : enter thread before call = some after) :
    Preserves (RunSound size) (Facts size) thread events (.called thread call) ghost ghost
      queue queue after := by
  obtain ⟨good, owns, balance⟩ := sound
  refine ⟨⟨good, owns, ?_⟩, enter_facts facts entered, ?_⟩
  · rw [pushed_snoc, popped_snoc]
    simpa [Threads.Event.output] using balance
  · intro other apart pc otherFacts
    cases other with
    | producer => exact otherFacts
    | consumer name =>
        cases thread with
        | producer =>
            simp only [Facts, memory_snoc]
            exact otherFacts
        | consumer => exact absurd rfl apart

theorem advance_preserves (sound : RunSound size events ghost queue) {before pc : Pc T}
    {after : CAtomicQueue T} {output : Output T}
    (facts : Facts size thread events ghost queue before)
    (taken : advance queue before = some (after, pc, output)) :
    ∃ later, Preserves (RunSound size) (Facts size) thread events (.ran thread output) ghost
      later queue after pc := by
  obtain ⟨good, owns, balance⟩ := sound
  cases thread with
  | producer =>
      obtain ⟨later, pointers, moved⟩ := producer_advance good owns facts taken
      refine ⟨later, ⟨moved.sound, moved.owns, ?_⟩, moved.facts, ?_⟩
      · have more := Contents.remaining_append moved.stored moved.hollow good.ring.hollow
        rw [pushed_snoc, popped_snoc, more]
        change (pushed events ++ output.pushed ++ later.publishing).map some =
          popped events ++ output.access.popped ++ _
        rw [List.append_assoc, List.map_append, moved.adds, moved.takes, List.map_append,
          moved.heap, ← List.append_assoc, ← List.map_append, balance]
        simp
      · rintro (_ | name) apart other otherFacts
        · exact absurd rfl apart
        · simp only [Facts, memory_snoc]
          exact ConsumerFacts.added otherFacts moved.stored moved.hollow moved.removed moved.head
  | consumer name =>
      obtain ⟨later, moved⟩ := consumer_advance good owns facts taken
      refine ⟨later, ⟨moved.sound, moved.owns, ?_⟩, ?_, ?_⟩
      · rw [pushed_snoc, popped_snoc, moved.publishing]
        change (pushed events ++ output.pushed ++ ghost.publishing).map some =
          popped events ++ output.access.popped ++ _
        rw [moved.adds, List.append_nil, balance, moved.remaining, List.append_assoc]
      · simp only [Facts, memory_snoc]
        exact moved.facts
      · rintro (_ | other) apart pc otherFacts
        · exact ProducerFacts.taken otherFacts moved.ahead moved.fresh moved.publishing
            moved.fewer moved.tail moved.next moved.heap
        · exact absurd rfl apart

theorem run_invariant (built : Sound size ⟨[], none, false⟩ start)
    (clear : start.heap = fun _ => none)
    (run : ((program Unit T).machine start).Run events state) :
    ∃ ghost, RunSound size events ghost state.shared ∧
      ∀ thread, Facts size thread events ghost state.shared (state.pc thread) := by
  have sound : RunSound size [] ⟨⟨[], none, false⟩, none, none, []⟩ start :=
    ⟨built, by rw [clear]; exact .nil, rfl⟩
  refine Program.run_invariant (RunSound size) (Facts size) sound ?_
    (fun _ sound facts entered => ⟨_, call_preserves sound facts entered⟩)
    (fun _ sound facts taken => advance_preserves sound facts taken) run
  rintro (_ | _)
  · exact ⟨rfl, rfl, rfl⟩
  · exact ⟨rfl, rfl, nofun, nofun⟩

end Runs

end DmLockFree.CAtomicQueue
