import DmLockFree.AtomicKFifo.Observers

/-! What an answer promises to the next transfer of the thread that got it, and
that the promise is kept whatever the other thread does in between. -/

set_option autoImplicit false

namespace DmLockFree.AtomicKFifo

open Library

/-- How many bytes an answer promises to the next get of the consumer, or to the
next put of the producer. -/
def Return.promise : Thread → Return → Nat
  | .consumer, .count .len value => value.toNat
  | .consumer, .read .peek _ amount => amount.toNat
  | .consumer, .flag .isEmpty false => 1
  | .producer, .count .avail value => value.toNat
  | .producer, .flag .isFull false => 1
  | _, _ => 0

@[simp] theorem Return.promise_len (value : UInt32) :
    (Return.count .len value).promise .consumer = value.toNat := rfl

@[simp] theorem Return.promise_peek (data : List UInt8) (amount : UInt32) :
    (Return.read .peek data amount).promise .consumer = amount.toNat := rfl

@[simp] theorem Return.promise_notEmpty :
    (Return.flag .isEmpty false).promise .consumer = 1 := rfl

@[simp] theorem Return.promise_avail (value : UInt32) :
    (Return.count .avail value).promise .producer = value.toNat := rfl

@[simp] theorem Return.promise_notFull :
    (Return.flag .isFull false).promise .producer = 1 := rfl

/-- A put or a get returns. -/
def Event.Transfers (event : Event) : Prop :=
  match event.returned with
  | some (.put _ _) | some (.read .get _ _) => True
  | _ => False

/-- Histories in which the thread got the answer and has moved no byte since. -/
inductive Answered (fifo : AtomicKFifo) (thread : Thread) (answer : Return) :
    List Event → State → Prop where
  | now {events : List Event} {state after : State} :
      (machine steadyRoles fifo).Run events state →
      (machine steadyRoles fifo).step state (.run thread) = some (after, ⟨thread, some answer⟩) →
      Answered fifo thread answer (events ++ [⟨thread, some answer⟩]) after
  | later {events : List Event} {state after : State} {label : Label} {event : Event} :
      Answered fifo thread answer events state →
      (machine steadyRoles fifo).step state label = some (after, event) →
      (event.thread = thread → ¬ event.Transfers) →
      Answered fifo thread answer (events ++ [event]) after

/-- Whatever the other thread does, the call of `thread` returns within `fuel`
of its own accesses, with an answer in `Good`. -/
abbrev ReturnsWithin (fifo : AtomicKFifo) (thread : Thread) (fuel : Nat)
    (Good : Return → Prop) (state : State) : Prop :=
  (machine steadyRoles fifo).AnswersWithin (.run thread) (fun event => event.thread ≠ thread)
    Event.returned Good fuel state

/-- The bytes are there, and a peek showed the next ones. -/
structure Present (answer : Return) (stream : List UInt8) (out : Nat) : Prop where
  enough : out + answer.promise .consumer ≤ stream.length
  shown : ∀ data count, answer = .read .peek data count →
    data.take count.toNat = (stream.drop out).take count.toNat

/-- The promise in terms of the two streams. -/
def Kept (exponent : Nat) (answer : Return) (stream : List UInt8) (out : Nat) : Thread → Prop
  | .producer => stream.length + answer.promise .producer ≤ out + 2 ^ exponent
  | .consumer => Present answer stream out

section Answers

variable {exponent out : Nat} {stream : List UInt8} {fifo after : AtomicKFifo} {pc next : Pc}
  {answer : Return} {state : State}

theorem Reading.peeked {transfer : Transfer} {kind : Read} {data : List UInt8} {count : UInt32}
    (reading : Reading stream out transfer transfer.actual.toNat)
    (left : kind.finish transfer = (next, some (.read .peek data count))) :
    out + count.toNat ≤ stream.length ∧
      data.take count.toNat = (stream.drop out).take count.toNat := by
  cases kind with
  | get => cases left
  | peek =>
      cases left
      exact ⟨reading.present, reading.copied.take_eq⟩

theorem ConsumerFacts.peeked {data : List UInt8} {count : UInt32}
    (sound : Sound exponent stream out fifo) (facts : ConsumerFacts exponent stream out pc)
    (taken : advance fifo pc = some (after, next, some (.read .peek data count))) :
    out + count.toNat ≤ stream.length ∧
      data.take count.toNat = (stream.drop out).take count.toNat := by
  generalize told : Return.read .peek data count = answer at taken
  cases advances taken with
  | readNothing =>
      cases told
      exact ⟨sound.ordered, rfl⟩
  | readCopyWhole kind transfer result next returned copied whole left =>
      cases told
      have reading : Reading stream out transfer 0 := facts
      have moved := sound.readFirst reading copied
      rw [sound.shape.segment_all reading.index whole] at moved
      exact moved.peeked left
  | readCopyRest kind transfer result next returned copied left =>
      cases told
      have reading : Reading stream out transfer (untilEnd exponent out) := facts
      have moved := sound.readRest reading copied
      exact moved.peeked left
  | observeOut observer => cases observer <;> cases told
  | _ => cases told

/-- Both load orders of `isEmpty`: what is seen of the stream is there. -/
theorem Sound.isEmpty_promise (sound : Sound exponent stream out fifo)
    {currentIn currentOut : UInt32} {seen : Nat} (shown : Shows currentIn seen)
    (own : Shows currentOut out) (above : out ≤ seen) (below : seen ≤ stream.length) :
    out + (Observer.isEmpty.result fifo currentIn currentOut).promise .consumer ≤
      stream.length := by
  have bounded := sound.bounded
  have word := sound.shape.word
  unfold Observer.result
  cases equal : currentIn == currentOut with
  | true => exact sound.ordered
  | false =>
      have apart : seen ≠ out := by
        rw [Ne, ← shown.eq_iff own above (by omega)]
        exact beq_eq_false_iff_ne.mp equal
      simp only [Return.promise_notEmpty]
      omega

theorem Invariant.told_consumer (good : Invariant exponent stream out state)
    (watching : Watching stream.length out state)
    (taken : advance state.fifo state.consumer = some (after, next, some answer)) :
    Present answer stream (out + (deliveredBytes (some answer)).length) := by
  have keeps := consumer_advance good.sound good.consumer taken
  cases answer with
  | put | reset =>
      constructor
      case enough => exact keeps.sound.ordered
      case shown =>
          intro _ _ same
          cases same
  | read kind data count =>
      cases kind with
      | get =>
          constructor
          case enough => exact keeps.sound.ordered
          case shown =>
              intro _ _ same
              cases same
      | peek =>
          obtain ⟨enough, shown⟩ := good.consumer.peeked good.sound taken
          constructor
          · exact enough
          · intro _ _ same
            cases same
            exact shown
  | count | flag =>
      constructor
      case shown =>
          intro _ _ same
          cases same
      have sees := watching.consumer
      rcases advance_observed taken trivial with
        ⟨observer, currentIn, point, same⟩ | ⟨currentOut, point, same⟩
      · rw [point] at sees
        obtain ⟨seen, shown, above, below⟩ := sees
        rw [same]
        cases observer with
        | isEmpty => exact good.sound.isEmpty_promise shown good.sound.outIdx above below
        | isFull | avail => exact good.sound.ordered
        | len =>
            have used := good.sound.used shown above below
            simp only [Observer.result, Return.promise_len, used, deliveredBytes, List.length_nil]
            omega
      · rw [point] at sees
        rw [same]
        exact good.sound.isEmpty_promise good.sound.inIdx sees good.sound.ordered le_rfl

theorem Invariant.told_producer (good : Invariant exponent stream out state)
    (watching : Watching stream.length out state)
    (taken : advance state.fifo state.producer = some (after, next, some answer)) :
    (stream ++ acceptedBytes (some answer)).length + answer.promise .producer ≤
      out + 2 ^ exponent := by
  have bounded := (producer_advance good.sound good.producer taken).sound.bounded
  cases answer with
  | put | read | reset => exact bounded
  | count | flag =>
      rcases advance_observed taken trivial with ⟨observer, currentIn, point, same⟩ | ⟨_, _, same⟩
      · have sees := watching.producer
        rw [point] at sees
        have ordered := good.sound.ordered
        have used := good.sound.used sees ordered le_rfl
        rw [same] at bounded ⊢
        cases observer with
        | isEmpty | len => exact bounded
        | avail =>
            have unused := good.sound.unused sees ordered le_rfl
            simp only [Observer.result, acceptedBytes, List.append_nil] at bounded ⊢
            simp only [Return.promise_avail, unused]
            omega
        | isFull =>
            simp only [Observer.result, acceptedBytes, List.append_nil] at bounded ⊢
            cases full : currentIn - state.fifo.outIdx == state.fifo.capacity with
            | true => exact bounded
            | false =>
                have apart := beq_eq_false_iff_ne.mp full
                rw [Ne, ← UInt32.toNat_inj, used, good.sound.shape.capacity] at apart
                simp only [Return.promise_notFull]
                omega
      · rw [same] at bounded ⊢
        exact bounded

theorem Invariant.own_end {roles : Roles} {start : AtomicKFifo} {last : State} {label : Label}
    {event : Event} (good : Invariant exponent stream out state)
    (taken : (machine roles start).step state label = some (last, event)) :
    (event.thread ≠ .producer → acceptedBytes event.returned = []) ∧
      (event.thread ≠ .consumer → deliveredBytes event.returned = []) := by
  obtain ⟨thread, _, _, _, _, _, rfl⟩ | ⟨thread, _, _, _, advanced, _, rfl⟩ := step_cases taken
  · exact ⟨fun _ => rfl, fun _ => rfl⟩
  · cases thread with
    | producer =>
        have keeps := producer_advance good.sound good.producer advanced
        exact ⟨fun other => absurd rfl other, fun _ => keeps.delivered⟩
    | consumer =>
        have keeps := consumer_advance good.sound good.consumer advanced
        exact ⟨fun _ => keeps.accepted, fun other => absurd rfl other⟩

theorem Event.no_bytes {event : Event} (quiet : ¬ event.Transfers) :
    acceptedBytes event.returned = [] ∧ deliveredBytes event.returned = [] := by
  unfold Event.Transfers at quiet
  cases returned : event.returned with
  | none => exact ⟨rfl, rfl⟩
  | some answer =>
      rw [returned] at quiet
      cases answer with
      | put => exact absurd trivial quiet
      | read kind => cases kind with
        | get => exact absurd trivial quiet
        | peek => exact ⟨rfl, rfl⟩
      | _ => exact ⟨rfl, rfl⟩

/-- The other thread's steps, and the own ones that move nothing, keep a promise. -/
theorem Kept.step {roles : Roles} {start : AtomicKFifo} {thread : Thread} {last : State}
    {label : Label} {event : Event} (kept : Kept exponent answer stream out thread)
    (good : Invariant exponent stream out state)
    (taken : (machine roles start).step state label = some (last, event))
    (quiet : event.thread = thread → ¬ event.Transfers) :
    Kept exponent answer (stream ++ acceptedBytes event.returned)
      (out + (deliveredBytes event.returned).length) thread := by
  have ends := good.own_end taken
  cases thread with
  | producer =>
      have nothing : acceptedBytes event.returned = [] := by
        by_cases own : event.thread = .producer
        · exact (Event.no_bytes (quiet own)).1
        · exact ends.1 own
      rw [nothing, List.append_nil]
      exact Nat.le_trans kept (Nat.add_le_add_right (Nat.le_add_right _ _) _)
  | consumer =>
      have nothing : deliveredBytes event.returned = [] := by
        by_cases own : event.thread = .consumer
        · exact (Event.no_bytes (quiet own)).2
        · exact ends.2 own
      obtain ⟨enough, shown⟩ := kept
      rw [nothing]
      constructor
      · rw [List.length_append]
        exact enough.trans (Nat.le_add_right _ _)
      · intro data count same
        have inside : count.toNat ≤ (stream.drop out).length := by
          rw [same, Return.promise_peek] at enough
          rw [List.length_drop]
          omega
        rw [shown data count same, List.length_nil, Nat.add_zero,
          List.drop_append_of_le_length (by omega), List.take_append_of_le_length inside]

/-- How many accesses a call still makes at most. -/
def Pc.remaining : Pc → Nat
  | .idle => 0
  | .putLoadIn _ _ | .readLoadOut _ _ _ => 5
  | .putLoadOut _ _ _ | .readLoadIn _ _ _ _ => 4
  | .putCopy _ | .readCopy _ _ => 3
  | .putCopyRest _ | .readCopyRest _ _ | .observeIn _ | .isEmptyOut | .resetIn => 2
  | .putStore _ | .getStore _ | .observeOut _ _ | .isEmptyIn _ | .resetOut => 1

/-- The thread is inside a put, or a get, of `amount` bytes for which there is
room, or which are there. -/
def Pc.Moves (amount : UInt32) : Thread → Pc → Prop
  | .producer, .putLoadIn _ len | .producer, .putLoadOut _ len _ => len = amount
  | .producer, .putCopy transfer | .producer, .putCopyRest transfer
  | .producer, .putStore transfer => transfer.actual = amount
  | .consumer, .readLoadOut .get _ len | .consumer, .readLoadIn .get _ len _ => len = amount
  | .consumer, .readCopy .get transfer | .consumer, .readCopyRest .get transfer
  | .consumer, .getStore transfer => transfer.actual = amount
  | _, _ => False

/-- An access of a transfer either goes on or returns the whole amount. -/
def Outcome (amount : UInt32) (thread : Thread) (pc next : Pc) (returned : Option Return)
    (Good : Return → Prop) : Prop :=
  match returned with
  | none => next.Moves amount thread ∧ next.remaining < pc.remaining
  | some value => Good value

theorem Outcome.mono {amount : UInt32} {thread : Thread} {returned : Option Return}
    {Good Better : Return → Prop} (outcome : Outcome amount thread pc next returned Good)
    (better : ∀ value, Good value → Better value) :
    Outcome amount thread pc next returned Better := by
  cases returned with
  | none => exact outcome
  | some value => exact better value outcome

theorem put_advance {amount : UInt32} (sound : Sound exponent stream out fifo)
    (facts : ProducerFacts exponent stream out fifo.buffer pc) (moves : pc.Moves amount .producer)
    (room : stream.length + amount.toNat ≤ out + 2 ^ exponent) {returned : Option Return}
    (taken : advance fifo pc = some (after, next, returned)) :
    Outcome amount .producer pc next returned fun value => ∃ data, value = .put data amount := by
  have whole : ∀ {currentIn : UInt32}, Shows currentIn stream.length →
      min amount (fifo.capacity - (currentIn - fifo.outIdx)) = amount := by
    intro currentIn index
    have ordered := sound.ordered
    rw [← UInt32.toNat_inj, UInt32.toNat_min', sound.freeSpace index]
    omega
  cases advances taken with
  | putNothing data len currentIn nothing =>
      obtain rfl : len = amount := moves
      exact ⟨data, by rw [← whole facts.2, nothing]⟩
  | putLoadOut data len currentIn =>
      obtain rfl : len = amount := moves
      exact ⟨whole facts.2, by simp [Pc.remaining]⟩
  | putLoadIn | putCopySplit | putCopyWhole | putCopyRest =>
      exact ⟨moves, by simp [Pc.remaining]⟩
  | putStore transfer => exact ⟨transfer.data, by rw [show transfer.actual = amount from moves]⟩
  | _ => exact moves.elim

theorem get_advance {amount : UInt32} (sound : Sound exponent stream out fifo)
    (facts : ConsumerFacts exponent stream out pc) (moves : pc.Moves amount .consumer)
    (enough : out + amount.toNat ≤ stream.length) {returned : Option Return}
    (taken : advance fifo pc = some (after, next, returned)) :
    Outcome amount .consumer pc next returned fun value => ∃ data,
      value = .read .get data amount ∧
        data.take amount.toNat = (stream.drop out).take amount.toNat := by
  have whole : ∀ {currentOut : UInt32}, Shows currentOut out →
      min amount (fifo.inIdx - currentOut) = amount := by
    intro currentOut index
    rw [← UInt32.toNat_inj, UInt32.toNat_min', sound.dataLen index]
    omega
  cases advances taken with
  | readNothing kind data len currentOut nothing =>
      cases kind with
      | peek => exact moves.elim
      | get =>
          obtain rfl : len = amount := moves
          rw [← whole facts.2, nothing]
          exact ⟨data, rfl, rfl⟩
  | readLoadIn kind data len currentOut =>
      cases kind with
      | peek => exact moves.elim
      | get =>
          obtain rfl : len = amount := moves
          exact ⟨whole facts.2, by simp [Pc.remaining]⟩
  | readLoadOut kind | readCopySplit kind =>
      cases kind with
      | peek => exact moves.elim
      | get => exact ⟨moves, by simp [Pc.remaining]⟩
  | readCopyWhole kind _ _ _ _ _ _ left | readCopyRest kind _ _ _ _ _ left =>
      cases kind with
      | peek => exact moves.elim
      | get =>
          cases left
          exact ⟨moves, by simp [Pc.remaining]⟩
  | getStore transfer =>
      have reading : Reading stream out transfer transfer.actual.toNat := facts
      rw [← show transfer.actual = amount from moves]
      exact ⟨transfer.data, rfl, reading.copied.take_eq⟩
  | _ => exact moves.elim

end Answers

section Runs

variable {exponent : Nat} {fifo : AtomicKFifo} {thread : Thread} {answer : Return}
  {events : List Event} {state : State}

theorem Answered.run (answered : Answered fifo thread answer events state) :
    (machine steadyRoles fifo).Run events state := by
  induction answered with
  | now run taken => exact run.snoc taken
  | later _ taken _ ih => exact ih.snoc taken

theorem Answered.kept (start : Invariant exponent [] 0 ⟨fifo, .idle, .idle⟩)
    (answered : Answered fifo thread answer events state) :
    Kept exponent answer (accepted events) (delivered events).length thread := by
  induction answered with
  | @now events _ _ run taken =>
      have good := (start.run steadyRoles_steady run).1
      have watching := start.watching steadyRoles_steady run
      have ends := good.own_end taken
      obtain ⟨_, _, _, advanced, _, same⟩ := run_step taken
      cases same
      rw [accepted_snoc, delivered_snoc, @List.length_append _ (delivered events)]
      cases thread with
      | producer =>
          rw [ends.2 nofun]
          exact good.told_producer watching advanced
      | consumer =>
          rw [ends.1 nofun, List.append_nil]
          exact good.told_consumer watching advanced
  | @later events _ _ _ _ before taken quiet ih =>
      rw [accepted_snoc, delivered_snoc, @List.length_append _ (delivered events)]
      exact ih.step (start.run steadyRoles_steady before.run).1 taken quiet

/-- A transfer of no more than what was promised returns, and moves it all. -/
theorem Kept.returns {amount : UInt32} {Good : Return → Prop}
    (start : Invariant exponent [] 0 ⟨fifo, .idle, .idle⟩)
    (outcome : ∀ {stream : List UInt8} {out : Nat} {state : State} {after : AtomicKFifo}
      {next : Pc} {returned : Option Return}, Invariant exponent stream out state →
      Kept exponent answer stream out thread → (state.pc thread).Moves amount thread →
      advance state.fifo (state.pc thread) = some (after, next, returned) →
      Outcome amount thread (state.pc thread) next returned Good)
    (run : (machine steadyRoles fifo).Run events state)
    (kept : Kept exponent answer (accepted events) (delivered events).length thread)
    (moves : (state.pc thread).Moves amount thread) {fuel : Nat}
    (bounded : (state.pc thread).remaining ≤ fuel) :
    ReturnsWithin fifo thread fuel Good state := by
  apply Machine.answersWithin_of_waiting fun fuel state => ∃ events,
    (machine steadyRoles fifo).Run events state ∧
      Kept exponent answer (accepted events) (delivered events).length thread ∧
      (state.pc thread).Moves amount thread ∧ (state.pc thread).remaining ≤ fuel
  case spent =>
      intro state ⟨_, _, _, moves, bounded⟩
      cases point : state.pc thread with
      | idle | observeIn | observeOut | isEmptyOut | isEmptyIn | resetIn | resetOut =>
          rw [point] at moves
          cases thread <;> exact moves.elim
      | _ =>
          rw [point] at bounded
          cases bounded
  case others =>
      intro fuel state after label event ⟨events, run, kept, moves, bounded⟩ taken foreign
      have good := (start.run steadyRoles_steady run).1
      refine ⟨events ++ [event], run.snoc taken, ?_, ?_⟩
      · rw [accepted_snoc, delivered_snoc, @List.length_append _ (delivered events)]
        exact kept.step good taken fun own => absurd own foreign
      · obtain ⟨other, _, _, _, _, rfl, rfl⟩ | ⟨other, _, _, _, _, rfl, rfl⟩ := step_cases taken
        · rw [State.moved_pc_of_ne _ _ _ foreign]
          exact ⟨moves, bounded⟩
        · rw [State.moved_pc_of_ne _ _ _ foreign]
          exact ⟨moves, bounded⟩
  case turn =>
      intro fuel state ⟨events, run, kept, moves, bounded⟩
      have good := (start.run steadyRoles_steady run).1
      have busy : state.pc thread ≠ .idle := by
        intro idle
        rw [idle] at moves
        cases thread <;> exact moves.elim
      obtain ⟨⟨after, next, returned⟩, advanced⟩ :=
        Option.isSome_iff_exists.mp (good.advance_isSome busy)
      have taken : (machine steadyRoles fifo).step state (.run thread) =
          some (state.moved after next thread, ⟨thread, returned⟩) := machine_run advanced
      have result := outcome good kept moves advanced
      refine ⟨_, _, taken, ?_⟩
      cases returned with
      | some value =>
          constructor
          · intro _ given
            cases given
            exact result
          · exact nofun
      | none =>
          constructor
          · exact nofun
          · intro _
            refine ⟨events ++ [⟨thread, none⟩], run.snoc taken, ?_, ?_⟩
            · rw [accepted_snoc, delivered_snoc, @List.length_append _ (delivered events)]
              exact kept.step good taken fun _ => id
            · rw [State.moved_pc]
              exact ⟨result.1, by have := result.2; omega⟩
  case waiting => exact ⟨events, run, kept, moves, bounded⟩

theorem Pc.remaining_le (pc : Pc) : pc.remaining ≤ 5 := by
  cases pc <;> simp [Pc.remaining]

theorem Answered.transfer {request : Call} {amount : UInt32} {Good : Return → Prop}
    {after : State} {event : Event} (start : Invariant exponent [] 0 ⟨fifo, .idle, .idle⟩)
    (answered : Answered fifo thread answer events state)
    (moves : request.entry.Moves amount thread)
    (called : (machine steadyRoles fifo).step state (.call thread request) = some (after, event))
    (outcome : ∀ {stream : List UInt8} {out : Nat} {state : State} {after : AtomicKFifo}
      {next : Pc} {returned : Option Return}, Invariant exponent stream out state →
      Kept exponent answer stream out thread → (state.pc thread).Moves amount thread →
      advance state.fifo (state.pc thread) = some (after, next, returned) →
      Outcome amount thread (state.pc thread) next returned Good) :
    ReturnsWithin fifo thread 5 Good after := by
  have good := (start.run steadyRoles_steady answered.run).1
  obtain ⟨_, _, _, rfl, rfl⟩ := call_step called
  have inside : ((state.moved state.fifo request.entry thread).pc thread).Moves amount thread := by
    rw [State.moved_pc]
    exact moves
  have kept := (answered.kept start).step good called fun _ => id
  rw [← List.length_append, ← accepted_snoc, ← delivered_snoc] at kept
  exact kept.returns start outcome (answered.run.snoc called) inside (Pc.remaining_le _)

end Runs

/-- The observers are reliable for the thread that calls them. However many steps
of the other thread lie between the answer and the transfer, and between the
accesses of either: a get of no more bytes than the consumer's `len`, `peek` or
`isEmpty` announced returns them all, and they are the peeked ones; a put of no
more than the producer's `avail` or `isFull` announced stores them all; and no
`len` or `avail`, called by either thread, exceeds the capacity. -/
theorem observers_reliable {requestedCapacity : UInt32} {fifo : AtomicKFifo}
    (built : construct requestedCapacity = some fifo) :
    (∀ answer events state data k after event, Answered fifo .consumer answer events state →
      k.toNat ≤ answer.promise .consumer →
      (machine steadyRoles fifo).step state (.call .consumer (.read .get data k)) =
        some (after, event) →
      ReturnsWithin fifo .consumer 5 (fun returned => ∃ bytes, returned = .read .get bytes k ∧
        ∀ peeked count, answer = .read .peek peeked count →
          bytes.take k.toNat = peeked.take k.toNat) after) ∧
    (∀ answer events state data k after event, Answered fifo .producer answer events state →
      k.toNat ≤ answer.promise .producer →
      (machine steadyRoles fifo).step state (.call .producer (.put data k)) =
        some (after, event) →
      ReturnsWithin fifo .producer 5 (fun returned => ∃ bytes, returned = .put bytes k) after) ∧
    (∀ events state, (machine steadyRoles fifo).Run events state →
      ∀ event ∈ events, ∀ observer value, event.returned = some (.count observer value) →
        value ≤ fifo.capacity) := by
  obtain ⟨exponent, start⟩ := construct_invariant built
  refine ⟨?_, ?_, ?_⟩
  · intro answer events state data k after event answered small called
    have moves : (Call.entry (.read .get data k)).Moves k .consumer := rfl
    refine answered.transfer start moves called ?_
    intro stream out state after next returned good kept moves advanced
    obtain ⟨enough, shown⟩ := kept
    have result := get_advance good.sound good.consumer moves (by omega) advanced
    apply result.mono
    intro value ⟨bytes, same, next⟩
    refine ⟨bytes, same, ?_⟩
    intro peeked count peek
    rw [peek] at small
    rw [next, ← Nat.min_eq_left (show k.toNat ≤ count.toNat from small), ← List.take_take,
      ← List.take_take, shown peeked count peek]
  · intro answer events state data k after event answered small called
    have moves : (Call.entry (.put data k)).Moves k .producer := rfl
    refine answered.transfer start moves called ?_
    intro stream out state after next returned good kept moves advanced
    exact put_advance good.sound good.producer moves
      (Nat.le_trans (Nat.add_le_add_left small _) kept) advanced
  · intro events state run
    induction run with
    | refl => exact fun _ member => nomatch member
    | @snoc state _ _ _ event path taken ih =>
        intro last member observer value counted
        rcases List.mem_append.mp member with before | now
        · exact ih last before observer value counted
        · obtain rfl := List.mem_singleton.mp now
          have good := (start.run steadyRoles_steady path).1
          have same : state.fifo.capacity = fifo.capacity := by
            rw [← UInt32.toNat_inj, good.sound.shape.capacity, start.sound.shape.capacity]
          obtain ⟨_, _, _, _, _, _, rfl⟩ | ⟨_, _, _, _, advanced, _, rfl⟩ := step_cases taken
          · cases counted
          · cases counted
            rw [← same]
            exact (start.watching steadyRoles_steady path).count_le good advanced

/-- Two bytes are put, and a peek is about to copy them. -/
def peeking : List Label :=
  [.call .producer (.put [7, 8] 2), .run .producer, .run .producer, .run .producer,
    .run .producer, .call .consumer (.read .peek [0, 0] 2), .run .consumer, .run .consumer]

theorem observers_reliable_peeked :
    ∃ fifo events state after, construct 1 = some fifo ∧
      Answered fifo .consumer (.read .peek [7, 8] 2) events state ∧
      (machine steadyRoles fifo).step state (.call .consumer (.read .get [0] 1)) =
        some (after, ⟨.consumer, none⟩) ∧
      ReturnsWithin fifo .consumer 5 (fun returned => ∃ bytes, returned = .read .get bytes 1 ∧
        ∀ peeked count, Return.read .peek [7, 8] 2 = .read .peek peeked count →
          bytes.take (1 : UInt32).toNat = peeked.take (1 : UInt32).toNat) after := by
  have built : construct 1 = some ⟨[0, 0], 2, 1, 0, 0⟩ := by decide
  have run := Machine.exec_path
    (show (machine steadyRoles ⟨[0, 0], 2, 1, 0, 0⟩).exec
      ⟨⟨[0, 0], 2, 1, 0, 0⟩, .idle, .idle⟩ peeking =
        some (_, ⟨⟨[7, 8], 2, 1, 2, 0⟩, .idle, .readCopy .peek ⟨[0, 0], 2, 0, 2⟩⟩) from rfl)
  have peeked : (machine steadyRoles ⟨[0, 0], 2, 1, 0, 0⟩).step
      ⟨⟨[7, 8], 2, 1, 2, 0⟩, .idle, .readCopy .peek ⟨[0, 0], 2, 0, 2⟩⟩ (.run .consumer) =
        some (⟨⟨[7, 8], 2, 1, 2, 0⟩, .idle, .idle⟩,
          ⟨.consumer, some (.read .peek [7, 8] 2)⟩) := rfl
  exact ⟨_, _, _, _, built, .now run peeked, rfl,
    (observers_reliable built).1 _ _ _ [0] 1 _ _ (.now run peeked) (by decide) rfl⟩

end DmLockFree.AtomicKFifo
