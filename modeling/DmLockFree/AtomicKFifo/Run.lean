import DmLockFree.AtomicKFifo.Invariant

/-! The invariant along every run of one producer and one consumer that do not
reset, in terms of the bytes that the history accepts and delivers. -/

set_option autoImplicit false

namespace DmLockFree.AtomicKFifo

open Library

/-- The bytes accepted by completed puts, in order. -/
def accepted (events : List Event) : List UInt8 :=
  events.flatMap fun event => acceptedBytes event.returned

/-- The bytes delivered by completed gets, in order. -/
def delivered (events : List Event) : List UInt8 :=
  events.flatMap fun event => deliveredBytes event.returned

@[simp] theorem acceptedBytes_none : acceptedBytes none = [] := rfl

@[simp] theorem deliveredBytes_none : deliveredBytes none = [] := rfl

@[simp] theorem accepted_snoc (events : List Event) (event : Event) :
    accepted (events ++ [event]) = accepted events ++ acceptedBytes event.returned := by
  simp [accepted]

@[simp] theorem delivered_snoc (events : List Event) (event : Event) :
    delivered (events ++ [event]) = delivered events ++ deliveredBytes event.returned := by
  simp [delivered]

/-- The answers that the next access of a call can give. -/
def Pc.Answers (fifo : AtomicKFifo) : Pc → Return → Prop
  | .putLoadOut data _ _, answer => answer = .put data 0
  | .putStore transfer, answer => answer = .put transfer.data transfer.actual
  | .readLoadIn kind data _ _, answer => answer = .read kind data 0
  | .readCopy .peek transfer, answer | .readCopyRest .peek transfer, answer =>
      ∃ data, answer = .read .peek data transfer.actual
  | .getStore transfer, answer => answer = .read .get transfer.data transfer.actual
  | .observeOut observer currentIn, answer =>
      answer = observer.result fifo currentIn fifo.outIdx
  | .isEmptyIn currentOut, answer =>
      answer = Observer.isEmpty.result fifo fifo.inIdx currentOut
  | .resetOut, answer => answer = .reset
  | _, _ => False

theorem advance_answers {fifo after : AtomicKFifo} {pc next : Pc} {answer : Return}
    (taken : advance fifo pc = some (after, next, some answer)) :
    next = .idle ∧ pc.Answers fifo answer := by
  cases advances taken with
  | readCopyWhole kind _ data _ _ _ _ left | readCopyRest kind _ data _ _ _ left =>
      cases kind <;> cases left
      exact ⟨rfl, data, rfl⟩
  | _ => exact ⟨rfl, rfl⟩

theorem call_step {roles : Roles} {fifo : AtomicKFifo} {state after : State} {thread : Thread}
    {call : Call} {event : Event}
    (taken : (machine roles fifo).step state (.call thread call) = some (after, event)) :
    roles thread call = true ∧ state.pc thread = .idle ∧ call.Supplied ∧
      after = state.moved state.fifo call.entry thread ∧ event = ⟨thread, none⟩ := by
  obtain ⟨permitted, taken⟩ := Machine.restrict_step taken
  simp only [step] at taken
  split at taken
  case isTrue ready =>
      cases taken
      exact ⟨permitted, ready.1, ready.2, rfl, rfl⟩
  case isFalse => cases taken

theorem run_step {roles : Roles} {fifo : AtomicKFifo} {state after : State} {thread : Thread}
    {event : Event}
    (taken : (machine roles fifo).step state (.run thread) = some (after, event)) :
    ∃ next pc returned, advance state.fifo (state.pc thread) = some (next, pc, returned) ∧
      after = state.moved next pc thread ∧ event = ⟨thread, returned⟩ := by
  obtain ⟨_, taken⟩ := Machine.restrict_step taken
  simp only [step, Option.map_eq_some_iff] at taken
  obtain ⟨⟨next, pc, returned⟩, advanced, same⟩ := taken
  cases same
  exact ⟨next, pc, returned, advanced, rfl, rfl⟩

theorem step_cases {roles : Roles} {fifo : AtomicKFifo} {state after : State} {label : Label}
    {event : Event} (taken : (machine roles fifo).step state label = some (after, event)) :
    (∃ thread call, roles thread call = true ∧ state.pc thread = .idle ∧ call.Supplied ∧
      after = state.moved state.fifo call.entry thread ∧ event = ⟨thread, none⟩) ∨
    (∃ thread next pc returned,
      advance state.fifo (state.pc thread) = some (next, pc, returned) ∧
      after = state.moved next pc thread ∧ event = ⟨thread, returned⟩) := by
  cases label with
  | call thread call => exact .inl ⟨thread, call, call_step taken⟩
  | run thread => exact .inr ⟨thread, run_step taken⟩

theorem machine_run {roles : Roles} {fifo after : AtomicKFifo} {state : State} {thread : Thread}
    {pc : Pc} {returned : Option Return}
    (advanced : advance state.fifo (state.pc thread) = some (after, pc, returned)) :
    (machine roles fifo).step state (.run thread) =
      some (state.moved after pc thread, ⟨thread, returned⟩) := by
  unfold machine Machine.restrict
  simp only [Roles.Permits, if_true, step, advanced, Option.map_some]

theorem State.moved_pc (state : State) (fifo : AtomicKFifo) (pc : Pc) (thread : Thread) :
    (state.moved fifo pc thread).pc thread = pc := by
  cases thread <;> rfl

theorem State.moved_fifo (state : State) (fifo : AtomicKFifo) (pc : Pc) (thread : Thread) :
    (state.moved fifo pc thread).fifo = fifo := by
  cases thread <;> rfl

theorem State.moved_pc_of_ne (state : State) (fifo : AtomicKFifo) (pc : Pc)
    {thread other : Thread} (apart : thread ≠ other) :
    (state.moved fifo pc thread).pc other = state.pc other := by
  cases thread <;> cases other <;> first | rfl | exact absurd rfl apart

/-- Roles under which neither thread resets and each uses its own end. -/
def Steady (roles : Roles) : Prop :=
  ∀ thread call, roles thread call = true → steadyRoles thread call = true

theorem transferRoles_steady : Steady transferRoles := by
  intro thread call permitted
  cases thread with
  | producer => cases call with
    | put => rfl
    | _ => cases permitted
  | consumer => cases call with
    | read => rfl
    | _ => cases permitted

theorem steadyRoles_steady : Steady steadyRoles := fun _ _ permitted => permitted

variable {exponent out : Nat} {stream : List UInt8} {state after : State}

theorem Invariant.start {fifo : AtomicKFifo} (shape : Shape fifo exponent)
    (inIdx : fifo.inIdx = 0) (outIdx : fifo.outIdx = 0) :
    Invariant exponent [] 0 ⟨fifo, .idle, .idle⟩ where
  sound := {
    shape
    inIdx := by rw [inIdx]; exact Shows.zero
    outIdx := by rw [outIdx]; exact Shows.zero
    ordered := le_rfl
    bounded := Nat.zero_le _
    holds := fun index _ below => absurd below (Nat.not_lt_zero index) }
  producer := trivial
  consumer := trivial

theorem Invariant.call (good : Invariant exponent stream out state) {thread : Thread}
    {call : Call} (allowed : steadyRoles thread call = true) (supplied : call.Supplied) :
    Invariant exponent stream out (state.moved state.fifo call.entry thread) := by
  cases thread with
  | producer =>
      refine ⟨good.sound, ?_, good.consumer⟩
      cases call with
      | put => exact supplied
      | observe | isEmptyOutFirst => trivial
      | read | reset => cases allowed
  | consumer =>
      refine ⟨good.sound, good.producer, ?_⟩
      cases call with
      | read => exact supplied
      | observe | isEmptyOutFirst => trivial
      | put | reset => cases allowed

/-- One step: the stream grows by what a put returns, and what a get returns are
the next bytes of the stream. -/
theorem Invariant.step {roles : Roles} {fifo : AtomicKFifo} {label : Label} {event : Event}
    (steady : Steady roles) (good : Invariant exponent stream out state)
    (taken : (machine roles fifo).step state label = some (after, event)) :
    Invariant exponent (stream ++ acceptedBytes event.returned)
      (out + (deliveredBytes event.returned).length) after ∧
    deliveredBytes event.returned =
      (stream.drop out).take (deliveredBytes event.returned).length := by
  obtain ⟨thread, call, permitted, _, supplied, rfl, rfl⟩ |
    ⟨thread, next, pc, returned, advanced, rfl, rfl⟩ := step_cases taken
  · simpa [acceptedBytes, deliveredBytes] using
      good.call (steady thread call permitted) supplied
  · cases thread with
    | producer =>
        have keeps := producer_advance good.sound good.producer advanced
        rw [keeps.delivered]
        exact ⟨⟨keeps.sound, keeps.facts, good.consumer.append _⟩, rfl⟩
    | consumer =>
        have keeps := consumer_advance good.sound good.consumer advanced
        have facts := good.producer.advance_out
          (Nat.le_add_right out (deliveredBytes returned).length)
        rw [← keeps.buffer] at facts
        simp only [keeps.accepted, List.append_nil]
        exact ⟨⟨keeps.sound, facts, keeps.facts⟩, keeps.delivered⟩

theorem take_append_next {stream added got more : List UInt8}
    (isPrefix : got = stream.take got.length) (ordered : got.length ≤ stream.length)
    (next : more = (stream.drop got.length).take more.length) :
    got ++ more = (stream ++ added).take (got ++ more).length := by
  have bound : more.length ≤ (stream.drop got.length).length := by
    conv_lhs => rw [next]
    exact List.length_take_le' _ _
  rw [List.length_drop] at bound
  rw [List.length_append, List.take_append_of_le_length (by omega), List.take_add, ← isPrefix,
    ← next]

theorem construct_invariant {requestedCapacity : UInt32} {fifo : AtomicKFifo}
    (built : construct requestedCapacity = some fifo) :
    ∃ exponent, Invariant exponent [] 0 ⟨fifo, .idle, .idle⟩ := by
  obtain ⟨⟨exponent, shape⟩, inIdx, outIdx⟩ := construct_shape built
  exact ⟨exponent, .start shape inIdx outIdx⟩

/-- The whole history: the indices show the lengths of the two streams, and the
delivered stream is a prefix of the accepted one. -/
theorem Invariant.run {roles : Roles} {fifo : AtomicKFifo} {events : List Event}
    (start : Invariant exponent [] 0 ⟨fifo, .idle, .idle⟩) (steady : Steady roles)
    (run : (machine roles fifo).Run events state) :
    Invariant exponent (accepted events) (delivered events).length state ∧
      delivered events = (accepted events).take (delivered events).length := by
  refine Machine.Run.invariant (fun events state =>
    Invariant exponent (accepted events) (delivered events).length state ∧
      delivered events = (accepted events).take (delivered events).length) run
    ⟨start, rfl⟩ ?_
  rintro events state after label event ⟨good, isPrefix⟩ taken
  obtain ⟨kept, next⟩ := good.step steady taken
  rw [accepted_snoc, delivered_snoc]
  exact ⟨by rwa [List.length_append], take_append_next isPrefix good.sound.ordered next⟩

theorem run_invariant {roles : Roles} {requestedCapacity : UInt32} {fifo : AtomicKFifo}
    {events : List Event} (built : construct requestedCapacity = some fifo)
    (steady : Steady roles) (run : (machine roles fifo).Run events state) :
    ∃ exponent, Invariant exponent (accepted events) (delivered events).length state ∧
      delivered events = (accepted events).take (delivered events).length := by
  obtain ⟨exponent, start⟩ := construct_invariant built
  exact ⟨exponent, start.run steady run⟩

end DmLockFree.AtomicKFifo
