import DmLockFree.AtomicKFifo.Observers

/-!
# Resets

`reset` stores the two indices one after the other and takes no part in what the
other thread is doing. Called while the other thread is between two of its
operations, it is a fresh start; called at any other time, it is not.
-/

set_option autoImplicit false

namespace DmLockFree.AtomicKFifo

open Library

/-- The producer calls `put` and `avail`, the consumer `get`, `peek` and `len`,
and both may reset. -/
def resetRoles : Roles
  | .producer, .put _ _ | .producer, .observe .avail => true
  | .consumer, .read _ _ _ | .consumer, .observe .len => true
  | _, .reset => true
  | _, _ => false

/-- A call and the first accesses of it. -/
def Thread.runs (thread : Thread) (call : Call) (accesses : Nat) : List Label :=
  .call thread call :: List.replicate accesses (.run thread)

/-- Three bytes pass through a ring of two, then the consumer stops between the
two stores of its reset and the producer calls `avail` and puts five bytes. -/
def resetByConsumer : List Label :=
  List.flatten [Thread.producer.runs (.put [1, 2] 2) 4,
    Thread.consumer.runs (.read .get [0, 0] 2) 4, Thread.producer.runs (.put [3] 1) 4,
    Thread.consumer.runs (.read .get [0] 1) 4, Thread.consumer.runs .reset 1,
    Thread.producer.runs (.observe .avail) 2, Thread.producer.runs (.put [1, 2, 3, 4, 5] 5) 3]

/-- One byte passes through a ring of two, then the producer stops between the
two stores of its reset and the consumer gets two bytes. -/
def resetByProducer : List Label :=
  List.flatten [Thread.producer.runs (.put [7] 1) 4,
    Thread.consumer.runs (.read .get [0] 1) 4, Thread.producer.runs .reset 1,
    Thread.consumer.runs (.read .get [9, 9] 2) 5]

/-- Between the two stores of a reset the occupancy is far above the capacity,
`avail` exceeds the capacity, a put copies behind the end of the buffer, and a get
delivers bytes that were never put. -/
theorem reset_races :
    (∃ fifo events state, construct 1 = some fifo ∧
      (machine resetRoles fifo).Run events state ∧
      fifo.capacity < state.fifo.inIdx - state.fifo.outIdx ∧
      (∃ event ∈ events, ∃ value, event.returned = some (.count .avail value) ∧
        fifo.capacity < value) ∧
      ∃ transfer range, state.producer.copy state.fifo = some (transfer, range) ∧
        state.fifo.buffer.length < range.ring + range.length) ∧
    ∃ fifo events state, construct 1 = some fifo ∧
      (machine resetRoles fifo).Run events state ∧
      0 ∈ delivered events ∧ 0 ∉ accepted events := by
  have built : construct 1 = some ⟨[0, 0], 2, 1, 0, 0⟩ := by decide
  constructor
  · have reached : ((machine resetRoles ⟨[0, 0], 2, 1, 0, 0⟩).exec
        ⟨⟨[0, 0], 2, 1, 0, 0⟩, .idle, .idle⟩ resetByConsumer).any (fun (events, state) =>
          decide (⟨.producer, some (.count .avail 5)⟩ ∈ events) &&
          decide (state = ⟨⟨[1, 2], 2, 1, 0, 3⟩, .putCopyRest ⟨[1, 2, 3, 4, 5], 5, 0, 5⟩,
            .resetOut⟩)) = true := by decide +kernel
    obtain ⟨⟨events, state⟩, executed, facts⟩ := (Option.any_eq_true _ _).mp reached
    simp only [Bool.and_eq_true, decide_eq_true_eq] at facts
    obtain ⟨available, rfl⟩ := facts
    exact ⟨_, events, _, built, Machine.exec_path executed, by decide,
      ⟨_, available, 5, rfl, by decide⟩, _, _, rfl, by decide⟩
  · have reached : ((machine resetRoles ⟨[0, 0], 2, 1, 0, 0⟩).exec
        ⟨⟨[0, 0], 2, 1, 0, 0⟩, .idle, .idle⟩ resetByProducer).any (fun (events, _) =>
          decide (0 ∈ delivered events) && decide (0 ∉ accepted events)) = true := by
      decide +kernel
    obtain ⟨⟨events, state⟩, executed, facts⟩ := (Option.any_eq_true _ _).mp reached
    simp only [Bool.and_eq_true, decide_eq_true_eq] at facts
    exact ⟨_, events, state, built, Machine.exec_path executed, facts.1, facts.2⟩

def Thread.other : Thread → Thread
  | .producer => .consumer
  | .consumer => .producer

theorem Thread.ne_other (thread : Thread) : thread ≠ thread.other := by
  cases thread <;> exact nofun

theorem Thread.eq_or_other (thread second : Thread) :
    second = thread ∨ second = thread.other := by
  cases thread <;> cases second <;> first | exact .inl rfl | exact .inr rfl

theorem Thread.other_other (thread : Thread) : thread.other.other = thread := by
  cases thread <;> rfl

/-- The points of `reset`. -/
def Pc.resetting : Pc → Bool
  | .resetIn | .resetOut => true
  | _ => false

/-- A reset starts only while the other thread is between two of its operations,
and the other thread starts none before the reset has returned. -/
def Quiet (state : State) : Label → Prop
  | .call thread .reset => state.pc thread.other = .idle
  | .call thread _ => (state.pc thread.other).resetting = false
  | .run _ => True

instance (state : State) : (label : Label) → Decidable (Quiet state label)
  | .call thread .reset => inferInstanceAs (Decidable (state.pc thread.other = .idle))
  | .call thread (.put _ _) | .call thread (.read _ _ _) | .call thread (.observe _)
  | .call thread .isEmptyOutFirst =>
      inferInstanceAs (Decidable ((state.pc thread.other).resetting = false))
  | .run _ => inferInstanceAs (Decidable True)

theorem Quiet.call {state : State} {thread : Thread} {call : Call}
    (quiet : Quiet state (.call thread call)) : (state.pc thread.other).resetting = false := by
  cases call with
  | reset =>
      rw [show state.pc thread.other = .idle from quiet]
      rfl
  | _ => exact quiet

theorem resetRoles_cases {thread : Thread} {call : Call}
    (permitted : resetRoles thread call = true) :
    call = .reset ∨ steadyRoles thread call = true := by
  cases call with
  | reset => exact .inl rfl
  | put => cases thread with
    | producer => exact .inr rfl
    | consumer => cases permitted
  | read => cases thread with
    | producer => cases permitted
    | consumer => exact .inr rfl
  | _ => cases thread <;> exact .inr rfl

theorem Pc.Answers.of_reset {fifo : AtomicKFifo} {pc : Pc} (answers : pc.Answers fifo .reset) :
    pc = .resetOut := by
  cases pc with
  | resetOut => rfl
  | observeOut observer => cases observer <;> cases answers
  | readCopy kind | readCopyRest kind =>
      cases kind with
      | get => exact answers.elim
      | peek =>
          obtain ⟨_, same⟩ := answers
          cases same
  | _ => cases answers

/-- Two threads that reset in quiet moments only. -/
def quietMachine (fifo : AtomicKFifo) : Machine State Label Event :=
  (machine resetRoles fifo).restrict Quiet

/-- The events since the last reset returned. -/
def sinceReset (events : List Event) : List Event :=
  events.foldl (fun epoch event =>
    if event.returned = some .reset then [] else epoch ++ [event]) []

theorem sinceReset_snoc (events : List Event) (event : Event) :
    sinceReset (events ++ [event]) =
      if event.returned = some .reset then [] else sinceReset events ++ [event] := by
  unfold sinceReset
  rw [List.foldl_append]
  rfl

/-- Where a run with quiet resets stands, in terms of the bytes since the last one. -/
inductive Phase (exponent : Nat) (events : List Event) (state : State) : Prop where
  | steady :
      Invariant exponent (accepted (sinceReset events)) (delivered (sinceReset events)).length
        state →
      Watching (accepted (sinceReset events)).length (delivered (sinceReset events)).length
        state →
      Phase exponent events state
  | resetting (thread : Thread) :
      Shape state.fifo exponent → state.pc thread.other = .idle →
      state.pc thread = .resetIn ∧ Sound exponent (accepted (sinceReset events))
          (delivered (sinceReset events)).length state.fifo ∨
        state.pc thread = .resetOut ∧ state.fifo.inIdx = 0 →
      Phase exponent events state

/-- Since the last reset the delivered bytes are a prefix of the accepted ones. -/
structure Fresh (exponent : Nat) (events : List Event) (state : State) : Prop where
  phase : Phase exponent events state
  inOrder : delivered (sinceReset events) =
    (accepted (sinceReset events)).take (delivered (sinceReset events)).length

section Step

variable {exponent : Nat} {fifo : AtomicKFifo} {events : List Event} {state after : State}
  {label : Label} {event : Event}

/-- Away from `reset` a step is one of the machine without it. -/
theorem without_reset (taken : (machine resetRoles fifo).step state label = some (after, event))
    (ordinary : steadyRoles.Permits label) :
    (machine steadyRoles fifo).step state label = some (after, event) := by
  obtain ⟨_, taken⟩ := Machine.restrict_step taken
  unfold machine Machine.restrict
  rw [← taken]
  exact if_pos ordinary

theorem Fresh.ordinary (inOrder : delivered (sinceReset events) =
      (accepted (sinceReset events)).take (delivered (sinceReset events)).length)
    (good : Invariant exponent (accepted (sinceReset events))
      (delivered (sinceReset events)).length state)
    (watching : Watching (accepted (sinceReset events)).length
      (delivered (sinceReset events)).length state)
    (taken : (machine steadyRoles fifo).step state label = some (after, event))
    (returned : event.returned ≠ some .reset) : Fresh exponent (events ++ [event]) after := by
  obtain ⟨kept, next⟩ := good.step steadyRoles_steady taken
  have seen := watching.step good taken
  rw [← List.length_append] at kept seen
  constructor
  · apply Phase.steady
    · rw [sinceReset_snoc, if_neg returned, accepted_snoc, delivered_snoc]
      exact kept
    · rw [sinceReset_snoc, if_neg returned, accepted_snoc, delivered_snoc]
      exact seen
  · rw [sinceReset_snoc, if_neg returned, accepted_snoc, delivered_snoc]
    exact take_append_next inOrder good.sound.ordered next

/-- A step that moves no byte and does not end a reset. -/
theorem Fresh.silent {thread : Thread} (inOrder : delivered (sinceReset events) =
      (accepted (sinceReset events)).take (delivered (sinceReset events)).length)
    (phase : Phase exponent (events ++ [⟨thread, none⟩]) after) :
    Fresh exponent (events ++ [⟨thread, none⟩]) after := by
  constructor
  · exact phase
  · rw [sinceReset_snoc, if_neg nofun, accepted_snoc, delivered_snoc]
    simp only [acceptedBytes_none, deliveredBytes_none, List.append_nil]
    exact inOrder

theorem Fresh.steady_step (fresh : Fresh exponent events state)
    (good : Invariant exponent (accepted (sinceReset events))
      (delivered (sinceReset events)).length state)
    (watching : Watching (accepted (sinceReset events)).length
      (delivered (sinceReset events)).length state)
    (quiet : Quiet state label)
    (taken : (machine resetRoles fifo).step state label = some (after, event)) :
    Fresh exponent (events ++ [event]) after := by
  cases label with
  | call thread call =>
      obtain ⟨permitted, free, _, rfl, rfl⟩ := call_step taken
      rcases resetRoles_cases permitted with rfl | ordinary
      · apply Fresh.silent fresh.inOrder
        apply Phase.resetting thread
        · rw [State.moved_fifo]
          exact good.sound.shape
        · rw [State.moved_pc_of_ne _ _ _ thread.ne_other]
          exact quiet
        · rw [State.moved_pc, State.moved_fifo, sinceReset_snoc, if_neg nofun, accepted_snoc,
            delivered_snoc]
          simp only [acceptedBytes_none, deliveredBytes_none, List.append_nil]
          exact .inl ⟨rfl, good.sound⟩
      · exact .ordinary fresh.inOrder good watching (without_reset taken ordinary) nofun
  | run thread =>
      obtain ⟨_, _, returned, advanced, _, rfl⟩ := run_step taken
      apply Fresh.ordinary fresh.inOrder good watching (without_reset taken trivial)
      -- only the second store of a reset returns so, and the invariant excludes it
      intro same
      cases same
      have point := (advance_answers advanced).2.of_reset
      cases thread with
      | producer =>
          have facts := good.producer
          rw [show state.producer = .resetOut from point] at facts
          exact facts
      | consumer =>
          have facts := good.consumer
          rw [show state.consumer = .resetOut from point] at facts
          exact facts

theorem Fresh.reset_step {thread : Thread} (fresh : Fresh exponent events state)
    (shape : Shape state.fifo exponent) (idle : state.pc thread.other = .idle)
    (point : state.pc thread = .resetIn ∧ Sound exponent (accepted (sinceReset events))
        (delivered (sinceReset events)).length state.fifo ∨
      state.pc thread = .resetOut ∧ state.fifo.inIdx = 0)
    (quiet : Quiet state label)
    (taken : (machine resetRoles fifo).step state label = some (after, event)) :
    Fresh exponent (events ++ [event]) after := by
  have busy : (state.pc thread).resetting = true := by
    rcases point with ⟨point, _⟩ | ⟨point, _⟩ <;> rw [point] <;> rfl
  cases label with
  | call second call =>
      obtain ⟨_, free, _⟩ := call_step taken
      rcases thread.eq_or_other second with rfl | rfl
      · rw [free] at busy
        cases busy
      · have calm := quiet.call
        rw [Thread.other_other, busy] at calm
        cases calm
  | run second =>
      obtain ⟨_, _, _, advanced, rfl, rfl⟩ := run_step taken
      rcases thread.eq_or_other second with rfl | rfl
      · rcases point with ⟨point, _⟩ | ⟨point, inIdx⟩
        · rw [point] at advanced
          cases advanced
          apply Fresh.silent fresh.inOrder
          apply Phase.resetting second
          · rw [State.moved_fifo]
            exact ⟨shape.low, shape.high, shape.capacity, shape.mask, shape.buffer⟩
          · rw [State.moved_pc_of_ne _ _ _ second.ne_other]
            exact idle
          · rw [State.moved_pc, State.moved_fifo]
            exact .inr ⟨rfl, rfl⟩
        · rw [point] at advanced
          cases advanced
          have stopped : state.moved { state.fifo with outIdx := 0 } .idle second =
              ⟨{ state.fifo with outIdx := 0 }, .idle, .idle⟩ := by
            cases second with
            | producer => rw [State.moved, show state.consumer = .idle from idle]
            | consumer => rw [State.moved, show state.producer = .idle from idle]
          have empty : sinceReset (events ++ [⟨second, some .reset⟩]) = [] := by
            rw [sinceReset_snoc, if_pos rfl]
          rw [stopped]
          constructor
          · apply Phase.steady
            · rw [empty]
              exact .start ⟨shape.low, shape.high, shape.capacity, shape.mask, shape.buffer⟩
                inIdx rfl
            · exact ⟨trivial, trivial⟩
          · rw [empty]
            rfl
      · rw [idle] at advanced
        cases advanced

theorem Fresh.step (fresh : Fresh exponent events state)
    (taken : (quietMachine fifo).step state label = some (after, event)) :
    Fresh exponent (events ++ [event]) after := by
  obtain ⟨quiet, taken⟩ := Machine.restrict_step taken
  cases fresh.phase with
  | steady good watching => exact fresh.steady_step good watching quiet taken
  | resetting thread shape idle point => exact fresh.reset_step shape idle point quiet taken

end Step

theorem Phase.copy_inside {exponent : Nat} {events : List Event} {state : State}
    (phase : Phase exponent events state) {thread : Thread} {transfer : Transfer} {range : Range}
    (copying : (state.pc thread).copy state.fifo = some (transfer, range)) :
    range.ring + range.length ≤ state.fifo.buffer.length ∧
      range.caller + range.length ≤ transfer.actual.toNat ∧
      transfer.actual.toNat ≤ transfer.len.toNat ∧
      transfer.len.toNat ≤ transfer.data.length := by
  cases phase with
  | steady good _ => exact good.copy_inside copying
  | resetting resetter _ idle point =>
      rcases resetter.eq_or_other thread with rfl | rfl
      · rcases point with ⟨point, _⟩ | ⟨point, _⟩ <;> rw [point] at copying <;> cases copying
      · rw [idle] at copying
        cases copying

theorem Phase.capacity {exponent : Nat} {events : List Event} {state : State}
    (phase : Phase exponent events state) : state.fifo.capacity.toNat = 2 ^ exponent := by
  cases phase with
  | steady good _ => exact good.sound.shape.capacity
  | resetting _ shape _ _ => exact shape.capacity

section Runs

variable {exponent : Nat} {fifo : AtomicKFifo} {events : List Event} {state : State}

theorem Invariant.fresh (start : Invariant exponent [] 0 ⟨fifo, .idle, .idle⟩)
    (run : (quietMachine fifo).Run events state) : Fresh exponent events state := by
  induction run with
  | refl => exact ⟨.steady start ⟨trivial, trivial⟩, rfl⟩
  | snoc _ taken ih => exact ih.step taken

theorem Invariant.counts_le (start : Invariant exponent [] 0 ⟨fifo, .idle, .idle⟩)
    (run : (quietMachine fifo).Run events state) {event : Event} (member : event ∈ events)
    {observer : Observer} {value : UInt32}
    (returned : event.returned = some (.count observer value)) : value ≤ fifo.capacity := by
  induction run with
  | refl => cases member
  | @snoc state _ _ _ last path taken ih =>
      rcases List.mem_append.mp member with before | now
      · exact ih before
      · obtain rfl := List.mem_singleton.mp now
        have phase := (start.fresh path).phase
        have same : state.fifo.capacity = fifo.capacity := by
          rw [← UInt32.toNat_inj, phase.capacity, start.sound.shape.capacity]
        obtain ⟨_, taken⟩ := Machine.restrict_step taken
        obtain ⟨_, _, _, _, _, _, rfl⟩ | ⟨second, _, _, _, advanced, _, rfl⟩ := step_cases taken
        · cases returned
        · cases returned
          cases phase with
          | steady good watching =>
              rw [← same]
              exact watching.count_le good advanced
          | resetting thread _ idle point =>
              have answers := (advance_answers advanced).2
              rcases thread.eq_or_other second with rfl | rfl
              · rcases point with ⟨point, _⟩ | ⟨point, _⟩ <;> rw [point] at answers <;>
                  cases answers
              · rw [idle] at answers
                exact answers.elim

end Runs

/-- Resets in quiet moments. One producer calls `put` and `avail`, one consumer
`get`, `peek` and `len`, in any interleaving, and either resets while the other is
between two operations and starts none until `reset` returns. Except between the
two stores of a reset the occupancy is at most the capacity; `len` and `avail` return
at most the capacity; no copy leaves the buffer or the caller's bytes; and what has
been delivered since the last reset is a prefix of what has been put since then. -/
theorem quiet_resets {requestedCapacity : UInt32} {fifo : AtomicKFifo} {events : List Event}
    {state : State} (built : construct requestedCapacity = some fifo)
    (run : (quietMachine fifo).Run events state) :
    ((∀ thread, state.pc thread ≠ .resetOut) →
      state.fifo.inIdx - state.fifo.outIdx ≤ state.fifo.capacity) ∧
    (∀ event ∈ events, ∀ observer value, event.returned = some (.count observer value) →
      value ≤ fifo.capacity) ∧
    (∀ thread transfer range, (state.pc thread).copy state.fifo = some (transfer, range) →
      range.ring + range.length ≤ state.fifo.buffer.length ∧
      range.caller + range.length ≤ transfer.actual.toNat ∧
      transfer.actual.toNat ≤ transfer.len.toNat ∧
      transfer.len.toNat ≤ transfer.data.length) ∧
    delivered (sinceReset events) <+: accepted (sinceReset events) := by
  obtain ⟨exponent, start⟩ := construct_invariant built
  obtain ⟨phase, inOrder⟩ := start.fresh run
  refine ⟨?_, fun _ member _ _ returned => start.counts_le run member returned,
    fun _ _ _ copying => phase.copy_inside copying, ?_⟩
  · intro between
    cases phase with
    | steady good _ => exact good.sound.occupancy
    | resetting thread _ _ point =>
        rcases point with ⟨_, sound⟩ | ⟨point, _⟩
        · exact sound.occupancy
        · exact absurd point (between thread)
  · rw [inOrder]
    exact List.take_prefix _ _

/-- A byte is put, the consumer resets, and the next byte is put and fetched. -/
def restarting : List Label :=
  List.flatten [Thread.producer.runs (.put [7] 1) 4, Thread.consumer.runs .reset 2,
    Thread.producer.runs (.put [8] 1) 4, Thread.consumer.runs (.observe .len) 2,
    Thread.consumer.runs (.read .get [0, 0] 2) 4]

theorem quiet_resets_restarting :
    ∃ fifo events state, construct 1 = some fifo ∧ (quietMachine fifo).Run events state ∧
      delivered (sinceReset events) = [8] ∧
      delivered (sinceReset events) <+: accepted (sinceReset events) := by
  have built : construct 1 = some ⟨[0, 0], 2, 1, 0, 0⟩ := by decide
  have run := Machine.exec_run (quietMachine ⟨[0, 0], 2, 1, 0, 0⟩) restarting rfl
  exact ⟨_, _, _, built, run, rfl, (quiet_resets built run).2.2.2⟩

end DmLockFree.AtomicKFifo
