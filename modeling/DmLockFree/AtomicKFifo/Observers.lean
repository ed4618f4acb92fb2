import DmLockFree.AtomicKFifo.Safety
import DmLockFree.Library.Progress

/-!
# The observers

What `len`, `isEmpty` and `peek` tell the consumer, and what `avail` and
`isFull` tell the producer, stays true until the thread moves bytes itself,
because the index of the other thread only grows.
-/

set_option autoImplicit false

namespace DmLockFree.AtomicKFifo

open Library

/-- What the consumer's first load says when the second one is due: its own
index stands still, the other one may have grown. -/
def ConsumerSees (produced out : Nat) : Pc → Prop
  | .observeOut _ currentIn => ∃ seen, Shows currentIn seen ∧ out ≤ seen ∧ seen ≤ produced
  | .isEmptyIn currentOut => Shows currentOut out
  | _ => True

/-- The producer's first load is that of its own index. -/
def ProducerSees (produced : Nat) : Pc → Prop
  | .observeOut _ currentIn => Shows currentIn produced
  | _ => True

structure Watching (produced out : Nat) (state : State) : Prop where
  producer : ProducerSees produced state.producer
  consumer : ConsumerSees produced out state.consumer

theorem ConsumerSees.grow {produced later out : Nat} {pc : Pc}
    (sees : ConsumerSees produced out pc) (grows : produced ≤ later) :
    ConsumerSees later out pc := by
  cases pc with
  | observeOut observer currentIn =>
      obtain ⟨seen, shown, above, below⟩ := sees
      exact ⟨seen, shown, above, below.trans grows⟩
  | _ => exact sees

/-- The points between the two loads of an observer. -/
def Pc.Observing : Pc → Prop
  | .observeOut _ _ | .isEmptyIn _ => True
  | _ => False

theorem ConsumerSees.of_not_observing {produced out : Nat} {pc : Pc}
    (elsewhere : ¬ pc.Observing) : ConsumerSees produced out pc := by
  cases pc with
  | observeOut | isEmptyIn => exact absurd trivial elsewhere
  | _ => trivial

theorem ProducerSees.of_not_observing {produced : Nat} {pc : Pc}
    (elsewhere : ¬ pc.Observing) : ProducerSees produced pc := by
  cases pc with
  | observeOut => exact absurd trivial elsewhere
  | _ => trivial

theorem Call.entry_not_observing (call : Call) : ¬ call.entry.Observing := by
  cases call <;> exact id

theorem advance_observing {fifo after : AtomicKFifo} {pc next : Pc} {returned : Option Return}
    (taken : advance fifo pc = some (after, next, returned)) :
    (∃ observer, next = .observeOut observer fifo.inIdx ∧ returned = none) ∨
      (next = .isEmptyIn fifo.outIdx ∧ returned = none) ∨ ¬ next.Observing := by
  cases advances taken with
  | observeIn observer => exact .inl ⟨observer, rfl, rfl⟩
  | isEmptyOut => exact .inr (.inl ⟨rfl, rfl⟩)
  | readCopyWhole kind _ _ _ _ _ _ left | readCopyRest kind _ _ _ _ _ left =>
      cases kind <;> cases left <;> exact .inr (.inr id)
  | _ => exact .inr (.inr id)

section Step

variable {exponent out : Nat} {stream : List UInt8} {fifo after : AtomicKFifo} {pc next : Pc}
  {returned : Option Return} {state : State}

theorem Sound.producer_sees (sound : Sound exponent stream out fifo)
    (taken : advance fifo pc = some (after, next, returned)) :
    ProducerSees (stream ++ acceptedBytes returned).length next := by
  rcases advance_observing taken with ⟨observer, rfl, rfl⟩ | ⟨rfl, rfl⟩ | elsewhere
  · rw [acceptedBytes_none, List.append_nil]; exact sound.inIdx
  · trivial
  · exact .of_not_observing elsewhere

theorem Sound.consumer_sees (sound : Sound exponent stream out fifo)
    (taken : advance fifo pc = some (after, next, returned)) :
    ConsumerSees stream.length (out + (deliveredBytes returned).length) next := by
  rcases advance_observing taken with ⟨observer, rfl, rfl⟩ | ⟨rfl, rfl⟩ | elsewhere
  · exact ⟨stream.length, sound.inIdx, sound.ordered, le_rfl⟩
  · exact sound.outIdx
  · exact .of_not_observing elsewhere

theorem Watching.step {roles : Roles} {last : State} {label : Label} {event : Event}
    (watching : Watching stream.length out state) (good : Invariant exponent stream out state)
    (taken : (machine roles fifo).step state label = some (last, event)) :
    Watching (stream ++ acceptedBytes event.returned).length
      (out + (deliveredBytes event.returned).length) last := by
  obtain ⟨thread, call, _, _, _, rfl, rfl⟩ |
    ⟨thread, next, pc, returned, advanced, rfl, rfl⟩ := step_cases taken
  · rw [acceptedBytes_none, List.append_nil]
    cases thread with
    | producer => exact ⟨.of_not_observing call.entry_not_observing, watching.consumer⟩
    | consumer => exact ⟨watching.producer, .of_not_observing call.entry_not_observing⟩
  · cases thread with
    | producer =>
        have keeps := producer_advance good.sound good.producer advanced
        rw [keeps.delivered]
        constructor
        · exact good.sound.producer_sees advanced
        · exact watching.consumer.grow (by rw [List.length_append]; exact Nat.le_add_right _ _)
    | consumer =>
        have keeps := consumer_advance good.sound good.consumer advanced
        rw [keeps.accepted, List.append_nil]
        exact ⟨watching.producer, good.sound.consumer_sees advanced⟩

/-- Both threads compute with an in-index between the two counters. -/
theorem Watching.seen (watching : Watching stream.length out state)
    (good : Invariant exponent stream out state) {thread : Thread} {observer : Observer}
    {currentIn : UInt32} (point : state.pc thread = .observeOut observer currentIn) :
    ∃ seen, Shows currentIn seen ∧ out ≤ seen ∧ seen ≤ stream.length := by
  cases thread with
  | producer =>
      have sees := watching.producer
      rw [show state.producer = _ from point] at sees
      exact ⟨stream.length, sees, good.sound.ordered, le_rfl⟩
  | consumer =>
      have sees := watching.consumer
      rw [show state.consumer = _ from point] at sees
      exact sees

/-- The answers of the observers. -/
def Return.Observed : Return → Prop
  | .flag _ _ | .count _ _ => True
  | _ => False

theorem advance_observed {answer : Return}
    (taken : advance fifo pc = some (after, next, some answer)) (observed : answer.Observed) :
    (∃ observer currentIn, pc = .observeOut observer currentIn ∧
        answer = observer.result fifo currentIn fifo.outIdx) ∨
      ∃ currentOut, pc = .isEmptyIn currentOut ∧
        answer = Observer.isEmpty.result fifo fifo.inIdx currentOut := by
  have answers := (advance_answers taken).2
  cases pc with
  | observeOut observer currentIn => exact .inl ⟨observer, currentIn, rfl, answers⟩
  | isEmptyIn currentOut => exact .inr ⟨currentOut, rfl, answers⟩
  | putLoadOut | putStore | readLoadIn | getStore | resetOut =>
      cases answers
      exact observed.elim
  | readCopy kind | readCopyRest kind =>
      cases kind with
      | get => exact answers.elim
      | peek =>
          obtain ⟨_, rfl⟩ := answers
          exact observed.elim
  | _ => exact answers.elim

theorem Sound.used (sound : Sound exponent stream out fifo) {currentIn : UInt32} {seen : Nat}
    (shown : Shows currentIn seen) (above : out ≤ seen) (below : seen ≤ stream.length) :
    (currentIn - fifo.outIdx).toNat = seen - out := by
  have word := sound.shape.word
  have bounded := sound.bounded
  exact shown.sub sound.outIdx above (by omega)

theorem Sound.unused (sound : Sound exponent stream out fifo) {currentIn : UInt32} {seen : Nat}
    (shown : Shows currentIn seen) (above : out ≤ seen) (below : seen ≤ stream.length) :
    (fifo.capacity - (currentIn - fifo.outIdx)).toNat = 2 ^ exponent - (seen - out) := by
  have bounded := sound.bounded
  have used := sound.used shown above below
  have inside : currentIn - fifo.outIdx ≤ fifo.capacity := by
    rw [UInt32.le_iff_toNat_le, used, sound.shape.capacity]; omega
  rw [UInt32.toNat_sub_of_le _ _ inside, used, sound.shape.capacity]

theorem Watching.count_le (watching : Watching stream.length out state)
    (good : Invariant exponent stream out state) {thread : Thread} {observer : Observer}
    {value : UInt32}
    (taken : advance state.fifo (state.pc thread) =
      some (after, next, some (.count observer value))) :
    value ≤ state.fifo.capacity := by
  have bounded := good.sound.bounded
  rw [UInt32.le_iff_toNat_le, good.sound.shape.capacity]
  rcases advance_observed taken trivial with ⟨other, currentIn, point, answer⟩ | ⟨_, _, answer⟩
  · obtain ⟨seen, shown, above, below⟩ := watching.seen good point
    cases other with
    | isEmpty | isFull => cases answer
    | len =>
        cases answer
        rw [good.sound.used shown above below]
        omega
    | avail =>
        cases answer
        rw [good.sound.unused shown above below]
        omega
  · cases answer

end Step

theorem Invariant.watching {exponent : Nat} {state : State} {roles : Roles} {fifo : AtomicKFifo}
    {events : List Event} (start : Invariant exponent [] 0 ⟨fifo, .idle, .idle⟩)
    (steady : Steady roles) (run : (machine roles fifo).Run events state) :
    Watching (accepted events).length (delivered events).length state := by
  induction run with
  | refl => exact ⟨trivial, trivial⟩
  | @snoc _ _ events _ _ path taken ih =>
      rw [accepted_snoc, delivered_snoc, @List.length_append _ (delivered events)]
      exact ih.step (start.run steady path).1 taken

end DmLockFree.AtomicKFifo
