import DmLockFree.Library.Machine

/-!
# Bounded waiting

A thread of a machine answers after a bounded number of its own steps, however
the steps of the others are interleaved with them.
-/

set_option autoImplicit false

namespace DmLockFree.Library.Machine

variable {State Label Event Answer : Type}

/-- Whatever the foreign steps do in between, at most `fuel` steps with the
label `own` are possible and bring an answer, and it is good. -/
def AnswersWithin (machine : Machine State Label Event) (own : Label) (foreign : Event → Prop)
    (answer : Event → Option Answer) (Good : Answer → Prop) : Nat → State → Prop
  | 0, _ => False
  | fuel + 1, state =>
      ∀ events later, machine.Path state events later → (∀ event ∈ events, foreign event) →
        ∃ after event, machine.step later own = some (after, event) ∧
          match answer event with
          | some value => Good value
          | none => machine.AnswersWithin own foreign answer Good fuel after

variable {machine : Machine State Label Event} {own : Label} {foreign : Event → Prop}
  {answer : Event → Option Answer} {Good : Answer → Prop}

/-- Rule: a predicate that foreign steps keep and that every own step either
turns into a good answer or carries on with less fuel. -/
theorem answersWithin_of_waiting (Waiting : Nat → State → Prop)
    (spent : ∀ state, ¬ Waiting 0 state)
    (others : ∀ {fuel : Nat} {state after : State} {label : Label} {event : Event},
      Waiting fuel state → machine.step state label = some (after, event) → foreign event →
      Waiting fuel after)
    (turn : ∀ {fuel : Nat} {state : State}, Waiting (fuel + 1) state →
      ∃ after event, machine.step state own = some (after, event) ∧
        (∀ value, answer event = some value → Good value) ∧
        (answer event = none → Waiting fuel after))
    {fuel : Nat} {state : State} (waiting : Waiting fuel state) :
    machine.AnswersWithin own foreign answer Good fuel state := by
  induction fuel generalizing state with
  | zero => exact absurd waiting (spent state)
  | succ fuel ih =>
      intro events later path foreigners
      have still : Waiting (fuel + 1) later := by
        induction path with
        | refl => exact waiting
        | snoc _ taken before =>
            apply others (before fun event member =>
              foreigners event (List.mem_append_left _ member)) taken
            exact foreigners _ (List.mem_append_right _ (List.mem_singleton_self _))
      obtain ⟨after, event, taken, good, carries⟩ := turn still
      refine ⟨after, event, taken, ?_⟩
      cases given : answer event with
      | none => exact ih (carries given)
      | some value => exact good value given

end DmLockFree.Library.Machine
