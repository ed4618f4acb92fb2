import Mathlib.Data.List.Induction

/-!
# Labelled machines

A machine is a start state and a partial step function. The label of a step is
the choice of the scheduler and of the environment; the event is what the step
shows to an observer. Runs keep the events in order, so that a statement about
a whole history is a statement about the event list of a run.
-/

set_option autoImplicit false

namespace DmLockFree.Library

structure Machine (State Label Event : Type) where
  start : State
  step : State → Label → Option (State × Event)

namespace Machine

variable {State Label Event : Type} {machine : Machine State Label Event}

/-- Finite executions between two states, with the events they show. -/
inductive Path (machine : Machine State Label Event) :
    State → List Event → State → Prop where
  | refl {state : State} : Path machine state [] state
  | snoc {first state after : State} {events : List Event} {label : Label} {event : Event} :
      Path machine first events state →
      machine.step state label = some (after, event) →
      Path machine first (events ++ [event]) after

/-- Executions from the start state; their last states are the reachable ones. -/
abbrev Run (machine : Machine State Label Event) (events : List Event) (state : State) : Prop :=
  machine.Path machine.start events state

theorem Path.trans {first middle last : State} {before after : List Event}
    (left : machine.Path first before middle) (right : machine.Path middle after last) :
    machine.Path first (before ++ after) last := by
  induction right with
  | refl => simpa using left
  | snoc _ taken ih => simpa only [List.append_assoc] using ih.snoc taken

/-- Every prefix of the events of a path ends in a state of the path. -/
theorem Path.split {first last : State} {before after : List Event}
    (path : machine.Path first (before ++ after) last) :
    ∃ middle, machine.Path first before middle ∧ machine.Path middle after last := by
  induction after using List.reverseRecOn generalizing last with
  | nil => exact ⟨last, by simpa using path, .refl⟩
  | append_singleton after event ih =>
      generalize whole : before ++ (after ++ [event]) = events at path
      cases path with
      | refl => simp at whole
      | snoc shorter taken =>
          rw [← List.append_assoc] at whole
          obtain ⟨rfl, same⟩ := List.append_inj' whole rfl
          cases same
          obtain ⟨middle, left, right⟩ := ih shorter
          exact ⟨middle, left, right.snoc taken⟩

theorem path_singleton {first last : State} {event : Event}
    (path : machine.Path first ([] ++ [event]) last) :
    ∃ label, machine.step first label = some (last, event) := by
  generalize only : [] ++ [event] = events at path
  cases path with
  | refl => simp at only
  | @snoc state after events label event' shorter taken =>
      obtain ⟨rfl, same⟩ := List.append_inj' only rfl
      cases same
      generalize none : ([] : List Event) = events at shorter
      cases shorter with
      | refl => exact ⟨label, taken⟩
      | snoc => simp at none

/-- Invariant rule over histories: what the start state satisfies and every
step keeps holds at the end of every run. -/
theorem Run.invariant (Good : List Event → State → Prop) {events : List Event} {state : State}
    (run : machine.Run events state) (start : Good [] machine.start)
    (next : ∀ {events : List Event} {state after : State} {label : Label} {event : Event},
      Good events state → machine.step state label = some (after, event) →
      Good (events ++ [event]) after) :
    Good events state := by
  induction run with
  | refl => exact start
  | snoc _ taken ih => exact next ih taken

/-- The deterministic execution of a schedule. -/
def exec (machine : Machine State Label Event) :
    State → List Label → Option (List Event × State)
  | state, [] => some ([], state)
  | state, label :: labels =>
      match machine.step state label with
      | none => none
      | some (after, event) =>
          (machine.exec after labels).map fun rest => (event :: rest.1, rest.2)

theorem exec_path {labels : List Label} {first last : State} {events : List Event}
    (result : machine.exec first labels = some (events, last)) :
    machine.Path first events last := by
  induction labels generalizing first events with
  | nil => cases result; exact .refl
  | cons label labels ih =>
      unfold exec at result
      cases taken : machine.step first label with
      | none => simp [taken] at result
      | some pair =>
          obtain ⟨after, event⟩ := pair
          simp only [taken, Option.map_eq_some_iff] at result
          obtain ⟨rest, executed, same⟩ := result
          cases same
          exact (Path.refl.snoc taken).trans (ih executed)

theorem exec_run (machine : Machine State Label Event) (labels : List Label)
    {events : List Event} {last : State}
    (result : machine.exec machine.start labels = some (events, last)) :
    machine.Run events last :=
  exec_path result

/-- Simulation of total machines: related states answer every permitted label
with the same event and stay related. -/
theorem exec_simulates {Concrete Abstract : Type} {concrete : Machine Concrete Label Event}
    {abstract : Machine Abstract Label Event} (Related : Concrete → Abstract → Prop)
    (Permitted : Label → Prop)
    (next : ∀ {low : Concrete} {high : Abstract} {label : Label}, Related low high →
      Permitted label → ∃ lower higher event, concrete.step low label = some (lower, event) ∧
        abstract.step high label = some (higher, event) ∧ Related lower higher)
    {labels : List Label} {low : Concrete} {high : Abstract} (related : Related low high)
    (permitted : ∀ label ∈ labels, Permitted label) :
    ∃ events lower higher, concrete.exec low labels = some (events, lower) ∧
      abstract.exec high labels = some (events, higher) ∧ Related lower higher := by
  induction labels generalizing low high with
  | nil => exact ⟨[], low, high, rfl, rfl, related⟩
  | cons label labels ih =>
      obtain ⟨middle, above, event, lowStep, highStep, kept⟩ :=
        next related (permitted label (List.mem_cons_self ..))
      obtain ⟨events, lower, higher, lowRest, highRest, last⟩ :=
        ih kept fun other member => permitted other (List.mem_cons_of_mem _ member)
      refine ⟨event :: events, lower, higher, ?_, ?_, last⟩
      · simp only [exec, lowStep, lowRest, Option.map_some]
      · simp only [exec, highStep, highRest, Option.map_some]

/-- Simulation of runs: every step of a machine is one of the other, with its
event renamed. -/
theorem Run.simulates {Abstract Choice Answer : Type} {abstract : Machine Abstract Choice Answer}
    (Related : State → Abstract → Prop) (rename : Event → Answer)
    (start : Related machine.start abstract.start)
    (next : ∀ {low after : State} {high : Abstract} {label : Label} {event : Event},
      Related low high → machine.step low label = some (after, event) →
      ∃ choice later, abstract.step high choice = some (later, rename event) ∧
        Related after later)
    {events : List Event} {state : State} (run : machine.Run events state) :
    ∃ high, abstract.Run (events.map rename) high ∧ Related state high := by
  induction run with
  | refl => exact ⟨abstract.start, .refl, start⟩
  | snoc _ taken ih =>
      obtain ⟨high, path, related⟩ := ih
      obtain ⟨choice, later, answered, kept⟩ := next related taken
      refine ⟨later, ?_, kept⟩
      rw [List.map_append]
      exact path.snoc answered

/-- The machine whose environment makes the permitted choices only. -/
def restrict (machine : Machine State Label Event) (permitted : State → Label → Prop)
    [∀ state label, Decidable (permitted state label)] : Machine State Label Event where
  start := machine.start
  step state label := if permitted state label then machine.step state label else none

section Restrict

variable {permitted : State → Label → Prop} [∀ state label, Decidable (permitted state label)]

theorem restrict_step {state after : State} {label : Label} {event : Event}
    (taken : (machine.restrict permitted).step state label = some (after, event)) :
    permitted state label ∧ machine.step state label = some (after, event) := by
  simp only [restrict] at taken
  split at taken
  case isTrue allowed => exact ⟨allowed, taken⟩
  case isFalse => cases taken

theorem step_restrict {state after : State} {label : Label} {event : Event}
    (allowed : permitted state label) (taken : machine.step state label = some (after, event)) :
    (machine.restrict permitted).step state label = some (after, event) := by
  simp only [restrict, if_pos allowed, taken]

theorem restrict_path {first last : State} {events : List Event}
    (path : (machine.restrict permitted).Path first events last) :
    machine.Path first events last := by
  induction path with
  | refl => exact .refl
  | snoc _ taken ih => exact ih.snoc (restrict_step taken).2

theorem path_restrict (always : ∀ state label, permitted state label) {first last : State}
    {events : List Event} (path : machine.Path first events last) :
    (machine.restrict permitted).Path first events last := by
  induction path with
  | refl => exact .refl
  | snoc _ taken ih => exact ih.snoc (step_restrict (always _ _) taken)

end Restrict

end Machine

end DmLockFree.Library
