import DmLockFree.Library.Machine
import Mathlib.Logic.Function.Basic

/-!
# Threads over a shared object

Every thread runs the member functions of one shared object, one access at a
time. The events of a run determine its schedule, so a run is determined by its
history.
-/

set_option autoImplicit false

namespace DmLockFree.Library

/-- The code of an object: where a thread between two calls stands, what a call
does to the point of its thread, and the next access of a thread. -/
structure Program (Thread Shared Pc Call Output : Type) where
  idle : Pc
  enter : Thread → Pc → Call → Option Pc
  advance : Shared → Pc → Option (Shared × Pc × Output)

structure Threads (Thread Shared Pc : Type) where
  shared : Shared
  pc : Thread → Pc

namespace Threads

variable {Thread Shared Pc Call Output : Type}

inductive Label (Thread Call : Type) where
  | call (thread : Thread) (request : Call)
  | run (thread : Thread)
  deriving DecidableEq, Repr

inductive Event (Thread Call Output : Type) where
  | called (thread : Thread) (request : Call)
  | ran (thread : Thread) (output : Output)
  deriving DecidableEq, Repr

def Event.label : Event Thread Call Output → Label Thread Call
  | .called thread request => .call thread request
  | .ran thread _ => .run thread

def Event.output : Event Thread Call Output → Option Output
  | .called _ _ => none
  | .ran _ output => some output

def Event.thread : Event Thread Call Output → Thread
  | .called thread _ | .ran thread _ => thread

/-- The same event of another thread. -/
def Event.rename {Role : Type} (role : Thread → Role) :
    Event Thread Call Output → Event Role Call Output
  | .called thread request => .called (role thread) request
  | .ran thread output => .ran (role thread) output

@[simp] theorem Event.output_rename {Role : Type} (role : Thread → Role)
    (event : Event Thread Call Output) : (event.rename role).output = event.output := by
  cases event <;> rfl

variable [DecidableEq Thread]

def moved (state : Threads Thread Shared Pc) (shared : Shared) (thread : Thread) (pc : Pc) :
    Threads Thread Shared Pc where
  shared
  pc := Function.update state.pc thread pc

@[simp] theorem moved_pc_self (state : Threads Thread Shared Pc) (shared : Shared)
    (thread : Thread) (pc : Pc) : (state.moved shared thread pc).pc thread = pc := by
  simp only [moved, Function.update_self]

@[simp] theorem moved_shared (state : Threads Thread Shared Pc) (shared : Shared)
    (thread : Thread) (pc : Pc) : (state.moved shared thread pc).shared = shared := rfl

theorem moved_self (state : Threads Thread Shared Pc) (thread : Thread) :
    state.moved state.shared thread (state.pc thread) = state := by
  simp only [moved, Function.update_eq_self]

theorem moved_moved (state : Threads Thread Shared Pc) (middle : Shared) (thread : Thread)
    (point : Pc) (last : Shared) (pc : Pc) :
    (state.moved middle thread point).moved last thread pc = state.moved last thread pc := by
  simp only [moved, Function.update_idem]

end Threads

namespace Program

open Threads

variable {Thread Shared Pc Call Output : Type} [DecidableEq Thread]

def machine (program : Program Thread Shared Pc Call Output) (shared : Shared) :
    Machine (Threads Thread Shared Pc) (Label Thread Call) (Event Thread Call Output) where
  start := ⟨shared, fun _ => program.idle⟩
  step state
    | .call thread request =>
        (program.enter thread (state.pc thread) request).map fun pc =>
          (state.moved state.shared thread pc, .called thread request)
    | .run thread =>
        (program.advance state.shared (state.pc thread)).map fun (shared, pc, output) =>
          (state.moved shared thread pc, .ran thread output)

variable {program : Program Thread Shared Pc Call Output} {shared : Shared}
  {state after : Threads Thread Shared Pc} {label : Label Thread Call}
  {event : Event Thread Call Output} {events : List (Event Thread Call Output)}

theorem step_label (taken : (program.machine shared).step state label = some (after, event)) :
    event.label = label := by
  cases label with
  | call thread request =>
      obtain ⟨_, _, same⟩ := Option.map_eq_some_iff.mp taken
      cases same
      rfl
  | run thread =>
      obtain ⟨_, _, same⟩ := Option.map_eq_some_iff.mp taken
      cases same
      rfl

theorem step_pc_other (taken : (program.machine shared).step state label = some (after, event))
    {other : Thread} (apart : event.thread ≠ other) : after.pc other = state.pc other := by
  cases label with
  | call thread request =>
      obtain ⟨pc, _, same⟩ := Option.map_eq_some_iff.mp taken
      cases same
      exact Function.update_of_ne apart.symm pc state.pc
  | run thread =>
      obtain ⟨⟨_, pc, _⟩, _, same⟩ := Option.map_eq_some_iff.mp taken
      cases same
      exact Function.update_of_ne apart.symm pc state.pc

/-- A thread stands where its last event has put it. -/
theorem last_own {thread : Thread} (run : (program.machine shared).Run events state)
    (moved : state.pc thread ≠ program.idle) :
    ∃ earlier event rest before after, events = earlier ++ event :: rest ∧
      (program.machine shared).Run earlier before ∧
      (∃ label, (program.machine shared).step before label = some (after, event)) ∧
      (program.machine shared).Path after rest state ∧ event.thread = thread ∧
      after.pc thread = state.pc thread ∧ ∀ other ∈ rest, other.thread ≠ thread := by
  induction run with
  | refl => exact absurd rfl moved
  | @snoc state after events label event path taken ih =>
      by_cases own : event.thread = thread
      · exact ⟨events, event, [], state, after, rfl, path, ⟨label, taken⟩, .refl, own, rfl, nofun⟩
      · have same := step_pc_other taken own
        rw [same] at moved ⊢
        obtain ⟨earlier, first, rest, before, middle, rfl, run, step, path, mine, point, others⟩ :=
          ih moved
        refine ⟨earlier, first, rest ++ [event], before, middle, by simp, run, step,
          path.snoc taken, mine, point, ?_⟩
        intro other member
        rcases List.mem_append.mp member with old | new
        · exact others other old
        · rcases List.mem_singleton.mp new with rfl
          exact own

/-- The state is determined by the history. -/
theorem path_unique {first last other : Threads Thread Shared Pc}
    (path : (program.machine shared).Path first events last)
    (again : (program.machine shared).Path first events other) : last = other := by
  induction path generalizing other with
  | refl =>
      generalize nothing : ([] : List (Event Thread Call Output)) = events at again
      cases again with
      | refl => rfl
      | snoc => simp at nothing
  | @snoc state after events label event path taken ih =>
      generalize whole : events ++ [event] = history at again
      cases again with
      | refl => simp at whole
      | snoc shorter takenAgain =>
          obtain ⟨rfl, same⟩ := List.append_inj' whole rfl
          cases same
          obtain rfl := ih shorter
          have labels := (step_label taken).symm.trans (step_label takenAgain)
          rw [labels, takenAgain] at taken
          cases taken
          rfl

/-- What one thread does without the others: its calls, and `none` for a further
step of the running call. -/
def alone (program : Program Thread Shared Pc Call Output) (thread : Thread) :
    List (Option Call) → Shared → Pc → Option (List (Event Thread Call Output) × Shared × Pc)
  | [], shared, pc => some ([], shared, pc)
  | some request :: rest, shared, pc =>
      match program.enter thread pc request with
      | none => none
      | some pc =>
          (alone program thread rest shared pc).map fun (events, last) =>
            (.called thread request :: events, last)
  | none :: rest, shared, pc =>
      match program.advance shared pc with
      | none => none
      | some (shared, pc, output) =>
          (alone program thread rest shared pc).map fun (events, last) =>
            (.ran thread output :: events, last)

theorem alone_path {thread : Thread} {labels : List (Option Call)} {start last : Shared}
    {pc : Pc} (result : program.alone thread labels state.shared (state.pc thread) =
      some (events, last, pc)) :
    (program.machine start).Path state events (state.moved last thread pc) := by
  induction labels generalizing state events with
  | nil =>
      cases result
      rw [moved_self]
      exact .refl
  | cons label labels ih =>
      cases label with
      | some request =>
          unfold alone at result
          split at result
          case h_1 => cases result
          case h_2 entry entered =>
              obtain ⟨⟨rest, _⟩, done, same⟩ := Option.map_eq_some_iff.mp result
              cases same
              have step : (program.machine start).step state (.call thread request) =
                  some (state.moved state.shared thread entry, .called thread request) := by
                simp only [machine, entered, Option.map_some]
              rw [← moved_moved state state.shared thread entry]
              apply (Machine.Path.refl.snoc step).trans
              apply ih
              simpa only [moved_pc_self, moved_shared] using done
      | none =>
          unfold alone at result
          split at result
          case h_1 => cases result
          case h_2 after point output advanced =>
              obtain ⟨⟨rest, _⟩, done, same⟩ := Option.map_eq_some_iff.mp result
              cases same
              have step : (program.machine start).step state (.run thread) =
                  some (state.moved after thread point, .ran thread output) := by
                simp only [machine, advanced, Option.map_some]
              rw [← moved_moved state after thread point]
              apply (Machine.Path.refl.snoc step).trans
              apply ih
              simpa only [moved_pc_self, moved_shared] using done

/-- What a step of `thread` owes: the object stays sound, its own point is
justified, and no other thread loses its facts. -/
structure Preserves {Ghost : Type}
    (Sound : List (Event Thread Call Output) → Ghost → Shared → Prop)
    (Facts : Thread → List (Event Thread Call Output) → Ghost → Shared → Pc → Prop)
    (thread : Thread) (events : List (Event Thread Call Output))
    (event : Event Thread Call Output) (ghost ghost' : Ghost) (shared shared' : Shared)
    (pc : Pc) : Prop where
  sound : Sound (events ++ [event]) ghost' shared'
  own : Facts thread (events ++ [event]) ghost' shared' pc
  others : ∀ other, other ≠ thread → ∀ pc, Facts other events ghost shared pc →
    Facts other (events ++ [event]) ghost' shared' pc

/-- Invariant rule for threads whose steps may be restricted: a ghost state for
the object, and for every program point the facts that no other thread can
destroy. -/
theorem restricted_invariant {Ghost : Type}
    {permitted : Threads Thread Shared Pc → Label Thread Call → Prop}
    [∀ state label, Decidable (permitted state label)]
    (Sound : List (Event Thread Call Output) → Ghost → Shared → Prop)
    (Facts : Thread → List (Event Thread Call Output) → Ghost → Shared → Pc → Prop)
    {start : Ghost} (sound : Sound [] start shared)
    (idle : ∀ thread, Facts thread [] start shared program.idle)
    (call : ∀ {events : List (Event Thread Call Output)} {ghost : Ghost}
      {state : Threads Thread Shared Pc} {thread : Thread} {request : Call} {pc : Pc},
      ((program.machine shared).restrict permitted).Run events state →
      permitted state (.call thread request) → Sound events ghost state.shared →
      Facts thread events ghost state.shared (state.pc thread) →
      program.enter thread (state.pc thread) request = some pc →
      ∃ ghost', Preserves Sound Facts thread events (.called thread request) ghost ghost'
        state.shared state.shared pc)
    (advance : ∀ {events : List (Event Thread Call Output)} {ghost : Ghost}
      {state : Threads Thread Shared Pc} {thread : Thread} {after : Shared} {pc : Pc}
      {output : Output},
      ((program.machine shared).restrict permitted).Run events state →
      permitted state (.run thread) → Sound events ghost state.shared →
      Facts thread events ghost state.shared (state.pc thread) →
      program.advance state.shared (state.pc thread) = some (after, pc, output) →
      ∃ ghost', Preserves Sound Facts thread events (.ran thread output) ghost ghost'
        state.shared after pc)
    (run : ((program.machine shared).restrict permitted).Run events state) :
    ∃ ghost, Sound events ghost state.shared ∧
      ∀ thread, Facts thread events ghost state.shared (state.pc thread) := by
  have moves : ∀ {events : List (Event Thread Call Output)} {event : Event Thread Call Output}
      {ghost ghost' : Ghost} {state : Threads Thread Shared Pc} {thread : Thread}
      {after : Shared} {pc : Pc},
      (∀ thread, Facts thread events ghost state.shared (state.pc thread)) →
      Preserves Sound Facts thread events event ghost ghost' state.shared after pc →
      ∃ ghost, Sound (events ++ [event]) ghost (state.moved after thread pc).shared ∧
        ∀ other, Facts other (events ++ [event]) ghost (state.moved after thread pc).shared
          ((state.moved after thread pc).pc other) := by
    intro events event ghost ghost' state thread after pc facts preserves
    refine ⟨ghost', preserves.sound, fun other => ?_⟩
    simp only [moved]
    by_cases same : other = thread
    · subst same
      rw [Function.update_self]
      exact preserves.own
    · rw [Function.update_of_ne same]
      exact preserves.others other same _ (facts other)
  induction run with
  | refl => exact ⟨start, sound, idle⟩
  | @snoc state after events label event path taken ih =>
      obtain ⟨ghost, sound, facts⟩ := ih
      obtain ⟨allowed, taken⟩ := Machine.restrict_step taken
      cases label with
      | call thread request =>
          obtain ⟨pc, entered, same⟩ := Option.map_eq_some_iff.mp taken
          cases same
          obtain ⟨ghost', preserves⟩ := call path allowed sound (facts thread) entered
          exact moves facts preserves
      | run thread =>
          obtain ⟨⟨shared, pc, output⟩, advanced, same⟩ := Option.map_eq_some_iff.mp taken
          cases same
          obtain ⟨ghost', preserves⟩ := advance path allowed sound (facts thread) advanced
          exact moves facts preserves

/-- The rule for runs in which every step is permitted. -/
theorem run_invariant {Ghost : Type}
    (Sound : List (Event Thread Call Output) → Ghost → Shared → Prop)
    (Facts : Thread → List (Event Thread Call Output) → Ghost → Shared → Pc → Prop)
    {start : Ghost} (sound : Sound [] start shared)
    (idle : ∀ thread, Facts thread [] start shared program.idle)
    (call : ∀ {events : List (Event Thread Call Output)} {ghost : Ghost}
      {state : Threads Thread Shared Pc} {thread : Thread} {request : Call} {pc : Pc},
      (program.machine shared).Run events state → Sound events ghost state.shared →
      Facts thread events ghost state.shared (state.pc thread) →
      program.enter thread (state.pc thread) request = some pc →
      ∃ ghost', Preserves Sound Facts thread events (.called thread request) ghost ghost'
        state.shared state.shared pc)
    (advance : ∀ {events : List (Event Thread Call Output)} {ghost : Ghost}
      {state : Threads Thread Shared Pc} {thread : Thread} {after : Shared} {pc : Pc}
      {output : Output},
      (program.machine shared).Run events state → Sound events ghost state.shared →
      Facts thread events ghost state.shared (state.pc thread) →
      program.advance state.shared (state.pc thread) = some (after, pc, output) →
      ∃ ghost', Preserves Sound Facts thread events (.ran thread output) ghost ghost'
        state.shared after pc)
    (run : (program.machine shared).Run events state) :
    ∃ ghost, Sound events ghost state.shared ∧
      ∀ thread, Facts thread events ghost state.shared (state.pc thread) := by
  have free : ((program.machine shared).restrict fun _ _ => True).Run events state :=
    Machine.path_restrict (fun _ _ => trivial) run
  exact restricted_invariant Sound Facts sound idle
    (fun path _ sound facts entered => call (Machine.restrict_path path) sound facts entered)
    (fun path _ sound facts taken => advance (Machine.restrict_path path) sound facts taken) free

/-- Since its last call the thread has seen a step of the given kind, and the
object it was taken on. -/
def Witnessed (program : Program Thread Shared Pc Call Output) (shared : Shared)
    (thread : Thread) (Moment : Shared → Event Thread Call Output → Prop)
    (events : List (Event Thread Call Output)) : Prop :=
  ∃ earlier event rest state, events = earlier ++ event :: rest ∧
    (program.machine shared).Run earlier state ∧ Moment state.shared event ∧
    ∀ request, .called thread request ∉ event :: rest

variable {thread : Thread} {Moment : Shared → Event Thread Call Output → Prop}

theorem Witnessed.snoc (witnessed : Witnessed program shared thread Moment events)
    (quiet : ∀ request, event ≠ .called thread request) :
    Witnessed program shared thread Moment (events ++ [event]) := by
  obtain ⟨earlier, first, rest, state, rfl, run, moment, silent⟩ := witnessed
  refine ⟨earlier, first, rest ++ [event], state, by simp, run, moment, fun request called => ?_⟩
  rw [← List.cons_append] at called
  rcases List.mem_append.mp called with before | last
  · exact silent request before
  · exact quiet request (List.mem_singleton.mp last).symm

theorem Witnessed.now (run : (program.machine shared).Run events state)
    (moment : Moment state.shared event) (quiet : ∀ request, event ≠ .called thread request) :
    Witnessed program shared thread Moment (events ++ [event]) :=
  ⟨events, event, [], state, rfl, run, moment, fun request called =>
    quiet request (List.mem_singleton.mp called).symm⟩

/-- The witnessed step lies on every run with that history. -/
theorem Witnessed.path (witnessed : Witnessed program shared thread Moment events)
    (run : (program.machine shared).Run events state) :
    ∃ earlier event rest middle, events = earlier ++ event :: rest ∧
      (program.machine shared).Run earlier middle ∧
      (program.machine shared).Path middle (event :: rest) state ∧
      Moment middle.shared event ∧ ∀ request, .called thread request ∉ event :: rest := by
  obtain ⟨earlier, event, rest, middle, rfl, before, moment, silent⟩ := witnessed
  obtain ⟨same, left, right⟩ := run.split
  obtain rfl := path_unique before left
  exact ⟨earlier, event, rest, middle, rfl, before, right, moment, silent⟩

end Program

end DmLockFree.Library
