import DmLockFree.Library.Threads
import Mathlib.Data.List.Basic

/-!
# Conditions along a history

A condition on events may depend on what has happened before them.
-/

set_option autoImplicit false

namespace DmLockFree.Library

variable {Event : Type}

/-- Every event of the history meets the condition, given the events before it. -/
def Along (condition : List Event → Event → Prop) (events : List Event) : Prop :=
  ∀ earlier event rest, events = earlier ++ event :: rest → condition earlier event

/-- The same for a computable condition, with the events that came before. -/
def alongAfter (check : List Event → Event → Bool) : List Event → List Event → Bool
  | _, [] => true
  | earlier, event :: rest => check earlier event && alongAfter check (earlier ++ [event]) rest

namespace Along

variable {condition : List Event → Event → Prop} {events : List Event} {event : Event}

theorem nil : Along condition [] := by
  intro earlier event rest whole
  simp at whole

theorem before {later : List Event} (along : Along condition (events ++ later)) :
    Along condition events := by
  intro earlier first rest whole
  subst whole
  exact along earlier first (rest ++ later) (by simp)

theorem init (along : Along condition (events ++ [event])) : Along condition events :=
  along.before

theorem last (along : Along condition (events ++ [event])) : condition events event :=
  along events event [] rfl

theorem snoc (along : Along condition events) (now : condition events event) :
    Along condition (events ++ [event]) := by
  intro earlier first rest whole
  rcases List.eq_nil_or_concat rest with rfl | ⟨middle, final, rfl⟩
  · obtain ⟨rfl, same⟩ := List.append_inj' whole rfl
    cases same
    exact now
  · rw [List.concat_eq_append, ← List.cons_append, ← List.append_assoc] at whole
    obtain ⟨rfl, _⟩ := List.append_inj' whole rfl
    exact along earlier first middle rfl

theorem of_check {check : List Event → Event → Bool}
    (sound : ∀ earlier event, check earlier event = true → condition earlier event)
    (checked : alongAfter check [] events = true) : Along condition events := by
  have goesOn : ∀ rest past, Along condition past → alongAfter check past rest = true →
      Along condition (past ++ rest) := by
    intro rest
    induction rest with
    | nil =>
        intro past along _
        rwa [List.append_nil]
    | cons event rest ih =>
        intro past along checked
        simp only [alongAfter, Bool.and_eq_true] at checked
        rw [List.append_cons]
        exact ih _ (along.snoc (sound past event checked.1)) checked.2
  exact goesOn events [] .nil checked

end Along

namespace Program

open Threads

variable {Thread Shared Pc Call Output Ghost : Type} [DecidableEq Thread]
  {program : Program Thread Shared Pc Call Output} {shared : Shared}
  {state : Threads Thread Shared Pc} {events : List (Threads.Event Thread Call Output)}

/-- Invariant rule for runs whose histories meet a condition. -/
theorem along_invariant
    {condition : List (Threads.Event Thread Call Output) → Threads.Event Thread Call Output → Prop}
    (Sound : List (Threads.Event Thread Call Output) → Ghost → Shared → Prop)
    (Facts : Thread → List (Threads.Event Thread Call Output) → Ghost → Shared → Pc → Prop)
    {start : Ghost} (sound : Sound [] start shared)
    (idle : ∀ thread, Facts thread [] start shared program.idle)
    (call : ∀ {events : List (Threads.Event Thread Call Output)} {ghost : Ghost}
      {state : Threads Thread Shared Pc} {thread : Thread} {request : Call} {pc : Pc},
      (program.machine shared).Run events state →
      Along condition (events ++ [.called thread request]) → Sound events ghost state.shared →
      Facts thread events ghost state.shared (state.pc thread) →
      program.enter thread (state.pc thread) request = some pc →
      ∃ ghost', Preserves Sound Facts thread events (.called thread request) ghost ghost'
        state.shared state.shared pc)
    (advance : ∀ {events : List (Threads.Event Thread Call Output)} {ghost : Ghost}
      {state : Threads Thread Shared Pc} {thread : Thread} {after : Shared} {pc : Pc}
      {output : Output},
      (program.machine shared).Run events state →
      Along condition (events ++ [.ran thread output]) → Sound events ghost state.shared →
      Facts thread events ghost state.shared (state.pc thread) →
      program.advance state.shared (state.pc thread) = some (after, pc, output) →
      ∃ ghost', Preserves Sound Facts thread events (.ran thread output) ghost ghost'
        state.shared after pc)
    (run : (program.machine shared).Run events state) (along : Along condition events) :
    ∃ ghost, Sound events ghost state.shared ∧
      ∀ thread, Facts thread events ghost state.shared (state.pc thread) := by
  have weaken : ∀ {events : List (Threads.Event Thread Call Output)}
      {event : Threads.Event Thread Call Output} {ghost : Ghost} {thread : Thread}
      {before after : Shared} {pc : Pc},
      (Along condition (events ++ [event]) → ∃ ghost',
        Preserves Sound Facts thread events event ghost ghost' before after pc) →
      ∃ ghost', Preserves (fun events ghost shared => Along condition events →
        Sound events ghost shared) (fun thread events ghost shared pc => Along condition events →
        Facts thread events ghost shared pc) thread events event ghost ghost' before after pc := by
    intro events event ghost thread before after pc kept
    by_cases goesOn : Along condition (events ++ [event])
    · obtain ⟨ghost', preserves⟩ := kept goesOn
      exact ⟨ghost', fun _ => preserves.sound, fun _ => preserves.own, fun other apart pc facts _ =>
        preserves.others other apart pc (facts goesOn.init)⟩
    · exact ⟨ghost, fun broken => absurd broken goesOn, fun broken => absurd broken goesOn,
        fun _ _ _ _ broken => absurd broken goesOn⟩
  obtain ⟨ghost, kept, facts⟩ := run_invariant
    (fun events ghost shared => Along condition events → Sound events ghost shared)
    (fun thread events ghost shared pc => Along condition events →
      Facts thread events ghost shared pc)
    (fun _ => sound) (fun thread _ => idle thread)
    (fun run sound facts entered => weaken fun goesOn =>
      call run goesOn (sound goesOn.init) (facts goesOn.init) entered)
    (fun run sound facts taken => weaken fun goesOn =>
      advance run goesOn (sound goesOn.init) (facts goesOn.init) taken) run
  exact ⟨ghost, kept along, fun thread => facts thread along⟩

/-- What every step of such a run promises holds along its history. -/
theorem run_along
    {condition promise : List (Threads.Event Thread Call Output) →
      Threads.Event Thread Call Output → Prop}
    (called : ∀ {events : List (Threads.Event Thread Call Output)} {thread : Thread}
      {request : Call}, promise events (.called thread request))
    (ran : ∀ {events : List (Threads.Event Thread Call Output)}
      {state : Threads Thread Shared Pc} {thread : Thread} {after : Shared} {pc : Pc}
      {output : Output}, (program.machine shared).Run events state → Along condition events →
      program.advance state.shared (state.pc thread) = some (after, pc, output) →
      promise events (.ran thread output))
    (run : (program.machine shared).Run events state) (along : Along condition events) :
    Along promise events := by
  induction run with
  | refl => exact .nil
  | @snoc state after events label event path taken ih =>
      refine (ih along.init).snoc ?_
      cases label with
      | call thread request =>
          obtain ⟨pc, _, same⟩ := Option.map_eq_some_iff.mp taken
          cases same
          exact called
      | run thread =>
          obtain ⟨⟨_, pc, output⟩, advanced, same⟩ := Option.map_eq_some_iff.mp taken
          cases same
          exact ran path along.init advanced

end Program

end DmLockFree.Library
