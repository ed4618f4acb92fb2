import DmLockFree.CAtomicQueue.Safety
import DmLockFree.Library.Lifetime

/-! The objects of a `CAtomicQueue` from `new` to `delete`. The destructor frees
the array of cells and not the objects behind them. -/

set_option autoImplicit false

namespace DmLockFree.CAtomicQueue

open Library Program

variable {Consumer T : Type}

/-- `delete[] buffer`, with the accesses to objects: there are none. -/
def destruct (queue : CAtomicQueue T) : CAtomicQueue T × List (Access T) :=
  ({ queue with buffer := [] }, [])

def Access.use : Access T → Option (Use Nat)
  | .allocate pointer _ => some (.allocate pointer)
  | .delete pointer _ => some (.delete pointer)
  | _ => none

/-- The allocations and deletions of objects. -/
def uses (events : List (Event Consumer T)) : List (Use Nat) :=
  events.filterMap fun event => event.output.bind fun output => output.access.use

theorem uses_called (events : List (Event Consumer T)) (thread : Thread Consumer)
    (call : Call T) : uses (events ++ [.called thread call]) = uses events := by
  simp [uses, Threads.Event.output]

theorem uses_ran (events : List (Event Consumer T)) (thread : Thread Consumer)
    (output : Output T) :
    uses (events ++ [.ran thread output]) = uses events ++ output.access.use.toList := by
  cases use : output.access.use <;> simp [uses, Threads.Event.output, use]

/-- What a step does to the heap. -/
inductive HeapStep (before after : Nat → Option T) : Access T → Prop where
  | same {access : Access T} (unused : access.use = none) (kept : after = before) :
      HeapStep before after access
  | allocate (pointer : Nat) (value : T) (free : before pointer = none)
      (changed : after = Function.update before pointer (some value)) :
      HeapStep before after (.allocate pointer value)
  | delete (pointer : Nat) (changed : after = Function.update before pointer none) :
      HeapStep before after (.delete pointer (before pointer))

theorem advance_heap {queue after : CAtomicQueue T} {pc next : Pc T} {output : Output T}
    (taken : advance queue pc = some (after, next, output)) :
    HeapStep queue.heap after.heap output.access := by
  cases advances taken with
  | pushAllocate value pointer currentTail nextTail dead =>
      exact .allocate pointer value dead rfl
  | popDelete pointer => exact .delete pointer rfl
  | _ => exact .same rfl rfl

variable {capacity : UInt64} {events : List (Event Unit T)} {state : State Unit T}

/-- Only dead pointers are handed out and only living objects are deleted. -/
theorem run_lives (positive : 1 ≤ capacity.toNat)
    (run : ((program Unit T).machine (construct T capacity)).Run events state) :
    Lives (uses events) fun pointer => state.shared.heap pointer ≠ none := by
  induction run with
  | refl => exact .nil fun pointer living => living rfl
  | @snoc state after events label event path taken ih =>
      cases label with
      | call thread request =>
          obtain ⟨pc, _, same⟩ := Option.map_eq_some_iff.mp taken
          cases same
          rw [uses_called]
          exact ih
      | run thread =>
          obtain ⟨⟨queue, pc, output⟩, advanced, same⟩ := Option.map_eq_some_iff.mp taken
          cases same
          rw [uses_ran]
          obtain ⟨_, _, disciplined⟩ := step_disciplined positive path advanced
          have deletes := disciplined.deletes
          obtain ⟨access, returned⟩ := output
          change Lives (uses events ++ access.use.toList) fun pointer => queue.heap pointer ≠ none
          have heap : HeapStep state.shared.heap queue.heap access := advance_heap advanced
          cases heap with
          | same unused kept =>
              rw [unused, kept]
              simpa using ih
          | allocate pointer value free changed =>
              apply ih.allocate (not_not.mpr free)
              intro other
              by_cases here : other = pointer <;> simp [changed, here]
          | delete pointer changed =>
              obtain ⟨value, living, _⟩ := deletes pointer _ rfl
              apply ih.delete (by rw [living]; exact Option.some_ne_none value)
              intro other
              by_cases here : other = pointer <;> simp [changed, here]

theorem nothing_alive_iff (positive : 1 ≤ capacity.toNat)
    (run : ((program Unit T).machine (construct T capacity)).Run events state)
    (stopped : ∀ thread, state.pc thread = .idle) :
    (∀ pointer, state.shared.heap pointer = none) ↔ state.shared.head = state.shared.tail := by
  obtain ⟨ghost, ⟨sound, owns, _⟩, facts⟩ := run_invariant (construct_sound positive) rfl run
  have producer := facts .producer
  have consumer := facts (.consumer ())
  rw [stopped] at producer consumer
  have offers : Offers ghost none none [] := producer
  have waiting : Waiting ghost (memory events) := consumer
  have owned : ghost.owned = ghost.contents.stored := by
    simp [Ghost.owned, Contents.remaining, waiting.removed, waiting.solid, offers.ahead,
      offers.fresh]
  rw [sound.empty_iff le_rfl sound.tail, List.length_eq_zero_iff, ← owned,
    List.eq_nil_iff_forall_not_mem]
  constructor
  · intro dead pointer member
    exact (owns.alive pointer).mpr member (dead pointer)
  · intro nothing pointer
    by_contra living
    exact nothing pointer ((owns.alive pointer).mp living)

/-- One producer and one consumer, and then the destructor: every object has been
deleted exactly once if and only if the queue is empty when both have stopped. -/
theorem destruct_frees_iff (positive : 1 ≤ capacity.toNat)
    (run : ((program Unit T).machine (construct T capacity)).Run events state)
    (stopped : ∀ thread, state.pc thread = .idle) :
    DeletedOnce (uses events ++ (destruct state.shared).2.filterMap Access.use) ↔
      state.shared.head = state.shared.tail := by
  have lives := run_lives positive run
  rw [← nothing_alive_iff positive run stopped]
  simp only [destruct, List.filterMap_nil, List.append_nil]
  rw [lives.deletedOnce_iff]
  simp only [not_not]

/-- A value is pushed and popped, and another one is pushed. -/
def stored : List (Threads.Label (Thread Unit) (Call Nat)) :=
  [.call .producer (.tryPush 7 100), .run .producer, .run .producer, .run .producer,
    .run .producer, .run .producer, .run .producer,
    .call (.consumer ()) .pop, .run (.consumer ()), .run (.consumer ()), .run (.consumer ()),
    .run (.consumer ()), .run (.consumer ()), .run (.consumer ()),
    .call .producer (.tryPush 8 200), .run .producer, .run .producer, .run .producer,
    .run .producer, .run .producer, .run .producer]

theorem destruct_frees_iff_stored :
    ∃ (events : List (Event Unit Nat)) (state : State Unit Nat),
      ((program Unit Nat).machine (construct Nat 2)).Run events state ∧
      (∀ thread, state.pc thread = .idle) ∧
      (DeletedOnce (uses events ++ (destruct state.shared).2.filterMap Access.use) ↔
        state.shared.head = state.shared.tail) := by
  have run := Machine.exec_run ((program Unit Nat).machine (construct Nat 2)) stored rfl
  refine ⟨_, _, run, ?_, destruct_frees_iff (by decide) run ?_⟩
  · intro thread
    cases thread <;> rfl
  · intro thread
    cases thread <;> rfl

/-- The object behind pointer 200 is never deleted. -/
theorem destruct_leaks :
    ∃ (events : List (Event Unit Nat)) (state : State Unit Nat),
      ((program Unit Nat).machine (construct Nat 2)).Run events state ∧
      (∀ thread, state.pc thread = .idle) ∧
      uses events = [.allocate 100, .delete 100, .allocate 200] ∧
      ¬DeletedOnce (uses events ++ (destruct state.shared).2.filterMap Access.use) := by
  have run := Machine.exec_run ((program Unit Nat).machine (construct Nat 2)) stored rfl
  refine ⟨_, _, run, ?_, rfl, ?_⟩
  · intro thread
    cases thread <;> rfl
  · intro once
    have count := once [.allocate 100, .delete 100] 200 [] rfl
    cases count

end DmLockFree.CAtomicQueue
