import DmLockFree.ThreadPool.Tasks
import DmLockFree.Library.Line
import Mathlib.Data.List.ReduceOption

/-! Tasks overtake each other only when a worker processes one: the tasks in
the pool, from the last worker back to queue 0, are in acceptance order. -/

set_option autoImplicit false

namespace DmLockFree.CDMQueueThreadPool

open Library

variable {α : Type} {N Q : Nat}

/-- The non-null tasks of a worker: the one in its hand, then its queue. -/
def Pipeline.segment (pipeline : Pipeline α N) (id : Nat) : List α :=
  if inside : id < N then
    (pipeline.hands ⟨id, inside⟩).toList ++ (pipeline.contents ⟨id, inside⟩).reduceOption
  else []

/-- Worker `N - 1`'s hand and queue, and so on down to those of worker 0. -/
def State.line (state : State α N) : List α := Library.line state.pipeline.segment N

def Event.processedBy (id : Fin N) : Event α N → Option α
  | .onProcessTask other task => if other = id then some task else none
  | _ => none

/-- The tasks that one worker passes to `OnProcessTask`. -/
def processedBy (id : Fin N) (events : List (Event α N)) : List α :=
  events.filterMap (Event.processedBy id)

theorem processedBy_snoc (id : Fin N) (events : List (Event α N)) (event : Event α N) :
    processedBy id (events ++ [event]) =
      processedBy id events ++ (event.processedBy id).toList := by
  cases passes : event.processedBy id <;> simp [processedBy, passes]

namespace Pipeline

theorem segment_eq (pipeline : Pipeline α N) (id : Fin N) :
    pipeline.segment id =
      (pipeline.hands id).toList ++ (pipeline.contents id).reduceOption := by
  simp [segment]

theorem segment_mk (contents : Fin N → List (Option α)) (hands : Fin N → Option α) (id : Fin N) :
    segment ⟨contents, hands⟩ id = (hands id).toList ++ (contents id).reduceOption :=
  segment_eq ⟨contents, hands⟩ id

variable {before after : Pipeline α N} {station : Nat}

theorem segment_congr (hands : ∀ id : Fin N, id.val = station → after.hands id = before.hands id)
    (contents : ∀ id : Fin N, id.val = station → after.contents id = before.contents id) :
    after.segment station = before.segment station := by
  unfold segment
  split
  case isTrue inside => rw [hands ⟨station, inside⟩ rfl, contents ⟨station, inside⟩ rfl]
  case isFalse => rfl

theorem segment_accepted [NeZero N] (ptr : Option α) :
    ({ before with
      contents := Function.update before.contents 0 (before.contents 0 ++ [ptr]) } :
        Pipeline α N).segment 0 = before.segment 0 ++ ptr.toList := by
  have first := segment_eq before 0
  have now := segment_mk (Function.update before.contents 0 (before.contents 0 ++ [ptr]))
    before.hands 0
  rw [Fin.val_zero] at first now
  rw [now, first, Function.update_self, List.reduceOption_append, List.append_assoc]
  cases ptr with
  | none => rfl
  | some task => rfl

theorem segment_popped {id : Fin N} {ptr : Option α} {rest : List (Option α)}
    (front : before.contents id = ptr :: rest) (free : before.hands id = none) :
    ({ contents := Function.update before.contents id rest
       hands := Function.update before.hands id ptr } : Pipeline α N).segment =
      before.segment := by
  funext station
  by_cases mine : station = id.val
  · subst mine
    rw [segment_mk, segment_eq, Function.update_self, Function.update_self, front, free]
    cases ptr with
    | none => rfl
    | some task => rfl
  · apply segment_congr
    · intro other same
      subst same
      exact Function.update_of_ne (fun same => mine (congrArg Fin.val same)) ptr before.hands
    · intro other same
      subst same
      exact Function.update_of_ne (fun same => mine (congrArg Fin.val same)) rest before.contents

theorem segment_held {id : Fin N} {task : α} (held : before.hands id = some task) :
    before.segment id = task :: (before.contents id).reduceOption := by
  rw [segment_eq, held]
  rfl

theorem segment_released (before : Pipeline α N) {id : Fin N}
    {contents : Fin N → List (Option α)} (same : contents id = before.contents id) :
    ({ contents, hands := Function.update before.hands id none } : Pipeline α N).segment id =
      (before.contents id).reduceOption := by
  rw [segment_mk, Function.update_self, same]
  rfl

end Pipeline

/-- Per worker: what it has processed, followed by the line up to its hand. -/
def Ordered (events : List (Event α N)) (pipeline : Pipeline α N) : Prop :=
  ∀ id : Fin N, (processedBy id events ++ Library.line pipeline.segment (id.val + 1)).Sublist
    (acceptedTasks events)

section Steps

variable {before after : Pipeline α N} {event : Event α N} {events : List (Event α N)}

/-- A step in which the worker processes nothing and the pool accepts nothing. -/
theorem Ordered.keeps (ordered : Ordered events before) {id : Fin N}
    (quiet : event.entered = none) (nothing : event.processedBy id = none)
    (shorter : (Library.line after.segment (id.val + 1)).Sublist
      (Library.line before.segment (id.val + 1))) :
    (processedBy id (events ++ [event]) ++ Library.line after.segment (id.val + 1)).Sublist
      (acceptedTasks (events ++ [event])) := by
  rw [processedBy_snoc, acceptedTasks_snoc, quiet, nothing]
  simp only [Option.toList_none, List.append_nil]
  exact ((List.Sublist.refl _).append shorter).trans (ordered id)

theorem Ordered.step [NeZero N] (ordered : Ordered events before) (step : before.Step event after) :
    Ordered (events ++ [event]) after := by
  intro worker
  cases step with
  | silent | joined | refused => exact ordered.keeps rfl rfl (List.Sublist.refl _)
  | accepted ptr =>
      rw [processedBy_snoc, acceptedTasks_snoc,
        Library.line.enter (Nat.succ_pos worker.val) (Pipeline.segment_accepted ptr)]
      · simp only [Event.processedBy, Event.entered, Option.toList_none, List.append_nil]
        rw [← List.append_assoc]
        exact (ordered worker).append (List.Sublist.refl _)
      · intro station apart
        apply Pipeline.segment_congr
        · exact fun _ _ => rfl
        · intro other same
          subst same
          apply Function.update_of_ne
          intro same
          subst same
          exact apart rfl
  | popped id ptr rest front free =>
      apply ordered.keeps rfl rfl
      rw [Pipeline.segment_popped front free]
  | forwarded id next task follows held =>
      have apart : id ≠ next := by
        intro same
        subst same
        omega
      have left := Pipeline.segment_released before
        (Function.update_of_ne apart (before.contents next ++ [some task]) before.contents)
      have others : ∀ station, station ≠ id.val → station ≠ id.val + 1 →
          Pipeline.segment (α := α) {
            contents := Function.update before.contents next (before.contents next ++ [some task])
            hands := Function.update before.hands id none } station = before.segment station := by
        intro station notHere notNext
        apply Pipeline.segment_congr
        · intro other same
          subst same
          exact Function.update_of_ne (fun same => notHere (congrArg Fin.val same)) _ _
        · intro other same
          subst same
          apply Function.update_of_ne
          intro same
          subst same
          exact notNext follows
      apply ordered.keeps rfl rfl
      by_cases below : id.val < worker.val
      · rw [Library.line.pass (Pipeline.segment_held held) left ?_ others (Nat.succ_lt_succ below)]
        rw [← follows, Pipeline.segment_mk, Pipeline.segment_eq,
          Function.update_of_ne apart.symm, Function.update_self]
        simp [List.reduceOption_append]
      · apply Library.line.leave (Pipeline.segment_held held) left
        intro other notHere less
        exact others other notHere (by omega)
  | processed id task held =>
      have left := Pipeline.segment_released before (rfl : before.contents id = _)
      have others : ∀ station, station ≠ id.val → Pipeline.segment (α := α)
          { before with hands := Function.update before.hands id none } station =
            before.segment station := by
        intro station notHere
        apply Pipeline.segment_congr
        · intro other same
          subst same
          exact Function.update_of_ne (fun same => notHere (congrArg Fin.val same)) _ _
        · exact fun _ _ => rfl
      by_cases mine : id = worker
      · subst mine
        have front := Library.line.front (Pipeline.segment_held held) left
          fun other less => others other (Nat.ne_of_lt less)
        have kept := ordered id
        rw [front] at kept
        rw [processedBy_snoc, acceptedTasks_snoc]
        simpa [Event.processedBy, Event.entered] using kept
      · apply ordered.keeps rfl
        · simp [Event.processedBy, mine]
        · exact Library.line.leave (Pipeline.segment_held held) left
            fun other notHere _ => others other notHere

end Steps

variable [NeZero N] {events : List (Event α N)} {state : State α N}

theorem run_ordered (small : Q + 1 ≤ 2 ^ 30) (run : (machine α N Q).Run events state) :
    Ordered events state.pipeline := by
  induction run with
  | refl =>
      intro id
      have contents : (machine α N Q).start.pipeline.contents = fun _ => [] :=
        funext fun _ => (initialQueue_represents small).contents_eq
      have nothing : (machine α N Q).start.pipeline.segment = fun _ => [] := by
        funext station
        unfold Pipeline.segment
        split
        case isTrue => rw [contents]; rfl
        case isFalse => rfl
      have empty : Library.line (fun _ => ([] : List α)) (id.val + 1) = [] := by
        induction id.val + 1 with
        | zero => rfl
        | succ count ih => simp [Library.line, ih]
      rw [nothing, empty]
      exact .slnil
  | snoc path taken ih => exact ih.step (pool_step small (run_invariant small path) taken).2

/-- The tasks in the pool, from worker `N - 1`'s hand down to queue 0, are in
acceptance order, and so are the tasks that each worker has passed to
`OnProcessTask`. -/
theorem acceptance_order_kept (small : Q + 1 ≤ 2 ^ 30) (run : (machine α N Q).Run events state) :
    state.line.Sublist (acceptedTasks events) ∧
      ∀ id, (processedBy id events).Sublist (acceptedTasks events) := by
  have ordered := run_ordered small run
  constructor
  · have last := ordered ⟨N - 1, Nat.sub_lt (Nat.pos_of_neZero N) Nat.one_pos⟩
    have whole : N - 1 + 1 = N := Nat.sub_add_cancel (Nat.pos_of_neZero N)
    simp only [whole] at last
    exact (List.sublist_append_right _ _).trans last
  · intro id
    exact (List.sublist_append_left _ _).trans (ordered id)

/-- Task 7 goes to worker 1 while 8 waits in queue 0, and then 9 comes in. -/
def inFlight : List (Label Nat 2) :=
  [.client (some 7), .client (some 8), .worker 0, .worker 0, .worker 0, .worker 0,
    .worker 1, .worker 1, .client (some 9), .worker 0, .worker 0]

theorem acceptance_order_kept_inFlight :
    ∃ events state, (machine Nat 2 4).Run events state ∧ acceptedTasks events = [7, 8, 9] ∧
      state.line = [7, 8, 9] ∧ state.line.Sublist (acceptedTasks events) := by
  have run := Machine.exec_run (machine Nat 2 4) inFlight rfl
  exact ⟨_, _, run, rfl, rfl, (acceptance_order_kept (by decide) run).1⟩

end DmLockFree.CDMQueueThreadPool
