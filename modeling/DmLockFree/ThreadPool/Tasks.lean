import DmLockFree.ThreadPool.Pipeline
import DmLockFree.Library.Placement
import Mathlib.Data.Fintype.BigOperators
import Mathlib.Tactic.DeriveFintype

/-!
# No task is lost or duplicated

The places of a task are the queues, the hands of the workers and the calls of
`OnProcessTask` already made. Steps of the pipeline are moves of tokens on these
places, ranked along the pipeline.
-/

set_option autoImplicit false

namespace DmLockFree.CDMQueueThreadPool

open Library

variable {α : Type} {N Q : Nat}

inductive Place (N : Nat) where
  | queue (id : Fin N)
  | hand (id : Fin N)
  | processed
  deriving DecidableEq, Fintype

def Place.rank : Place N → Nat
  | .queue id => 2 * id.val
  | .hand id => 2 * id.val + 1
  | .processed => 2 * N

/-- The worker a place belongs to; a processed task may have reached the last. -/
def Place.level : Place N → Nat
  | .queue id | .hand id => id.val
  | .processed => N - 1

theorem Place.sum_eq (copies : Place N → Nat) :
    ∑ place, copies place =
      (∑ id, copies (.queue id)) + (∑ id, copies (.hand id)) + copies .processed := by
  rw [← (proxy_equiv% (Place N)).sum_comp]
  simp only [Fintype.sum_sum_type, Finset.univ_unique, Finset.sum_singleton,
    Nat.add_assoc]
  rfl

/-- The task that a step lets into the pool. -/
def Event.entered : Event α N → Option α
  | .pushTask ptr true => ptr
  | _ => none

def Event.refused : Event α N → Option α
  | .pushTask ptr false => ptr
  | _ => none

def Event.submitted : Event α N → Option α
  | .pushTask ptr _ => ptr
  | _ => none

def Event.passed : Event α N → Option α
  | .onProcessTask _ task => some task
  | _ => none

def Event.handedOn : Event α N → Option α
  | .forwarded _ task _ => some task
  | _ => none

/-- The non-null tasks for which `PushTask` returned true. -/
def acceptedTasks (events : List (Event α N)) : List α := events.filterMap Event.entered

/-- The non-null tasks for which `PushTask` returned false. -/
def refusedTasks (events : List (Event α N)) : List α := events.filterMap Event.refused

/-- The non-null tasks passed to `PushTask`. -/
def submittedTasks (events : List (Event α N)) : List α := events.filterMap Event.submitted

/-- The tasks passed to `OnProcessTask`. -/
def processedTasks (events : List (Event α N)) : List α := events.filterMap Event.passed

/-- The tasks forwarded from one worker's queue to the next. -/
def forwardedTasks (events : List (Event α N)) : List α := events.filterMap Event.handedOn

section Histories

variable (events : List (Event α N)) (event : Event α N)

@[simp] theorem acceptedTasks_snoc :
    acceptedTasks (events ++ [event]) = acceptedTasks events ++ event.entered.toList := by
  cases enters : event.entered <;> simp [acceptedTasks, enters]

@[simp] theorem processedTasks_snoc :
    processedTasks (events ++ [event]) = processedTasks events ++ event.passed.toList := by
  cases passes : event.passed <;> simp [processedTasks, passes]

@[simp] theorem forwardedTasks_snoc :
    forwardedTasks (events ++ [event]) = forwardedTasks events ++ event.handedOn.toList := by
  cases hands : event.handedOn <;> simp [forwardedTasks, hands]

end Histories

/-- Only forwarding a task from a hand to the next queue counts as forwarding. -/
theorem Pipeline.Step.handedOn_cases [NeZero N] {before after : Pipeline α N}
    {event : Event α N} (step : before.Step event after) {task : α}
    (handed : event.handedOn = some task) :
    ∃ id next : Fin N, next.val = id.val + 1 ∧ before.hands id = some task ∧
      some task ∈ after.contents next := by
  cases step with
  | forwarded id next moved follows held =>
      cases handed
      exact ⟨id, next, follows, held, by simp⟩
  | _ => cases handed

section Places

variable [DecidableEq α]

def Pipeline.placement (pipeline : Pipeline α N) (done : List α) : Placement (Place N) α
  | .queue id, task => (pipeline.contents id).count (some task)
  | .hand id, task => if pipeline.hands id = some task then 1 else 0
  | .processed, task => done.count task

/-- How many copies of a task lie on each place after a history. -/
def State.placement (state : State α N) (events : List (Event α N)) : Placement (Place N) α :=
  state.pipeline.placement (processedTasks events)

theorem count_update_append (contents : Fin N → List (Option α)) (id other : Fin N)
    (ptr wanted : Option α) :
    (Function.update contents id (contents id ++ [ptr]) other).count wanted =
      (contents other).count wanted + if other = id ∧ wanted = ptr then 1 else 0 := by
  by_cases same : other = id
  · subst same
    by_cases hit : wanted = ptr
    · simp [hit]
    · simp [hit, Ne.symm hit]
  · simp [same]

theorem count_update_tail {contents : Fin N → List (Option α)} {id : Fin N} {ptr : Option α}
    {rest : List (Option α)} (front : contents id = ptr :: rest) (other : Fin N)
    (wanted : Option α) :
    (Function.update contents id rest other).count wanted +
      (if other = id ∧ wanted = ptr then 1 else 0) = (contents other).count wanted := by
  by_cases same : other = id
  · subst same
    by_cases hit : wanted = ptr
    · simp [front, hit]
    · simp [front, hit, Ne.symm hit]
  · simp [same]

theorem update_hand (hands : Fin N → Option α) (id other : Fin N) (ptr : Option α) (task : α) :
    (if Function.update hands id ptr other = some task then 1 else 0 : Nat) =
      if other = id then (if ptr = some task then 1 else 0)
      else if hands other = some task then 1 else 0 := by
  by_cases same : other = id
  · subst same; simp
  · simp [same]

theorem Pipeline.Step.moves [NeZero N] {before after : Pipeline α N} {event : Event α N}
    (step : before.Step event after) (events : List (Event α N)) :
    Placement.Moves Place.rank (before.placement (processedTasks events))
      (after.placement (processedTasks (events ++ [event]))) event.entered := by
  rw [processedTasks_snoc]
  cases step with
  | silent | joined | refused =>
      exact .stay fun place task => by simp [Event.passed]
  | accepted ptr =>
      cases ptr with
      | none =>
          refine .stay fun place task => ?_
          cases place <;> simp [placement, Event.passed, count_update_append]
      | some arrived =>
          refine .enter (.queue 0) arrived fun place task => ?_
          cases place <;>
            simp [placement, Event.passed, count_update_append, Placement.single]
  | popped id ptr rest front free =>
      cases ptr with
      | none =>
          refine .stay fun place task => ?_
          cases place with
          | queue other => simpa [placement] using count_update_tail front other (some task)
          | hand other =>
              simp only [placement, update_hand]
              split
              case isTrue same => subst same; simp [free]
              case isFalse => rfl
          | processed => simp [placement, Event.passed]
      | some task =>
          refine .move (.queue id) (.hand id) task (Nat.lt_succ_self _) fun place wanted => ?_
          cases place with
          | queue other =>
              simpa [placement, Placement.single] using count_update_tail front other (some wanted)
          | hand other =>
              simp only [placement, update_hand]
              split
              case isTrue same => subst same; simp [free, Placement.single, eq_comm]
              case isFalse apart => simp [apart, Placement.single]
          | processed => simp [placement, Event.passed, Placement.single]
  | forwarded id next task follows held =>
      refine .move (.hand id) (.queue next) task (by simp only [Place.rank]; omega)
        fun place wanted => ?_
      cases place with
      | queue other => simp [placement, count_update_append, Placement.single]
      | hand other =>
          simp only [placement, update_hand]
          split
          case isTrue same => subst same; simp [held, Placement.single, eq_comm]
          case isFalse apart => simp [apart, Placement.single]
      | processed => simp [placement, Event.passed, Placement.single]
  | processed id task held =>
      refine .move (.hand id) .processed task (by simp only [Place.rank]; omega)
        fun place wanted => ?_
      cases place with
      | queue other => simp [placement, Placement.single]
      | hand other =>
          simp only [placement, update_hand]
          split
          case isTrue same => subst same; simp [held, Placement.single, eq_comm]
          case isFalse apart => simp [apart, Placement.single]
      | processed =>
          by_cases hit : wanted = task
          · simp [placement, Event.passed, Placement.single, hit]
          · simp [placement, Event.passed, Placement.single, hit, Ne.symm hit]

theorem submittedTasks_count (events : List (Event α N)) (task : α) :
    (submittedTasks events).count task =
      (acceptedTasks events).count task + (refusedTasks events).count task := by
  induction events with
  | nil => rfl
  | cons event events ih =>
      simp only [submittedTasks, acceptedTasks, refusedTasks] at ih ⊢
      cases event with
      | pushTask ptr result =>
          cases ptr <;> cases result <;>
            simp [List.filterMap_cons, Event.submitted, Event.entered, Event.refused,
              List.count_cons, ih] <;> omega
      | _ => simpa [List.filterMap_cons, Event.submitted, Event.entered, Event.refused] using ih

theorem acceptedTasks_once {events : List (Event α N)} (distinct : (submittedTasks events).Nodup)
    (task : α) : (acceptedTasks events).count task ≤ 1 := by
  have once := List.nodup_iff_count_le_one.mp distinct task
  rw [submittedTasks_count] at once
  omega

/-- The tasks in flight are the accepted ones, and a task accepted once was
forwarded at most as often as its place lies behind the first queue. -/
structure Flow (events : List (Event α N)) (placement : Placement (Place N) α) : Prop where
  total : ∀ task, placement.total task = (acceptedTasks events).count task
  level : ∀ place task, (acceptedTasks events).count task ≤ 1 → 0 < placement place task →
    (forwardedTasks events).count task ≤ place.level
  fresh : ∀ task, (acceptedTasks events).count task = 0 → (forwardedTasks events).count task = 0

theorem count_toList (ptr : Option α) (task : α) :
    ptr.toList.count task = if ptr = some task then 1 else 0 := by
  cases ptr <;> simp [List.count_singleton]

theorem Place.level_le (place : Place N) : place.level ≤ N - 1 := by
  cases place <;> simp only [level] <;> omega

theorem Place.level_mono {before after : Place N} (climbs : before.rank ≤ after.rank) :
    before.level ≤ after.level := by
  cases before <;> cases after <;> simp only [rank, level] at * <;> omega

variable {before after : Pipeline α N} {event : Event α N} {events : List (Event α N)}

theorem acceptedTasks_count_snoc (events : List (Event α N)) (event : Event α N) (task : α) :
    (acceptedTasks (events ++ [event])).count task =
      (acceptedTasks events).count task + if event.entered = some task then 1 else 0 := by
  rw [acceptedTasks_snoc, List.count_append, count_toList]

theorem forwardedTasks_count_snoc (events : List (Event α N)) (event : Event α N) (task : α) :
    (forwardedTasks (events ++ [event])).count task =
      (forwardedTasks events).count task + if event.handedOn = some task then 1 else 0 := by
  rw [forwardedTasks_snoc, List.count_append, count_toList]

theorem not_entered_twice {task : α} (once : (acceptedTasks (events ++ [event])).count task ≤ 1)
    (inside : 0 < (acceptedTasks events).count task) : event.entered ≠ some task := by
  intro enters
  rw [acceptedTasks_count_snoc, if_pos enters] at once
  omega

theorem Flow.step [NeZero N] (flow : Flow events (before.placement (processedTasks events)))
    (step : before.Step event after) :
    Flow (events ++ [event]) (after.placement (processedTasks (events ++ [event]))) := by
  have moves := step.moves events
  have total : ∀ task, (after.placement (processedTasks (events ++ [event]))).total task =
      (acceptedTasks (events ++ [event])).count task := by
    intro task
    rw [moves.total_eq, flow.total, acceptedTasks_count_snoc]
  refine ⟨total, fun place task once held => ?_, fun task absent => ?_⟩
  · have earlier : (acceptedTasks events).count task ≤ 1 := by
      rw [acceptedTasks_count_snoc] at once
      exact (Nat.le_add_right _ _).trans once
    rw [forwardedTasks_count_snoc]
    by_cases handed : event.handedOn = some task
    · obtain ⟨id, next, follows, hand, arrived⟩ := step.handedOn_cases handed
      have level := flow.level (.hand id) task earlier (by simp [Pipeline.placement, hand])
      have here : 0 < after.placement (processedTasks (events ++ [event])) (.queue next) task :=
        List.count_pos_iff.mpr arrived
      rw [Placement.place_unique ((total task).trans_le once) held here, if_pos handed]
      simp only [Place.level] at level ⊢
      omega
    · rw [if_neg handed, Nat.add_zero]
      rcases Nat.eq_zero_or_pos ((acceptedTasks events).count task) with absent | present
      · rw [flow.fresh task absent]
        exact Nat.zero_le _
      · have notNew := not_entered_twice once present
        rw [← flow.total task] at present
        obtain ⟨source, holds⟩ := Placement.exists_place present
        exact (flow.level source task earlier holds).trans
          (Place.level_mono (moves.rank_le ((flow.total task).trans_le earlier) notNew holds held))
  · rw [acceptedTasks_count_snoc] at absent
    have before_absent : (acceptedTasks events).count task = 0 := by omega
    rw [forwardedTasks_count_snoc, flow.fresh task before_absent]
    split
    case isTrue handed =>
        obtain ⟨id, _, _, hand, _⟩ := step.handedOn_cases handed
        have holds : 0 < before.placement (processedTasks events) (.hand id) task := by
          simp [Pipeline.placement, hand]
        have present := Placement.total_pos holds
        rw [flow.total, before_absent] at present
        cases present
    case isFalse => rfl

variable [NeZero N] {state : State α N}

theorem start_flow (small : Q + 1 ≤ 2 ^ 30) :
    Flow [] ((machine α N Q).start.placement []) := by
  have contents : (machine α N Q).start.pipeline.contents = fun _ => [] :=
    funext fun _ => (initialQueue_represents small).contents_eq
  have hands : (machine α N Q).start.pipeline.hands = fun _ => none := rfl
  have nowhere : ∀ place task, (machine α N Q).start.placement [] place task = 0 := by
    intro place task
    cases place <;> simp [State.placement, Pipeline.placement, contents, hands, processedTasks]
  refine ⟨fun task => ?_, fun place task _ held => ?_, fun _ _ => rfl⟩
  · simp [Placement.total, nowhere, acceptedTasks]
  · rw [nowhere] at held
    cases held

theorem run_flow (small : Q + 1 ≤ 2 ^ 30) (run : (machine α N Q).Run events state) :
    Flow events (state.placement events) := by
  refine (run.invariant (fun events state => Invariant Q state ∧
    Flow events (state.placement events)) ⟨start_invariant small, start_flow small⟩ ?_).2
  rintro events state after label event ⟨good, flow⟩ taken
  obtain ⟨kept, step⟩ := pool_step small good taken
  exact ⟨kept, flow.step step⟩

/-- A task that is accepted once only climbs along every continuation of a run. -/
theorem path_rank_le {before later : List (Event α N)} {first : State α N}
    (small : Q + 1 ≤ 2 ^ 30) (run : (machine α N Q).Run before first)
    (path : (machine α N Q).Path first later state) {task : α}
    (once : (acceptedTasks (before ++ later)).count task ≤ 1) {place place' : Place N}
    (held : 0 < first.placement before place task)
    (heldLater : 0 < state.placement (before ++ later) place' task) :
    place.rank ≤ place'.rank := by
  induction path generalizing place' with
  | refl =>
      rw [List.append_nil] at once heldLater
      have total := (run_flow small run).total task
      exact (congrArg Place.rank
        (Placement.place_unique (total.trans_le once) held heldLater)).le
  | @snoc middle after later label event path taken ih =>
      rw [← List.append_assoc] at once heldLater
      have earlier : (acceptedTasks (before ++ later)).count task ≤ 1 := by
        rw [acceptedTasks_count_snoc] at once
        exact (Nat.le_add_right _ _).trans once
      have there := run.trans path
      have flow := run_flow small there
      obtain ⟨_, step⟩ := pool_step small (run_invariant small there) taken
      have accepted : 0 < (acceptedTasks (before ++ later)).count task := by
        have inside := Placement.total_pos held
        rw [(run_flow small run).total task] at inside
        rw [acceptedTasks, List.filterMap_append, List.count_append]
        exact inside.trans_le (Nat.le_add_right _ _)
      obtain ⟨between, holds⟩ := Placement.exists_place (accepted.trans_eq (flow.total task).symm)
      have climbs := (step.moves (before ++ later)).rank_le ((flow.total task).trans_le earlier)
        (not_entered_twice once accepted) holds heldLater
      exact (ih earlier holds).trans climbs

/-- In every reachable state an accepted task lies on exactly one place, exactly
once, and a refused task on none. It climbs from place to place, is forwarded
at most `N - 1` times and processed at most once. -/
theorem tasks_conserved (small : Q + 1 ≤ 2 ^ 30) (run : (machine α N Q).Run events state)
    (distinct : (submittedTasks events).Nodup) :
    (∀ task ∈ acceptedTasks events, ∃ place, state.placement events place task = 1 ∧
      ∀ other, other ≠ place → state.placement events other task = 0) ∧
    (∀ task ∈ refusedTasks events, ∀ place, state.placement events place task = 0) ∧
    (∀ before later first, events = before ++ later → (machine α N Q).Run before first →
      (machine α N Q).Path first later state → ∀ task place place',
        0 < first.placement before place task → 0 < state.placement events place' task →
          place.rank ≤ place'.rank) ∧
    (∀ task, (forwardedTasks events).count task ≤ N - 1) ∧
    ∀ task, (processedTasks events).count task ≤ 1 := by
  have flow := run_flow small run
  have once := acceptedTasks_once distinct
  refine ⟨fun task accepted => ?_, fun task refused place => ?_, ?_, fun task => ?_, fun task => ?_⟩
  · have present : 0 < (state.placement events).total task :=
      (List.count_pos_iff.mpr accepted).trans_eq (flow.total task).symm
    exact Placement.exists_unique_place
      (le_antisymm ((flow.total task).trans_le (once task)) present)
  · have counts := List.nodup_iff_count_le_one.mp distinct task
    have present := List.count_pos_iff.mpr refused
    rw [submittedTasks_count] at counts
    have absent : (acceptedTasks events).count task = 0 := by omega
    exact Placement.absent ((flow.total task).trans absent) place
  · rintro before later first rfl earlier path task place place' held heldLater
    exact path_rank_le small earlier path (once task) held heldLater
  · rcases Nat.eq_zero_or_pos ((acceptedTasks events).count task) with absent | present
    · rw [flow.fresh task absent]
      exact Nat.zero_le _
    · rw [← flow.total task] at present
      obtain ⟨place, held⟩ := Placement.exists_place present
      exact (flow.level place task (once task) held).trans place.level_le
  · exact (Placement.le_total .processed task).trans ((flow.total task).trans_le (once task))

/-- Task 7 goes from queue 0 through both workers. -/
def handOver : List (Label Nat 2) :=
  [.client (some 7), .worker 0, .worker 0, .worker 0, .worker 0,
    .worker 1, .worker 1, .worker 1]

theorem tasks_conserved_handOver :
    ∃ events state, (machine Nat 2 2).Run events state ∧ acceptedTasks events = [7] ∧
      processedTasks events = [7] ∧ (forwardedTasks events).count 7 ≤ 2 - 1 := by
  have run := Machine.exec_run (machine Nat 2 2) handOver rfl
  exact ⟨_, _, run, rfl, rfl, (tasks_conserved (by decide) run (by decide)).2.2.2.1 7⟩

end Places

end DmLockFree.CDMQueueThreadPool
