import DmLockFree.ThreadPool.Tasks

/-! What `~CDMQueueThreadPool` leaves behind. Joining waits for the workers, so
no task is in a hand when it returns; it does not wait for the queues, so a task
can stay in one. -/

set_option autoImplicit false

namespace DmLockFree.CDMQueueThreadPool

open Library

variable {α : Type} {N Q : Nat}

/-- The workers that the destructor has joined have left their loops. -/
def State.Joined (state : State α N) : Prop :=
  match state.destructor with
  | .notEntered => True
  | .joining thread => ∀ id : Fin N, id.val < thread → state.workers id = .exited
  | .returned => ∀ id, state.workers id = .exited

theorem State.Joined.mono {state after : State α N} (joined : state.Joined)
    (thread : after.destructor = state.destructor)
    (kept : ∀ id, state.workers id = .exited → after.workers id = .exited) : after.Joined := by
  simp only [State.Joined, thread] at joined ⊢
  cases point : state.destructor with
  | notEntered => trivial
  | joining thread =>
      simp only [point] at joined ⊢
      exact fun id below => kept id (joined id below)
  | returned =>
      simp only [point] at joined ⊢
      exact fun id => kept id (joined id)

theorem stepWorker_frame {state after : State α N} {id : Fin N} {event : Event α N}
    (taken : stepWorker Q state id = some (after, event)) :
    state.workers id ≠ .exited ∧ after.destructor = state.destructor ∧
      ∀ other, other ≠ id → after.workers other = state.workers other := by
  have frame : ∀ (changed : State α N) (worker : Worker α), changed.workers = state.workers →
      changed.destructor = state.destructor →
      (changed.setWorker id worker).destructor = state.destructor ∧
        ∀ other, other ≠ id → (changed.setWorker id worker).workers other = state.workers other :=
    fun changed worker workers destructor =>
      ⟨destructor, fun other apart => by simp [State.setWorker, apart, workers]⟩
  have alive : state.workers id ≠ .exited := by
    intro exited
    simp only [stepWorker, exited] at taken
    cases taken
  refine ⟨alive, ?_⟩
  cases point : state.workers id with
  | exited => exact absurd point alive
  | readRunning | onProcessTask =>
      simp only [stepWorker, point] at taken
      cases taken
      exact frame state _ rfl rfl
  | popFront =>
      simp only [stepWorker, point] at taken
      split at taken <;> cases taken <;> exact frame (state.setQueue _ _) _ rfl rfl
  | getUsedSize task =>
      simp only [stepWorker, point] at taken
      split at taken
      · split at taken <;> cases taken
        exact frame state _ rfl rfl
      · cases taken
  | pushBack task =>
      simp only [stepWorker, point] at taken
      split at taken
      · split at taken <;> cases taken
        exact frame (state.setQueue _ _) _ rfl rfl
      · cases taken

theorem destructor_joined {state after : State α N} {event : Event α N} (joined : state.Joined)
    (taken : stepDestructor state = some (after, event)) : after.Joined := by
  unfold stepDestructor at taken
  cases point : state.destructor with
  | notEntered =>
      simp only [point] at taken
      cases taken
      exact fun id below => absurd below (Nat.not_lt_zero _)
  | joining thread =>
      simp only [State.Joined, point] at taken joined
      split at taken
      case isTrue alive =>
          by_cases left : state.workers ⟨thread, alive⟩ = .exited
          · simp only [left, if_true] at taken
            cases taken
            intro id below
            rcases Nat.lt_succ_iff_lt_or_eq.mp below with earlier | same
            · exact joined id earlier
            · obtain rfl : id = ⟨thread, alive⟩ := Fin.ext same
              exact left
          · cases worker : state.workers ⟨thread, alive⟩ <;> simp [worker] at taken left
      case isFalse finished =>
          cases taken
          exact fun id => joined id (id.isLt.trans_le (Nat.le_of_not_lt finished))
  | returned =>
      simp only [point] at taken
      cases taken

variable [NeZero N] {events : List (Event α N)} {state : State α N}

theorem run_joined (run : (machine α N Q).Run events state) : state.Joined := by
  refine run.invariant (fun _ state => state.Joined) trivial ?_
  intro events state after label event joined taken
  cases label with
  | client ptr =>
      simp only [machine, stepClient] at taken
      split at taken
      · cases taken
      · split at taken <;> cases taken
        exact joined.mono rfl fun _ left => left
  | destructor => exact destructor_joined joined taken
  | worker id =>
      obtain ⟨alive, thread, others⟩ := stepWorker_frame taken
      refine joined.mono thread fun other left => ?_
      rw [others other (fun same => alive (same ▸ left)), left]

section Places

variable [DecidableEq α]

omit [NeZero N] in
/-- With free hands the copies of a task are spread over the queues and the
calls already made. -/
theorem State.total_of_free (free : ∀ id, state.workers id = .exited) (task : α) :
    (state.placement events).total task = (processedTasks events).count task +
      ∑ id, (state.queues id).contents.count (some task) := by
  have hands : ∀ id, state.placement events (.hand id) task = 0 := fun id => by
    simp [State.placement, Pipeline.placement, State.pipeline, free, Worker.hand]
  rw [Placement.total, Place.sum_eq, Finset.sum_eq_zero fun id _ => hands id]
  simp only [State.placement, Pipeline.placement, State.pipeline]
  omega

/-- When the destructor returns every worker has left its loop, and a task
accepted before or during the destructor was either passed to `OnProcessTask`
exactly once or still lies in exactly one queue, exactly once. -/
theorem shutdown_tasks (small : Q + 1 ≤ 2 ^ 30) (run : (machine α N Q).Run events state)
    (returned : state.destructor = .returned) :
    (∀ id, state.workers id = .exited) ∧
    (∀ task, (acceptedTasks events).count task = (processedTasks events).count task +
      ∑ id, (state.queues id).contents.count (some task)) ∧
    ∀ task, (acceptedTasks events).count task = 1 →
      ((processedTasks events).count task = 1 ∧ ∀ id, some task ∉ (state.queues id).contents) ∨
      ((processedTasks events).count task = 0 ∧ ∃ id,
        (state.queues id).contents.count (some task) = 1 ∧
          ∀ other, other ≠ id → some task ∉ (state.queues other).contents) := by
  have free : ∀ id, state.workers id = .exited := by
    have joined := run_joined run
    rwa [State.Joined, returned] at joined
  have flow := run_flow small run
  refine ⟨free, fun task => ?_, fun task once => ?_⟩
  · rw [← flow.total, State.total_of_free free]
  · obtain ⟨place, here, elsewhere⟩ := Placement.exists_unique_place ((flow.total task).trans once)
    have notIn : ∀ id, Place.queue id ≠ place → some task ∉ (state.queues id).contents :=
      fun id apart => List.count_eq_zero.mp (elsewhere (.queue id) apart)
    cases place with
    | processed => exact .inl ⟨here, fun id => notIn id nofun⟩
    | queue id =>
        exact .inr ⟨elsewhere .processed nofun, id, here, fun other apart =>
          notIn other fun same => apart (by cases same; rfl)⟩
    | hand id =>
        simp [State.placement, Pipeline.placement, State.pipeline, free, Worker.hand] at here

/-- The client pushes a task; the destructor stops the only worker before it looks
at the queue. -/
def stranding : List (Label Nat 1) × List (Label Nat 1) :=
  ([.client (some 7)], [.destructor, .worker 0, .destructor, .destructor])

theorem shutdown_strands_task :
    ∃ before later first state, (machine Nat 1 1).Run before first ∧
      first.destructor = .notEntered ∧ (machine Nat 1 1).Path first later state ∧
      state.destructor = .returned ∧ acceptedTasks before = [7] ∧
      processedTasks (before ++ later) = [] ∧ (state.queues 0).contents = [some 7] := by
  let first : State Nat 1 :=
    (machine Nat 1 1).start.setQueue 0 ⟨some [some 7, none], 0, 1, 2⟩
  have run := Machine.exec_path
    (show (machine Nat 1 1).exec (machine Nat 1 1).start stranding.1 = some (_, first) from rfl)
  have rest := Machine.exec_path
    (show (machine Nat 1 1).exec first stranding.2 = some (_, _) from rfl)
  exact ⟨_, _, _, _, run, rfl, rest, rfl, rfl, rfl, by decide⟩

theorem shutdown_tasks_stranded :
    ∃ events state, (machine Nat 1 1).Run events state ∧ state.destructor = .returned ∧
      (((processedTasks events).count 7 = 1 ∧ ∀ id, some 7 ∉ (state.queues id).contents) ∨
      ((processedTasks events).count 7 = 0 ∧ ∃ id,
        (state.queues id).contents.count (some 7) = 1 ∧
          ∀ other, other ≠ id → some 7 ∉ (state.queues other).contents)) := by
  have run := Machine.exec_run (machine Nat 1 1) (stranding.1 ++ stranding.2) rfl
  exact ⟨_, _, run, rfl, (shutdown_tasks (by decide) run rfl).2.2 7 rfl⟩

end Places

end DmLockFree.CDMQueueThreadPool
