import DmLockFree.ThreadPool.Pipeline

/-! How full the queues behind the first one get. Only the worker in front of a
queue pushes on it, and it measures the queue first, so the queue holds at most
one task more than the measure allows. -/

set_option autoImplicit false

namespace DmLockFree.CDMQueueThreadPool

open Library CDMQueue

variable {α : Type} {N Q : Nat}

/-- The queues that workers push on. -/
def Pipeline.Bounded (bound : Nat) (pipeline : Pipeline α N) : Prop :=
  ∀ id : Fin N, 1 ≤ id.val → (pipeline.contents id).length ≤ bound

/-- A worker forwards a task only from its call of `PushBack`. -/
theorem forwarded_point [NeZero N] {state after : State α N} {label : Label α N} {id : Fin N}
    {task : α} {accepted : Bool}
    (taken : (machine α N Q).step state label = some (after, .forwarded id task accepted)) :
    state.workers id = .pushBack task := by
  cases label with
  | client ptr =>
      simp only [machine, stepClient] at taken
      split at taken
      case isTrue => cases taken
      case isFalse => split at taken <;> cases taken
  | destructor =>
      simp only [machine, stepDestructor] at taken
      split at taken
      · cases taken
      · split at taken
        · split at taken <;> cases taken
        · cases taken
      · cases taken
  | worker other =>
      simp only [machine, stepWorker] at taken
      split at taken
      case h_1 => cases taken
      case h_2 => split at taken <;> cases taken
      case h_3 =>
          split at taken
          · split at taken <;> cases taken
          · cases taken
      case h_4 point =>
          split at taken
          · split at taken <;> cases taken
            exact point
          · cases taken
      case h_5 => cases taken
      case h_6 => cases taken

theorem Pipeline.Step.bounded [NeZero N] {before after : Pipeline α N} {event : Event α N}
    {bound : Nat} (step : before.Step event after) (bounded : before.Bounded (bound + 1))
    (measured : ∀ (id next : Fin N) (task : α), event = .forwarded id task true →
      next.val = id.val + 1 → (before.contents next).length ≤ bound) :
    after.Bounded (bound + 1) := by
  intro other downstream
  cases step with
  | silent | joined | refused | processed => exact bounded other downstream
  | accepted ptr =>
      have apart : other ≠ 0 := by
        intro same
        rw [same, Fin.val_zero] at downstream
        cases downstream
      simp only [Function.update_of_ne apart]
      exact bounded other downstream
  | popped id ptr rest front free =>
      have shorter : rest.length ≤ (before.contents id).length := by
        rw [front]
        exact Nat.le_succ _
      exact (update_shorter shorter other).trans (bounded other downstream)
  | forwarded id next task follows held =>
      by_cases same : other = next
      · subst same
        have room := measured id other task rfl follows
        simp only [Function.update_self, List.length_append, List.length_singleton]
        exact Nat.succ_le_succ room
      · simp only [Function.update_of_ne same]
        exact bounded other downstream

theorem Pipeline.Step.forwarded_accepted [NeZero N] {before after : Pipeline α N} {id : Fin N}
    {task : α} {accepted : Bool} (step : before.Step (.forwarded id task accepted) after) :
    accepted = true := by
  cases step
  rfl

section Runs

variable [NeZero N] {state after : State α N} {events : List (Event α N)} {event : Event α N}
  {label : Label α N}

theorem step_bounded (small : Q + 1 ≤ 2 ^ 30) (good : Invariant Q state)
    (bounded : state.pipeline.Bounded (Q / N + 1))
    (taken : (machine α N Q).step state label = some (after, event)) :
    after.pipeline.Bounded (Q / N + 1) := by
  obtain ⟨_, step⟩ := pool_step small good taken
  apply step.bounded bounded
  intro id next task same follows
  subst same
  have facts := good.workers id
  rw [forwarded_point taken] at facts
  obtain ⟨_, inside, measured⟩ := facts
  have front : next = ⟨id.val + 1, inside⟩ := Fin.ext follows
  rw [front]
  exact measured

theorem run_bounded (small : Q + 1 ≤ 2 ^ 30) (run : (machine α N Q).Run events state) :
    state.pipeline.Bounded (Q / N + 1) := by
  induction run with
  | refl =>
      intro id _
      have nothing : (machine α N Q).start.pipeline.contents id = [] :=
        (initialQueue_represents small).contents_eq
      rw [nothing]
      exact Nat.zero_le _
  | snoc path taken ih => exact step_bounded small (run_invariant small path) ih taken

theorem run_forwarded (small : Q + 1 ≤ 2 ^ 30) (run : (machine α N Q).Run events state)
    {id : Fin N} {task : α} {accepted : Bool} (member : .forwarded id task accepted ∈ events) :
    accepted = true := by
  induction run with
  | refl => cases member
  | snoc path taken ih =>
      rcases List.mem_append.mp member with old | new
      · exact ih old
      · rcases List.mem_singleton.mp new with rfl
        obtain ⟨_, step⟩ := pool_step small (run_invariant small path) taken
        exact step.forwarded_accepted

end Runs

theorem share_lt (workers : 2 ≤ N) (positive : 1 ≤ Q) : Q / N + 1 ≤ Q :=
  Nat.div_lt_self positive workers

/-- In every run of the pool each queue behind the first one holds at most
`Q / N + 1` tasks, and every task that a worker forwards is accepted. -/
theorem downstream_bounded {α : Type} {N Q : Nat} [NeZero N] {state : State α N}
    {events : List (Event α N)} (workers : 2 ≤ N) (positive : 1 ≤ Q) (small : Q + 1 ≤ 2 ^ 30)
    (run : (machine α N Q).Run events state) :
    (∀ id : Fin N, 1 ≤ id.val → (state.queues id).contents.length ≤ Q / N + 1) ∧
      Q / N + 1 ≤ Q ∧
      (∀ id task, state.workers id = .pushBack task →
        ∃ (next : id.val + 1 < N) (queue : CDMQueue α),
          (state.queues ⟨id.val + 1, next⟩).pushBack (some task) = .ok (queue, true)) ∧
      ∀ id task accepted, .forwarded id task accepted ∈ events → accepted = true := by
  have good := run_invariant small run
  constructor
  · exact run_bounded small run
  · constructor
    · exact share_lt workers positive
    · constructor
      · intro id task point
        obtain ⟨next, queue, pushed, _⟩ := good.pushBack small point
        exact ⟨next, queue, pushed⟩
      · intro id task accepted member
        exact run_forwarded small run member

/-- Worker 0 of two puts two tasks on a queue that balances from `3 / 2` on. -/
def filling : List (Label Nat 2) :=
  List.flatten [[.client (some 7), .client (some 8)], handOn, handOn]
where
  handOn : List (Label Nat 2) := [.worker 0, .worker 0, .worker 0, .worker 0]

theorem downstream_bounded_filling :
    ∃ events state, (machine Nat 2 3).Run events state ∧
      (state.queues 1).contents = [some 7, some 8] ∧ (state.queues 1).contents.length ≤ 2 ∧
      .forwarded 0 8 true ∈ events := by
  have run := Machine.exec_run (machine Nat 2 3) filling rfl
  have bounded := downstream_bounded (by decide) (by decide) (by decide) run
  exact ⟨_, _, run, rfl, bounded.1 1 (by decide), by decide⟩

end DmLockFree.CDMQueueThreadPool
