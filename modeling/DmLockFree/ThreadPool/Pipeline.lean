import DmLockFree.ThreadPool.Basic
import DmLockFree.CDMQueue.Sequential

/-! The pool as a pipeline of lists and hands. The abstract steps append to the
first queue, pop into a hand, forward a hand to the next queue or hand a task to
`OnProcessTask`; every step of the pool is one of them, and a forwarded task
always finds room. -/

set_option autoImplicit false

namespace DmLockFree.CDMQueueThreadPool

open Library CDMQueue

variable {α : Type} {N Q : Nat}

def Worker.hand : Worker α → Option α
  | .getUsedSize task | .pushBack task | .onProcessTask task => some task
  | _ => none

structure Pipeline (α : Type) (N : Nat) where
  contents : Fin N → List (Option α)
  hands : Fin N → Option α

def State.pipeline (state : State α N) : Pipeline α N where
  contents id := (state.queues id).contents
  hands id := (state.workers id).hand

/-- What a step of the pool does to the tasks. -/
inductive Pipeline.Step [NeZero N] (before : Pipeline α N) : Event α N → Pipeline α N → Prop where
  | silent : Step before .silent before
  | joined : Step before .joined before
  | refused (ptr : Option α) : Step before (.pushTask ptr false) before
  | accepted (ptr : Option α) :
      Step before (.pushTask ptr true)
        { before with contents := Function.update before.contents 0 (before.contents 0 ++ [ptr]) }
  | popped (id : Fin N) (ptr : Option α) (rest : List (Option α))
      (front : before.contents id = ptr :: rest) (free : before.hands id = none) :
      Step before .silent
        { contents := Function.update before.contents id rest
          hands := Function.update before.hands id ptr }
  | forwarded (id next : Fin N) (task : α) (follows : next.val = id.val + 1)
      (held : before.hands id = some task) :
      Step before (.forwarded id task true)
        { contents := Function.update before.contents next (before.contents next ++ [some task])
          hands := Function.update before.hands id none }
  | processed (id : Fin N) (task : α) (held : before.hands id = some task) :
      Step before (.onProcessTask id task)
        { before with hands := Function.update before.hands id none }

@[simp] theorem pipeline_setQueue (state : State α N) (id : Fin N) (queue : CDMQueue α) :
    (state.setQueue id queue).pipeline =
      { state.pipeline with
        contents := Function.update state.pipeline.contents id queue.contents } := by
  simp only [State.pipeline, State.setQueue, Pipeline.mk.injEq, and_true]
  exact Function.comp_update CDMQueue.contents state.queues id queue

@[simp] theorem pipeline_setWorker (state : State α N) (id : Fin N) (worker : Worker α) :
    (state.setWorker id worker).pipeline =
      { state.pipeline with hands := Function.update state.pipeline.hands id worker.hand } := by
  simp only [State.pipeline, State.setWorker, Pipeline.mk.injEq, true_and]
  exact Function.comp_update Worker.hand state.workers id worker

/-- What a worker's program point promises. A task in a hand came through a
queue, so `Q` is positive; the measured queue has one pusher, this worker, so
it can only have become shorter since. -/
def WorkerFacts (Q : Nat) (contents : Fin N → List (Option α)) (id : Fin N) : Worker α → Prop
  | .getUsedSize _ => 0 < Q ∧ id.val + 1 < N
  | .pushBack _ => 0 < Q ∧ ∃ next : id.val + 1 < N, (contents ⟨id.val + 1, next⟩).length ≤ Q / N
  | _ => True

structure Invariant (Q : Nat) (state : State α N) : Prop where
  queues : ∀ id, Represents Q (state.queues id) (state.queues id).contents
  workers : ∀ id, WorkerFacts Q state.pipeline.contents id (state.workers id)

theorem WorkerFacts.mono {contents later : Fin N → List (Option α)} {id : Fin N}
    {worker : Worker α} (facts : WorkerFacts Q contents id worker)
    (shorter : ∀ next : id.val + 1 < N,
      (later ⟨id.val + 1, next⟩).length ≤ (contents ⟨id.val + 1, next⟩).length) :
    WorkerFacts Q later id worker := by
  cases worker with
  | pushBack task =>
      obtain ⟨positive, next, bound⟩ := facts
      exact ⟨positive, next, (shorter next).trans bound⟩
  | _ => exact facts

theorem Invariant.setQueue {state : State α N} {id : Fin N} {queue : CDMQueue α}
    {elements : List (Option α)} (good : Invariant Q state)
    (represents : Represents Q queue elements)
    (others : ∀ other : Fin N, WorkerFacts Q
      (Function.update state.pipeline.contents id elements) other (state.workers other)) :
    Invariant Q (state.setQueue id queue) := by
  constructor
  · intro other
    by_cases same : other = id
    · subst same
      simpa [State.setQueue] using represents.self
    · simpa [State.setQueue, same] using good.queues other
  · intro other
    rw [pipeline_setQueue, represents.contents_eq]
    exact others other

theorem Invariant.setWorker {state : State α N} {id : Fin N} {worker : Worker α}
    (good : Invariant Q state)
    (facts : WorkerFacts Q state.pipeline.contents id worker) :
    Invariant Q (state.setWorker id worker) := by
  refine ⟨good.queues, fun other => ?_⟩
  change WorkerFacts Q state.pipeline.contents other (Function.update state.workers id worker other)
  by_cases same : other = id
  · subst same
    rwa [Function.update_self]
  · rw [Function.update_of_ne same]
    exact good.workers other

theorem update_shorter {contents : Fin N → List (Option α)} {id : Fin N}
    {elements : List (Option α)} (shorter : elements.length ≤ (contents id).length)
    (other : Fin N) :
    (Function.update contents id elements other).length ≤ (contents other).length := by
  by_cases same : other = id
  · subst same
    simpa using shorter
  · simp [same]

theorem pipeline_setWorker_hand {state : State α N} {id : Fin N} {worker : Worker α}
    (same : worker.hand = (state.workers id).hand) :
    (state.setWorker id worker).pipeline = state.pipeline := by
  rw [pipeline_setWorker, same]
  exact congrArg (fun hands => { state.pipeline with hands }) (Function.update_eq_self id _)

theorem processTask_hand (id : Fin N) (task : α) : (processTask id task).hand = some task := by
  unfold processTask
  split <;> rfl

theorem shouldBalanceLoad_iff {length : Nat} (small : length < 2 ^ 64) :
    shouldBalanceLoad N Q length = true ↔ Q / N < length := by
  rw [shouldBalanceLoad, decide_eq_true_eq]
  omega

/-- The measured queue still has room, so `PushBack` returns true. -/
theorem Invariant.pushBack (small : Q + 1 ≤ 2 ^ 30) {state : State α N}
    (good : Invariant Q state) {id : Fin N} {task : α} (point : state.workers id = .pushBack task) :
    ∃ (next : id.val + 1 < N) (queue : CDMQueue α),
      (state.queues ⟨id.val + 1, next⟩).pushBack (some task) = .ok (queue, true) ∧
        Represents Q queue ((state.queues ⟨id.val + 1, next⟩).contents ++ [some task]) := by
  have facts := good.workers id
  rw [point] at facts
  obtain ⟨positive, next, bound⟩ := facts
  have represents := good.queues ⟨id.val + 1, next⟩
  have room : (state.queues ⟨id.val + 1, next⟩).contents.length < Q :=
    lt_of_le_of_lt bound (Nat.div_lt_self positive (by omega))
  exact ⟨next, represents.pushBack_room (represents.sum_lt small) room (some task)⟩

section Steps

variable [NeZero N] {state after : State α N} {event : Event α N}

theorem client_step (small : Q + 1 ≤ 2 ^ 30) (good : Invariant Q state) {ptr : Option α}
    (taken : stepClient state ptr = some (after, event)) :
    Invariant Q after ∧ state.pipeline.Step event after.pipeline := by
  have represents := good.queues 0
  unfold stepClient at taken
  split at taken
  case isTrue => cases taken
  case isFalse =>
      by_cases room : (state.queues 0).contents.length < Q
      · obtain ⟨queue, pushed, stored⟩ :=
          represents.pushBack_room (represents.sum_lt small) room ptr
        simp only [pushed] at taken
        cases taken
        refine ⟨good.setQueue stored fun other => ?_, ?_⟩
        · refine (good.workers other).mono fun next => ?_
          have apart : (⟨other.val + 1, next⟩ : Fin N) ≠ 0 := by
            intro same
            have := congrArg Fin.val same
            simp at this
          rw [Function.update_of_ne apart]
        · rw [pipeline_setQueue, stored.contents_eq]
          exact .accepted ptr
      · have full : (state.queues 0).contents.length = Q :=
          le_antisymm represents.fits (Nat.le_of_not_lt room)
        simp only [represents.pushBack_full (represents.sum_lt small) full] at taken
        cases taken
        have same : state.setQueue 0 (state.queues 0) = state := by
          simp [State.setQueue]
        rw [same]
        exact ⟨good, .refused ptr⟩

theorem destructor_step (good : Invariant Q state)
    (taken : stepDestructor state = some (after, event)) :
    Invariant Q after ∧ state.pipeline.Step event after.pipeline := by
  unfold stepDestructor at taken
  cases point : state.destructor with
  | notEntered =>
      simp only [point] at taken
      cases taken
      exact ⟨⟨good.queues, good.workers⟩, .silent⟩
  | joining thread =>
      simp only [point] at taken
      split at taken
      · split at taken
        · cases taken
          exact ⟨⟨good.queues, good.workers⟩, .silent⟩
        · cases taken
      · cases taken
        exact ⟨⟨good.queues, good.workers⟩, .joined⟩
  | returned =>
      simp only [point] at taken
      cases taken

theorem readRunning_step (good : Invariant Q state) {id : Fin N}
    (point : state.workers id = .readRunning)
    (taken : stepWorker Q state id = some (after, event)) :
    Invariant Q after ∧ state.pipeline.Step event after.pipeline := by
  simp only [stepWorker, point] at taken
  cases taken
  constructor
  · refine good.setWorker ?_
    split <;> trivial
  · rw [pipeline_setWorker_hand (by rw [point]; split <;> rfl)]
    exact .silent

theorem popFront_step (small : Q + 1 ≤ 2 ^ 30) (good : Invariant Q state) {id : Fin N}
    (point : state.workers id = .popFront)
    (taken : stepWorker Q state id = some (after, event)) :
    Invariant Q after ∧ state.pipeline.Step event after.pipeline := by
  have represents := good.queues id
  have free : state.pipeline.hands id = none := by simp [State.pipeline, point, Worker.hand]
  simp only [stepWorker, point] at taken
  cases front : (state.queues id).contents with
  | nil =>
      rw [front] at represents
      simp only [represents.popFront_empty (represents.sum_lt small)] at taken
      cases taken
      have same : state.setQueue id (state.queues id) = state := by simp [State.setQueue]
      rw [same, pipeline_setWorker_hand (by rw [point]; rfl)]
      exact ⟨good.setWorker trivial, .silent⟩
  | cons ptr rest =>
      rw [front] at represents
      obtain ⟨queue, popped, stored⟩ := represents.popFront_cons (represents.sum_lt small)
      have positive : 0 < Q := lt_of_lt_of_le (by simp) represents.fits
      have shortened : Invariant Q (state.setQueue id queue) :=
        good.setQueue stored fun other => (good.workers other).mono fun next =>
          update_shorter (by rw [show state.pipeline.contents id = ptr :: rest from front]; simp) _
      have pops := Pipeline.Step.popped id ptr rest front free
      simp only [popped] at taken
      cases ptr with
      | none =>
          cases taken
          refine ⟨shortened.setWorker trivial, ?_⟩
          rw [pipeline_setWorker, pipeline_setQueue, stored.contents_eq]
          exact pops
      | some task =>
          cases taken
          refine ⟨shortened.setWorker ?_, ?_⟩
          · unfold processTask
            split
            case isTrue before => exact ⟨positive, by omega⟩
            case isFalse => trivial
          · rw [pipeline_setWorker, pipeline_setQueue, stored.contents_eq, processTask_hand]
            exact pops

theorem getUsedSize_step (small : Q + 1 ≤ 2 ^ 30) (good : Invariant Q state) {id : Fin N}
    {task : α} (point : state.workers id = .getUsedSize task)
    (taken : stepWorker Q state id = some (after, event)) :
    Invariant Q after ∧ state.pipeline.Step event after.pipeline := by
  have facts := good.workers id
  rw [point] at facts
  obtain ⟨positive, next⟩ := facts
  have represents := good.queues ⟨id.val + 1, next⟩
  have fits := represents.fits
  simp only [stepWorker, point] at taken
  rw [dif_pos next] at taken
  simp only [represents.getUsedSize_eq (represents.sum_lt small)] at taken
  cases taken
  constructor
  · refine good.setWorker ?_
    split
    case isTrue => trivial
    case isFalse light =>
        refine ⟨positive, next, ?_⟩
        rw [shouldBalanceLoad_iff (by omega)] at light
        exact Nat.le_of_not_lt light
  · rw [pipeline_setWorker_hand (by rw [point]; split <;> rfl)]
    exact .silent

theorem pushBack_step (small : Q + 1 ≤ 2 ^ 30) (good : Invariant Q state) {id : Fin N}
    {task : α} (point : state.workers id = .pushBack task)
    (taken : stepWorker Q state id = some (after, event)) :
    Invariant Q after ∧ state.pipeline.Step event after.pipeline := by
  have held : state.pipeline.hands id = some task := by
    simp [State.pipeline, point, Worker.hand]
  obtain ⟨next, queue, pushed, stored⟩ := good.pushBack small point
  simp only [stepWorker, point] at taken
  rw [dif_pos next] at taken
  simp only [pushed] at taken
  cases taken
  constructor
  · change Invariant Q ((state.setWorker id .readRunning).setQueue ⟨id.val + 1, next⟩ queue)
    have released : Invariant Q (state.setWorker id .readRunning) := good.setWorker trivial
    refine released.setQueue stored fun other => ?_
    by_cases same : other = id
    · subst same
      rw [show (state.setWorker other .readRunning).workers other = .readRunning by
        simp [State.setWorker]]
      trivial
    · refine (released.workers other).mono fun following => ?_
      have apart : (⟨other.val + 1, following⟩ : Fin N) ≠ ⟨id.val + 1, next⟩ := by
        intro equal
        exact same (Fin.ext (by simpa using congrArg Fin.val equal))
      rw [Function.update_of_ne apart]
  · rw [pipeline_setWorker, pipeline_setQueue, stored.contents_eq]
    exact .forwarded id ⟨id.val + 1, next⟩ task rfl held

theorem onProcessTask_step (good : Invariant Q state) {id : Fin N} {task : α}
    (point : state.workers id = .onProcessTask task)
    (taken : stepWorker Q state id = some (after, event)) :
    Invariant Q after ∧ state.pipeline.Step event after.pipeline := by
  have held : state.pipeline.hands id = some task := by
    simp [State.pipeline, point, Worker.hand]
  simp only [stepWorker, point] at taken
  cases taken
  refine ⟨good.setWorker trivial, ?_⟩
  rw [pipeline_setWorker]
  exact .processed id task held

/-- Refinement: every step of the pool keeps the invariant and is a step of the
pipeline. -/
theorem pool_step (small : Q + 1 ≤ 2 ^ 30) (good : Invariant Q state) {label : Label α N}
    (taken : (machine α N Q).step state label = some (after, event)) :
    Invariant Q after ∧ state.pipeline.Step event after.pipeline := by
  cases label with
  | client ptr => exact client_step small good taken
  | destructor => exact destructor_step good taken
  | worker id =>
      cases point : state.workers id with
      | readRunning => exact readRunning_step good point taken
      | popFront => exact popFront_step small good point taken
      | getUsedSize task => exact getUsedSize_step small good point taken
      | pushBack task => exact pushBack_step small good point taken
      | onProcessTask task => exact onProcessTask_step good point taken
      | exited => simp [machine, stepWorker, point] at taken

end Steps

theorem initialQueue_represents (small : Q + 1 ≤ 2 ^ 30) :
    Represents Q (initialQueue Q : CDMQueue α) [] := by
  obtain ⟨queue, result, represents⟩ := empty_init α small
  rwa [initialQueue, result]

theorem start_invariant [NeZero N] (small : Q + 1 ≤ 2 ^ 30) :
    Invariant Q (machine α N Q).start where
  queues _ := by
    change Represents Q (initialQueue Q) (initialQueue Q).contents
    exact (initialQueue_represents small).self
  workers _ := trivial

theorem run_invariant [NeZero N] {state : State α N} {events : List (Event α N)}
    (small : Q + 1 ≤ 2 ^ 30) (run : (machine α N Q).Run events state) : Invariant Q state :=
  run.invariant (fun _ state => Invariant Q state) (start_invariant small)
    fun good taken => (pool_step small good taken).1

/-- No call on a queue faults: a worker can always go on until it has left its loop. -/
theorem workers_never_stuck [NeZero N] {state : State α N} {events : List (Event α N)}
    (small : Q + 1 ≤ 2 ^ 30) (run : (machine α N Q).Run events state) {id : Fin N}
    (alive : state.workers id ≠ .exited) : (stepWorker Q state id).isSome := by
  have good := run_invariant small run
  have facts := good.workers id
  cases point : state.workers id with
  | readRunning | onProcessTask => simp [stepWorker, point]
  | popFront =>
      have stored := good.queues id
      obtain ⟨result, popped⟩ := stored.popFront_ok (stored.sum_lt small)
      obtain ⟨queue, front⟩ := result
      cases front <;> simp [stepWorker, point, popped]
  | getUsedSize task =>
      rw [point] at facts
      have stored := good.queues ⟨id.val + 1, facts.2⟩
      have measured := stored.getUsedSize_eq (stored.sum_lt small)
      simp [stepWorker, point, facts.2, measured]
  | pushBack task =>
      rw [point] at facts
      obtain ⟨_, next, _⟩ := facts
      have stored := good.queues ⟨id.val + 1, next⟩
      obtain ⟨result, pushed⟩ := stored.pushBack_ok (stored.sum_lt small) (some task)
      simp [stepWorker, point, next, pushed]
  | exited => exact absurd point alive

end DmLockFree.CDMQueueThreadPool
