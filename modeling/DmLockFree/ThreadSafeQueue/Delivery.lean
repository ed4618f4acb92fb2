import DmLockFree.ThreadSafeQueue.Basic

/-! Every value is delivered once and in order, and no value is left behind
while all blocked poppers sleep. -/

set_option autoImplicit false

namespace DmLockFree.ThreadSafeQueue

open Library

variable {T Thread : Type}

/-- The values pushed, in the order of their insertion. -/
def pushed (events : List (Event T Thread)) : List T :=
  events.filterMap fun event => match event with
    | .pushed _ value => some value
    | _ => none

/-- The values delivered, in the order of their removal. -/
def removed (events : List (Event T Thread)) : List T :=
  events.filterMap fun event => match event with
    | .removed _ value => some value
    | _ => none

theorem pushed_snoc (events : List (Event T Thread)) (thread : Thread) (value : T) :
    pushed (events ++ [.pushed thread value]) = pushed events ++ [value] := by
  simp [pushed]

theorem removed_snoc (events : List (Event T Thread)) (thread : Thread) (value : T) :
    removed (events ++ [.removed thread value]) = removed events ++ [value] := by
  simp [removed]

def Pc.inside : Pc T → Bool
  | .idle | .lock _ | .blocked => false
  | .pushBack _ | .notifyOne | .testPop | .wait | .testTryPop | .testEmpty | .front _
  | .popFront _ _ | .unlock _ => true

/-- A push that has not notified yet has put one value more than it has woken
threads, and a popper that has not removed yet is no longer counted as woken. -/
def Pc.slack : Pc T → Nat
  | .notifyOne | .testPop | .front _ | .popFront _ _ => 1
  | _ => 0

def State.slack (state : State T Thread) : Nat :=
  match state.mutex with
  | none => 0
  | some thread => (state.pc thread).slack

/-- What the owner of the lock knows about the queue. -/
def Knows (queue : List T) : Pc T → Prop
  | .wait => queue = []
  | .front _ => queue ≠ []
  | .popFront _ value => ∃ rest, queue = value :: rest
  | _ => True

theorem knows_outside {queue : List T} {pc : Pc T} (outside : pc.inside = false) :
    Knows queue pc := by
  cases pc with
  | idle | lock | blocked => trivial
  | _ => cases outside

structure Invariant (events : List (Event T Thread)) (state : State T Thread) : Prop where
  conserved : pushed events = removed events ++ state.queue
  defined : ∀ thread, .undefined thread ∉ events
  exclusive : Exclusive Pc.inside state.pc state.mutex
  blocked : ∀ thread, state.pc thread = .blocked ↔ state.condVar.Blocked thread
  knows : ∀ thread, Knows state.queue (state.pc thread)
  covered : state.condVar.Covers state.queue.length state.slack

theorem slack_holder {events : List (Event T Thread)} {state : State T Thread} {thread : Thread}
    (good : Invariant events state) (holder : (state.pc thread).inside = true) :
    state.slack = (state.pc thread).slack := by
  simp only [State.slack, (good.exclusive thread).mp holder]

theorem conserved_silent {events : List (Event T Thread)} {state : State T Thread}
    (good : Invariant events state) :
    pushed (events ++ [.silent]) = removed (events ++ [.silent]) ++ state.queue := by
  simpa [pushed, removed] using good.conserved

theorem Invariant.critical {events : List (Event T Thread)} {state : State T Thread}
    {thread : Thread} {pc : Pc T} (good : Invariant events state)
    (point : state.pc thread = pc) (inside : pc.inside = true) :
    (state.pc thread).inside = true ∧ Knows state.queue pc ∧
      state.condVar.Covers state.queue.length pc.slack := by
  subst point
  have covered := good.covered
  rw [slack_holder good inside] at covered
  exact ⟨inside, good.knows thread, covered⟩

theorem Invariant.awake {events : List (Event T Thread)} {state : State T Thread}
    {thread : Thread} {pc : Pc T} (good : Invariant events state)
    (point : state.pc thread = pc) (elsewhere : pc ≠ .blocked) :
    ¬state.condVar.Blocked thread := by
  intro asleep
  apply elsewhere
  rw [← point]
  exact (good.blocked thread).mpr asleep

variable [DecidableEq Thread]

section Steps

variable {events : List (Event T Thread)} {state : State T Thread} {thread : Thread}

/-- Any step of a thread: it may change the queue in the critical section only,
and it may change which threads are blocked for itself only. -/
theorem Invariant.move (good : Invariant events state) {mutex : Option Thread} {queue : List T}
    {condVar : ConditionVariable Thread} {pc : Pc T} {event : Event T Thread}
    (conserved : pushed (events ++ [event]) = removed (events ++ [event]) ++ queue)
    (defined : ∀ other, event ≠ .undefined other)
    (exclusive : Exclusive Pc.inside (Function.update state.pc thread pc) mutex)
    (own : pc = .blocked ↔ condVar.Blocked thread)
    (frame : ∀ other, other ≠ thread → (condVar.Blocked other ↔ state.condVar.Blocked other))
    (knows : Knows queue pc)
    (locked : queue = state.queue ∨ (state.pc thread).inside = true)
    (covered : condVar.Covers queue.length (State.slack ({ state with mutex }.setPc thread pc))) :
    Invariant (events ++ [event]) ({ mutex, queue, condVar, pc := state.pc : State T Thread }.setPc
      thread pc) := by
  constructor
  case conserved => exact conserved
  case defined =>
      intro other member
      rcases List.mem_append.mp member with before | last
      · exact good.defined other before
      · exact defined other (List.mem_singleton.mp last).symm
  case exclusive => exact exclusive
  case blocked =>
      intro other
      simp only [State.setPc]
      by_cases mine : other = thread
      · subst mine
        rw [Function.update_self]
        exact own
      · rw [Function.update_of_ne mine, frame other mine]
        exact good.blocked other
  case knows =>
      intro other
      simp only [State.setPc]
      by_cases mine : other = thread
      · subst mine
        rw [Function.update_self]
        exact knows
      · rw [Function.update_of_ne mine]
        rcases locked with same | holder
        · rw [same]
          exact good.knows other
        · exact knows_outside (good.exclusive.outside holder mine)
  case covered => exact covered

theorem slack_own {mutex : Option Thread} {pc : Pc T} (owner : mutex = some thread) :
    State.slack ({ state with mutex }.setPc thread pc) = pc.slack := by
  subst owner
  simp [State.slack, State.setPc]

theorem slack_outside (good : Invariant events state) (outside : (state.pc thread).inside = false)
    {pc : Pc T} : State.slack (state.setPc thread pc) = state.slack := by
  cases owner : state.mutex with
  | none => simp only [State.slack, State.setPc, owner]
  | some holder =>
      have apart : holder ≠ thread := by
        intro same
        subst same
        rw [(good.exclusive holder).mpr owner] at outside
        cases outside
      simp only [State.slack, State.setPc, owner, Function.update_of_ne apart]

theorem Invariant.inside (good : Invariant events state)
    (queue : List T) (condVar : ConditionVariable Thread) {pc : Pc T} {event : Event T Thread}
    (holder : (state.pc thread).inside = true) (stays : pc.inside = true)
    (conserved : pushed (events ++ [event]) = removed (events ++ [event]) ++ queue)
    (defined : ∀ other, event ≠ .undefined other)
    (frame : ∀ other, condVar.Blocked other ↔ state.condVar.Blocked other)
    (knows : Knows queue pc) (covered : condVar.Covers queue.length pc.slack) :
    Invariant (events ++ [event]) ({ state with queue, condVar }.setPc thread pc) := by
  have owner := (good.exclusive thread).mp holder
  have awake : ¬state.condVar.Blocked thread := by
    apply good.awake rfl
    intro asleep
    rw [asleep] at holder
    cases holder
  apply good.move conserved defined (good.exclusive.move (stays.trans holder.symm))
  case own =>
      rw [frame]
      constructor
      · intro same
        subst same
        cases stays
      · intro blocked
        exact (awake blocked).elim
  case frame => exact fun other _ => frame other
  case knows => exact knows
  case locked => exact .inr holder
  case covered =>
      rw [slack_own owner]
      exact covered

theorem Invariant.reads (good : Invariant events state)
    (pc : Pc T) (holder : (state.pc thread).inside = true) (stays : pc.inside = true)
    (knows : Knows state.queue pc) (covered : state.condVar.Covers state.queue.length pc.slack) :
    Invariant (events ++ [.silent]) (state.setPc thread pc) := by
  apply good.inside state.queue state.condVar holder stays
  · exact conserved_silent good
  · nofun
  · exact fun _ => Iff.rfl
  · exact knows
  · exact covered

/-- A thread takes the free mutex, at a call or when it has been woken. -/
theorem Invariant.acquire (good : Invariant events state) (free : state.mutex = none)
    {condVar : ConditionVariable Thread} {pc : Pc T} (enters : pc.inside = true)
    (awake : ¬condVar.Blocked thread)
    (frame : ∀ other, other ≠ thread → (condVar.Blocked other ↔ state.condVar.Blocked other))
    (knows : Knows state.queue pc) (covered : condVar.Covers state.queue.length pc.slack) :
    Invariant (events ++ [.silent])
      ({ state with mutex := some thread, condVar }.setPc thread pc) := by
  have exclusive := good.exclusive
  rw [free] at exclusive
  apply good.move (conserved_silent good) nofun (exclusive.acquire enters)
  case own =>
      constructor
      · intro same
        subst same
        cases enters
      · intro blocked
        exact (awake blocked).elim
  case frame => exact frame
  case knows => exact knows
  case locked => exact .inl rfl
  case covered =>
      rw [slack_own rfl]
      exact covered

/-- The owner gives the mutex back, at the end of a call or in `wait`. -/
theorem Invariant.release (good : Invariant events state)
    (holder : (state.pc thread).inside = true) {condVar : ConditionVariable Thread} {pc : Pc T}
    {event : Event T Thread} (leaves : pc.inside = false)
    (conserved : pushed (events ++ [event]) = removed (events ++ [event]) ++ state.queue)
    (defined : ∀ other, event ≠ .undefined other)
    (own : pc = .blocked ↔ condVar.Blocked thread)
    (frame : ∀ other, other ≠ thread → (condVar.Blocked other ↔ state.condVar.Blocked other))
    (covered : condVar.Covers state.queue.length 0) :
    Invariant (events ++ [event]) ({ state with mutex := none, condVar }.setPc thread pc) := by
  apply good.move conserved defined (good.exclusive.release holder leaves)
  case own => exact own
  case frame => exact frame
  case knows => exact knows_outside leaves
  case locked => exact .inl rfl
  case covered => exact covered

variable {after : State T Thread} {event : Event T Thread}

theorem advance_step (good : Invariant events state)
    (taken : advance state thread = some (after, event)) :
    Invariant (events ++ [event]) after := by
  cases point : state.pc thread with
  | idle | notifyOne => simp [advance, point] at taken
  | lock request =>
      simp only [advance, point] at taken
      split at taken
      case isFalse => cases taken
      case isTrue free =>
          cases taken
          have covered := good.covered
          simp only [State.slack, free] at covered
          have enters : request.entry.inside = true := by cases request <;> rfl
          have nothing : Knows state.queue request.entry := by cases request <;> trivial
          have awake := good.awake point nofun
          exact good.acquire free enters awake (fun _ _ => Iff.rfl) nothing covered.weaken
  | blocked =>
      simp only [advance, point] at taken
      split at taken
      case isFalse => cases taken
      case isTrue may =>
          obtain ⟨woken, free⟩ := may
          cases taken
          have covered := good.covered
          simp only [State.slack, free] at covered
          apply good.acquire free rfl
          · simp [ConditionVariable.blocked_leave woken]
          · intro other apart
            simp [ConditionVariable.blocked_leave woken, apart]
          · trivial
          · exact covered.leave
  | pushBack value =>
      obtain ⟨holder, _, covered⟩ := good.critical point rfl
      simp only [advance, point] at taken
      cases taken
      apply good.inside (state.queue ++ [value]) state.condVar holder rfl
      · rw [pushed_snoc, good.conserved, List.append_assoc]
        simp [removed]
      · nofun
      · exact fun _ => Iff.rfl
      · trivial
      · rw [List.length_append]
        exact covered.add
  | testPop =>
      obtain ⟨holder, _, covered⟩ := good.critical point rfl
      simp only [advance, point] at taken
      split at taken
      case isTrue empty =>
          cases taken
          rw [List.isEmpty_iff] at empty
          apply good.reads .wait holder rfl empty
          rw [empty]
          exact fun _ => Nat.zero_le _
      case isFalse nonempty =>
          cases taken
          rw [List.isEmpty_iff] at nonempty
          apply good.reads (.front .done) holder rfl nonempty
          exact covered
  | wait =>
      obtain ⟨holder, empty, _⟩ := good.critical point rfl
      simp only [advance, point] at taken
      cases taken
      apply good.release holder rfl (conserved_silent good) nofun
      · simp [ConditionVariable.blocked_wait]
      · intro other apart
        simp [ConditionVariable.blocked_wait, apart]
      · rw [show state.queue = [] from empty]
        exact ConditionVariable.covers_wait
  | testTryPop =>
      obtain ⟨holder, _, covered⟩ := good.critical point rfl
      simp only [advance, point] at taken
      split at taken
      case isTrue =>
          cases taken
          apply good.reads (.unlock (.flag false)) holder rfl trivial
          exact covered
      case isFalse nonempty =>
          cases taken
          rw [List.isEmpty_iff] at nonempty
          apply good.reads (.front (.flag true)) holder rfl nonempty
          exact ConditionVariable.Covers.weaken covered
  | testEmpty =>
      obtain ⟨holder, _, covered⟩ := good.critical point rfl
      simp only [advance, point] at taken
      cases taken
      apply good.reads (.unlock (.flag state.queue.isEmpty)) holder rfl trivial
      exact covered
  | front response =>
      obtain ⟨holder, nonempty, covered⟩ := good.critical point rfl
      simp only [advance, point] at taken
      cases contents : state.queue with
      | nil => exact (nonempty contents).elim
      | cons value rest =>
          simp only [contents] at taken
          cases taken
          apply good.reads (.popFront response value) holder rfl ⟨rest, contents⟩
          exact covered
  | popFront response value =>
      obtain ⟨holder, ⟨rest, contents⟩, covered⟩ := good.critical point rfl
      rw [contents] at covered
      simp only [advance, point, contents] at taken
      cases taken
      apply good.inside rest state.condVar holder rfl
      · rw [removed_snoc, List.append_assoc, List.singleton_append, ← contents, ← good.conserved]
        simp [pushed]
      · nofun
      · exact fun _ => Iff.rfl
      · trivial
      · exact covered.take
  | unlock response =>
      obtain ⟨holder, _, covered⟩ := good.critical point rfl
      simp only [advance, point] at taken
      cases taken
      have awake := good.awake point nofun
      apply good.release holder rfl
      · simpa [pushed, removed] using good.conserved
      · nofun
      · exact ⟨nofun, fun asleep => (awake asleep).elim⟩
      · exact fun _ _ => Iff.rfl
      · exact covered

theorem Invariant.step (good : Invariant events state) {label : Label T Thread}
    (taken : (machine T Thread).step state label = some (after, event)) :
    Invariant (events ++ [event]) after := by
  cases label with
  | call thread request =>
      simp only [machine] at taken
      split at taken
      case h_2 => cases taken
      case h_1 idle =>
          cases taken
          have awake := good.awake idle nofun
          apply good.move (conserved_silent good) nofun
          case exclusive => exact good.exclusive.move (by rw [idle]; rfl)
          case own => exact ⟨nofun, fun asleep => (awake asleep).elim⟩
          case frame => exact fun _ _ => Iff.rfl
          case knows => trivial
          case locked => exact .inl rfl
          case covered =>
              rw [slack_outside good (by rw [idle]; rfl)]
              exact good.covered
  | run thread => exact advance_step good taken
  | notify thread chosen =>
      simp only [machine] at taken
      split at taken
      case h_2 => cases taken
      case h_1 point =>
          split at taken
          case isFalse => cases taken
          case isTrue notifies =>
              cases taken
              obtain ⟨holder, _, covered⟩ := good.critical point rfl
              apply good.inside state.queue (state.condVar.wake chosen) holder rfl
              · exact conserved_silent good
              · nofun
              · exact fun _ => ConditionVariable.blocked_wake
              · trivial
              · exact covered.notify notifies
  | wake thread =>
      simp only [machine] at taken
      split at taken
      case isFalse => cases taken
      case isTrue asleep =>
          cases taken
          have conserved := conserved_silent good
          constructor
          case conserved => exact conserved
          case defined => simpa using good.defined
          case exclusive => exact good.exclusive
          case blocked =>
              intro other
              rw [ConditionVariable.blocked_wake]
              exact good.blocked other
          case knows => exact good.knows
          case covered => exact good.covered.wake (Finset.singleton_subset_iff.mpr asleep)

theorem run_invariant (run : (machine T Thread).Run events state) : Invariant events state := by
  induction run with
  | refl =>
      constructor
      case conserved => rfl
      case defined => nofun
      case exclusive => exact fun _ => ⟨nofun, nofun⟩
      case blocked => simp [machine, ConditionVariable.Blocked, ConditionVariable.empty]
      case knows => exact fun _ => trivial
      case covered => exact ConditionVariable.covers_empty
  | snoc _ taken ih => exact ih.step taken

/-- The values delivered are a prefix of the values pushed, and the rest is
stored; `front` and `pop` of `queue_` never meet an empty queue. While the mutex
is free and some popper sleeps, there are at most as many stored values as woken
threads still inside `wait`, so the queue is empty when all of them sleep. -/
theorem delivers_and_wakes (run : (machine T Thread).Run events state) :
    removed events <+: pushed events ∧ pushed events = removed events ++ state.queue ∧
    (∀ thread, .undefined thread ∉ events) ∧
    (∀ thread, state.pc thread = .blocked ↔
      thread ∈ state.condVar.waiting ∨ thread ∈ state.condVar.woken) ∧
    (state.mutex = none → state.condVar.waiting.Nonempty →
      state.queue.length ≤ state.condVar.woken.card) ∧
    (state.mutex = none → state.condVar.waiting.Nonempty → state.condVar.woken = ∅ →
      state.queue = []) := by
  have good := run_invariant run
  have covered : state.mutex = none → state.condVar.waiting.Nonempty →
      state.queue.length ≤ state.condVar.woken.card := by
    intro free asleep
    have counted := good.covered asleep
    simpa only [State.slack, free, Nat.add_zero] using counted
  constructor
  · exact ⟨state.queue, good.conserved.symm⟩
  · refine ⟨good.conserved, good.defined, good.blocked, covered, ?_⟩
    intro free asleep none
    have counted := covered free asleep
    rw [none, Finset.card_empty, Nat.le_zero, List.length_eq_zero_iff] at counted
    exact counted

end Steps

/-- Two poppers sleep, one of them wakes by itself and waits again; then a push
wakes one, a second push the other, and `try_pop` overtakes both. -/
def overtaken : List (Label Nat (Fin 3)) :=
  [.call 1 .pop, .run 1, .run 1, .run 1, .call 2 .pop, .run 2, .run 2, .run 2,
    .wake 2, .run 2, .run 2, .run 2,
    .call 0 (.push 7), .run 0, .run 0, .notify 0 {1}, .run 0,
    .call 0 (.push 8), .run 0, .run 0, .notify 0 {2}, .run 0,
    .call 0 .tryPop, .run 0, .run 0, .run 0, .run 0, .run 0,
    .run 2, .run 2, .run 2, .run 2, .run 2, .run 1, .run 1, .run 1]

theorem delivers_and_wakes_overtaken :
    ∃ events state, (machine Nat (Fin 3)).Run events state ∧
      removed events = [7, 8] ∧ pushed events = [7, 8] ∧ state.mutex = none ∧
      1 ∈ state.condVar.waiting ∧ state.queue.length ≤ state.condVar.woken.card := by
  have run := Machine.exec_run (machine Nat (Fin 3)) overtaken rfl
  have asleep : (1 : Fin 3) ∈ ({1} : Finset (Fin 3)) := Finset.mem_singleton_self 1
  obtain ⟨_, _, _, _, counted, _⟩ := delivers_and_wakes run
  exact ⟨_, _, run, rfl, rfl, rfl, asleep, counted rfl ⟨1, asleep⟩⟩

end DmLockFree.ThreadSafeQueue
