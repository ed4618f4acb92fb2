import DmLockFree.CDMMutexQueue.Basic
import DmLockFree.CDMQueue.Sequential
import DmLockFree.Library.Monitor

/-! The calls of all threads, in the order in which they hold the lock, are the
calls of one bounded queue. -/

set_option autoImplicit false

namespace DmLockFree.CDMMutexQueue

open Library

/-- What the component is for: a queue that does not exist until an `Init`
completes, and then a first-in first-out queue of bounded capacity. -/
inductive BoundedQueue (α : Type) where
  | uninitialised
  | bounded (capacity : Nat) (elements : List (Option α))

variable {α Thread : Type}

def BoundedQueue.respond : BoundedQueue α → Request α → BoundedQueue α × Response α
  | .uninitialised, .init nSize allocates =>
      if -1 ≤ nSize ∧ allocates then (.bounded nSize.toNat [], .flag true)
      else (.uninitialised, .threw)
  | .uninitialised, .pushBack _ => (.uninitialised, .flag false)
  | .uninitialised, .popFront => (.uninitialised, .pointer none)
  | .uninitialised, .getUsedSize => (.uninitialised, .count 0)
  | .bounded capacity elements, .init _ _ => (.bounded capacity elements, .flag false)
  | .bounded capacity elements, .pushBack ptr =>
      if elements.length < capacity then (.bounded capacity (elements ++ [ptr]), .flag true)
      else (.bounded capacity elements, .flag false)
  | .bounded capacity [], .popFront => (.bounded capacity [], .pointer none)
  | .bounded capacity (ptr :: rest), .popFront => (.bounded capacity rest, .pointer ptr)
  | .bounded capacity elements, .getUsedSize =>
      (.bounded capacity elements, .count elements.length)

/-- The history of calls and results that takes the new queue to `queue`. -/
inductive Explains : List (Request α × Except Fault (Response α)) → BoundedQueue α → Prop where
  | nil : Explains [] .uninitialised
  | snoc {history : List (Request α × Except Fault (Response α))} {queue : BoundedQueue α}
      (request : Request α) : Explains history queue →
      Explains (history ++ [(request, .ok (queue.respond request).2)]) (queue.respond request).1

/-- The fields hold the abstract queue. `Init(-1)` leaves a ring without cells. -/
inductive Holds : CDMQueue α → Bool → BoundedQueue α → Prop where
  | uninitialised {queue : CDMQueue α} (head : queue.nHead = 0) (tail : queue.nTail = 0) :
      Holds queue false .uninitialised
  | bounded {queue : CDMQueue α} {capacity : Nat} {elements : List (Option α)}
      (small : capacity + 1 ≤ 2 ^ 30) (represents : queue.Represents capacity elements) :
      Holds queue true (.bounded capacity elements)
  | noCells : Holds ⟨some [], 0, 0, 0⟩ true (.bounded 0 [])

theorem Holds.untouched {queue : CDMQueue α} {bounded : BoundedQueue α}
    (holds : Holds queue false bounded) :
    bounded = .uninitialised ∧ queue.nHead = 0 ∧ queue.nTail = 0 := by
  cases holds with
  | uninitialised head tail => exact ⟨rfl, head, tail⟩

theorem earlyReturn_eq {queue : CDMQueue α} {bInitialized : Bool} {bounded : BoundedQueue α}
    {request : Request α} {response : Response α} (holds : Holds queue bInitialized bounded)
    (early : earlyReturn bInitialized request = some response) :
    bounded.respond request = (bounded, response) := by
  cases holds with
  | uninitialised => cases request <;> simp_all [earlyReturn, BoundedQueue.respond]
  | bounded | noCells => cases request <;> simp_all [earlyReturn, BoundedQueue.respond]

theorem init_spec {queue : CDMQueue α} (head : queue.nHead = 0) (tail : queue.nTail = 0)
    {nSize : Int} (low : -2 ^ 31 ≤ nSize) (high : nSize < 2 ^ 30) (allocates : Bool) :
    (∃ after, queue.init nSize allocates = .ok (after, some true) ∧ -1 ≤ nSize ∧
      allocates = true ∧ Holds after true (.bounded nSize.toNat [])) ∨
    ∃ after, queue.init nSize allocates = .ok (after, none) ∧ ¬(-1 ≤ nSize ∧ allocates = true) ∧
      after.nHead = 0 ∧ after.nTail = 0 := by
  have sized : CDMQueue.int (nSize + 1) = .ok (nSize + 1) :=
    CDMQueue.int_ok (by omega) (by omega)
  by_cases completes : -1 ≤ nSize ∧ allocates = true
  · left
    obtain ⟨fits, rfl⟩ := completes
    rcases fits.eq_or_lt with rfl | nonneg
    · refine ⟨⟨some [], 0, 0, 0⟩, ?_, le_rfl, rfl, .noCells⟩
      rw [CDMQueue.init, sized]
      simp [bind, Except.bind, pure, Except.pure, head, tail]
    · obtain ⟨after, result, represents⟩ :=
        CDMQueue.init_represents (by omega : nSize + 1 ≤ 2 ^ 30) (by omega) head tail
      exact ⟨after, result, fits, rfl, .bounded (by omega) represents⟩
  · right
    refine ⟨{ queue with nSize := nSize + 1 }, ?_, completes, head, tail⟩
    rw [CDMQueue.init, sized]
    have throws : ¬(0 ≤ nSize + 1 ∧ allocates = true) :=
      fun passes => completes ⟨by omega, passes.2⟩
    simp only [bind, Except.bind, pure, Except.pure]
    rw [if_neg throws]

/-- A call other than `Init` on a ring whose first sum is an `int`. -/
theorem onQueue_represents {queue : CDMQueue α} {capacity : Nat} {elements : List (Option α)}
    {request : Request α} (represents : queue.Represents capacity elements)
    (sum : queue.nTail + queue.nSize < 2 ^ 31) (use : earlyReturn true request = none) :
    ∃ after stored,
      onQueue queue request =
        .ok (after, ((BoundedQueue.bounded capacity elements).respond request).2) ∧
      ((BoundedQueue.bounded capacity elements).respond request).1 = .bounded capacity stored ∧
      after.Represents capacity stored := by
  cases request with
  | init => cases use
  | pushBack ptr =>
      rcases Nat.lt_or_eq_of_le represents.fits with room | full
      · obtain ⟨after, pushed, stored⟩ := represents.pushBack_room sum room ptr
        refine ⟨after, _, ?_, ?_, stored⟩ <;> simp only [BoundedQueue.respond, if_pos room]
        simp only [onQueue, pushed]
        rfl
      · have pushed := represents.pushBack_full sum full ptr
        have noRoom : ¬elements.length < capacity := by omega
        refine ⟨queue, _, ?_, ?_, represents⟩ <;> simp only [BoundedQueue.respond, if_neg noRoom]
        simp only [onQueue, pushed]
        rfl
  | popFront =>
      cases elements with
      | nil =>
          refine ⟨queue, _, ?_, rfl, represents⟩
          simp only [onQueue, represents.popFront_empty sum]
          rfl
      | cons ptr rest =>
          obtain ⟨after, popped, stored⟩ := represents.popFront_cons sum
          refine ⟨after, _, ?_, rfl, stored⟩
          simp only [onQueue, popped]
          rfl
  | getUsedSize =>
      refine ⟨queue, _, ?_, rfl, represents⟩
      simp only [onQueue, represents.getUsedSize_eq sum]
      rfl

/-- After the flag test a call on `m_queue` answers as the bounded queue does. -/
theorem onQueue_spec {queue : CDMQueue α} {bounded : BoundedQueue α} {request : Request α}
    (holds : Holds queue true bounded) (through : earlyReturn true request = none) :
    ∃ after, onQueue queue request = .ok (after, (bounded.respond request).2) ∧
      Holds after true (bounded.respond request).1 := by
  cases holds with
  | bounded small represents =>
      obtain ⟨after, elements, result, kept, stored⟩ :=
        onQueue_represents represents (represents.sum_lt small) through
      rw [kept]
      exact ⟨after, result, .bounded small stored⟩
  | noCells =>
      cases request with
      | init => cases through
      | pushBack | popFront | getUsedSize => exact ⟨_, rfl, .noCells⟩

def Pc.inside : Pc α → Bool
  | .idle | .lock _ => false
  | .testInitialized _ | .callQueue _ | .setInitialized _ _ | .unlock _ => true

/-- What the thread in the critical section knows, by its program point. Between
the success of `m_queue.Init` and the store of the flag the fields are those of
the next abstract queue. -/
def Inside (queue : CDMQueue α) (bInitialized : Bool) (bounded : BoundedQueue α) :
    Pc α → Prop
  | .idle | .lock _ => True
  | .testInitialized request => request.Sized ∧ Holds queue bInitialized bounded
  | .callQueue request =>
      request.Sized ∧ Holds queue bInitialized bounded ∧ earlyReturn bInitialized request = none
  | .setInitialized request response =>
      Holds queue true (bounded.respond request).1 ∧ response = (bounded.respond request).2
  | .unlock _ => Holds queue bInitialized bounded

theorem inside_outside {queue : CDMQueue α} {bInitialized : Bool} {bounded : BoundedQueue α}
    {pc : Pc α} (outside : pc.inside = false) : Inside queue bInitialized bounded pc := by
  cases pc with
  | idle | lock => trivial
  | _ => cases outside

/-- The calls in the order of their critical sections, with their results. -/
def performed (events : List (Event α Thread)) : List (Request α × Except Fault (Response α)) :=
  events.filterMap fun event => match event with
    | .performed _ request response => some (request, response)
    | _ => none

theorem performed_silent (events : List (Event α Thread)) :
    performed (events ++ [.silent]) = performed events := by
  simp [performed]

theorem performed_returned (events : List (Event α Thread)) (thread : Thread)
    (response : Except Fault (Response α)) :
    performed (events ++ [.returned thread response]) = performed events := by
  simp [performed]

theorem performed_snoc (events : List (Event α Thread)) (thread : Thread) (request : Request α)
    (response : Except Fault (Response α)) :
    performed (events ++ [.performed thread request response]) =
      performed events ++ [(request, response)] := by
  simp [performed]

structure Invariant (history : List (Request α × Except Fault (Response α)))
    (state : State α Thread) : Prop where
  exclusive : ∀ thread, (state.pc thread).inside = true ↔ state.mutex = some thread
  waiting : ∀ thread request, state.pc thread = .lock request → request.Sized
  explained : ∃ bounded, Explains history bounded ∧
    (state.mutex = none → Holds state.queue state.bInitialized bounded) ∧
    ∀ thread, Inside state.queue state.bInitialized bounded (state.pc thread)

theorem Invariant.critical {history : List (Request α × Except Fault (Response α))}
    {state : State α Thread} {thread : Thread} {pc : Pc α} (good : Invariant history state)
    (point : state.pc thread = pc) (inside : pc.inside = true) :
    (state.pc thread).inside = true ∧ ∃ bounded, Explains history bounded ∧
      Inside state.queue state.bInitialized bounded pc := by
  subst point
  obtain ⟨bounded, explains, _, facts⟩ := good.explained
  exact ⟨inside, bounded, explains, facts thread⟩

variable [DecidableEq Thread]

theorem setPc_pc (state : State α Thread) (thread other : Thread) (pc : Pc α) :
    (state.setPc thread pc).pc other = if other = thread then pc else state.pc other :=
  Function.update_apply state.pc thread pc other

section Steps

variable {history later : List (Request α × Except Fault (Response α))}
  {state : State α Thread} {thread : Thread}

/-- Any step of a thread, with what is then known of its own point and of the others. -/
theorem Invariant.move (good : Invariant history state) {queue : CDMQueue α}
    {bInitialized : Bool} {mutex : Option Thread} {bounded : BoundedQueue α} {pc : Pc α}
    (exclusive : Exclusive Pc.inside (Function.update state.pc thread pc) mutex)
    (waits : ∀ request, pc = .lock request → request.Sized)
    (explains : Explains later bounded)
    (holds : mutex = none → Holds queue bInitialized bounded)
    (own : Inside queue bInitialized bounded pc)
    (others : ∀ other, other ≠ thread → Inside queue bInitialized bounded (state.pc other)) :
    Invariant later
      ({ queue, bInitialized, mutex, pc := state.pc : State α Thread }.setPc thread pc) := by
  constructor
  case exclusive => exact exclusive
  case waiting =>
      intro other request
      rw [setPc_pc]
      split
      case isTrue => exact waits request
      case isFalse => exact good.waiting other request
  case explained =>
      refine ⟨bounded, explains, holds, fun other => ?_⟩
      rw [setPc_pc]
      split
      case isTrue => exact own
      case isFalse apart => exact others other apart

/-- A step inside the critical section: no other thread is in there. -/
theorem Invariant.inside (good : Invariant history state)
    (holder : (state.pc thread).inside = true) {queue : CDMQueue α} {bInitialized : Bool}
    {bounded : BoundedQueue α} {pc : Pc α} (stays : pc.inside = true)
    (explains : Explains later bounded) (facts : Inside queue bInitialized bounded pc) :
    Invariant later ({ state with queue, bInitialized }.setPc thread pc) := by
  have exclusive : Exclusive Pc.inside state.pc state.mutex := good.exclusive
  apply good.move (exclusive.move (stays.trans holder.symm))
  case waits =>
      intro _ same
      subst same
      cases stays
  case explains => exact explains
  case holds =>
      intro free
      rw [(good.exclusive thread).mp holder] at free
      cases free
  case own => exact facts
  case others => exact fun other apart => inside_outside (exclusive.outside holder apart)

theorem Invariant.outside (good : Invariant history state)
    (before : (state.pc thread).inside = false) {pc : Pc α} (stays : pc.inside = false)
    (waits : ∀ request, pc = .lock request → request.Sized) :
    Invariant history (state.setPc thread pc) := by
  have exclusive : Exclusive Pc.inside state.pc state.mutex := good.exclusive
  obtain ⟨bounded, explains, holds, facts⟩ := good.explained
  apply good.move (exclusive.move (stays.trans before.symm)) waits explains holds
  case own => exact inside_outside stays
  case others => exact fun other _ => facts other

theorem Invariant.acquire (good : Invariant history state) {request : Request α}
    (point : state.pc thread = .lock request) (free : state.mutex = none) :
    Invariant history
      ({ state with mutex := some thread }.setPc thread (.testInitialized request)) := by
  have exclusive : Exclusive Pc.inside state.pc state.mutex := good.exclusive
  rw [free] at exclusive
  obtain ⟨bounded, explains, holds, facts⟩ := good.explained
  apply good.move (exclusive.acquire rfl)
  case waits => nofun
  case explains => exact explains
  case holds => nofun
  case own => exact ⟨good.waiting thread request point, holds free⟩
  case others => exact fun other _ => facts other

theorem Invariant.release (good : Invariant history state)
    {response : Except Fault (Response α)} (point : state.pc thread = .unlock response) :
    Invariant history ({ state with mutex := none }.setPc thread .idle) := by
  have exclusive : Exclusive Pc.inside state.pc state.mutex := good.exclusive
  obtain ⟨holder, bounded, explains, holds⟩ := good.critical point rfl
  apply good.move (exclusive.release holder rfl)
  case waits => nofun
  case explains => exact explains
  case holds => exact fun _ => holds
  case own => trivial
  case others => exact fun other apart => inside_outside (exclusive.outside holder apart)

variable {events : List (Event α Thread)} {after : State α Thread} {event : Event α Thread}

theorem callQueue_step (good : Invariant (performed events) state) {request : Request α}
    (point : state.pc thread = .callQueue request)
    (taken : advance state thread = some (after, event)) :
    Invariant (performed (events ++ [event])) after := by
  obtain ⟨holder, bounded, explains, sized, holds, through⟩ := good.critical point rfl
  have settled := explains.snoc request
  simp only [advance, point] at taken
  cases flag : state.bInitialized with
  | true =>
      rw [flag] at holds through
      obtain ⟨queue, result, stored⟩ := onQueue_spec holds through
      have plain : initializes request (bounded.respond request).2 = false := by
        cases request <;> first | rfl | cases through
      simp only [result, plain, Bool.false_eq_true, if_false] at taken
      cases taken
      rw [performed_snoc]
      exact good.inside holder rfl settled (by rwa [flag])
  | false =>
      rw [flag] at holds through
      obtain ⟨rfl, head, tail⟩ := holds.untouched
      cases request with
      | init nSize allocates =>
          rcases init_spec head tail sized.1 sized.2 allocates with
            ⟨queue, result, fits, allocated, stored⟩ | ⟨queue, result, fails, head, tail⟩
          · have answer : BoundedQueue.respond .uninitialised (.init nSize allocates) =
                (.bounded nSize.toNat [], (.flag true : Response α)) :=
              if_pos ⟨fits, allocated⟩
            simp only [onQueue, result] at taken
            cases taken
            rw [performed_silent]
            refine good.inside holder rfl explains ⟨?_, ?_⟩ <;> rw [answer]
            exact stored
          · have answer : BoundedQueue.respond .uninitialised (.init nSize allocates) =
                (.uninitialised, (.threw : Response α)) := if_neg fails
            rw [answer] at settled
            simp only [onQueue, result] at taken
            cases taken
            rw [performed_snoc]
            exact good.inside holder rfl settled (by rw [flag]; exact .uninitialised head tail)
      | pushBack | popFront | getUsedSize => cases through

/-- Every step keeps the invariant; the step that settles a call gives the
answer of the bounded queue. -/
theorem Invariant.step (good : Invariant (performed events) state) {label : Label α Thread}
    (taken : (machine α Thread).step state label = some (after, event)) :
    Invariant (performed (events ++ [event])) after := by
  cases label with
  | call thread request =>
      simp only [machine] at taken
      split at taken
      · split at taken
        case isTrue idle sized =>
            cases taken
            rw [performed_silent]
            refine good.outside (by rw [idle]; rfl) rfl ?_
            intro _ same
            cases same
            exact sized
        case isFalse => cases taken
      · cases taken
  | run thread =>
      change advance state thread = some (after, event) at taken
      cases point : state.pc thread with
      | idle => simp [advance, point] at taken
      | lock request =>
          simp only [advance, point] at taken
          split at taken
          case isTrue free =>
              cases taken
              rw [performed_silent]
              exact good.acquire point free
          case isFalse => cases taken
      | testInitialized request =>
          obtain ⟨holder, bounded, explains, sized, holds⟩ := good.critical point rfl
          simp only [advance, point] at taken
          cases early : earlyReturn state.bInitialized request with
          | none =>
              simp only [early] at taken
              cases taken
              rw [performed_silent]
              exact good.inside holder rfl explains ⟨sized, holds, early⟩
          | some response =>
              have answer := earlyReturn_eq holds early
              have settled := explains.snoc request
              rw [answer] at settled
              simp only [early] at taken
              cases taken
              rw [performed_snoc]
              exact good.inside holder rfl settled holds
      | callQueue request => exact callQueue_step good point taken
      | setInitialized request response =>
          obtain ⟨holder, bounded, explains, holds, rfl⟩ := good.critical point rfl
          simp only [advance, point] at taken
          cases taken
          rw [performed_snoc]
          exact good.inside holder rfl (explains.snoc request) holds
      | unlock response =>
          simp only [advance, point] at taken
          cases taken
          rw [performed_returned]
          exact good.release point

theorem run_invariant (run : (machine α Thread).Run events state) :
    Invariant (performed events) state := by
  refine run.invariant (fun events state => Invariant (performed events) state) ?_ ?_
  · exact ⟨fun _ => ⟨nofun, nofun⟩, nofun, _, .nil, fun _ => .uninitialised rfl rfl,
      fun _ => trivial⟩
  · exact fun good taken => good.step taken

end Steps

def Event.settled (thread : Thread) : Event α Thread → Option (Except Fault (Response α))
  | .performed other _ response => if other = thread then some response else none
  | _ => none

def Event.result (thread : Thread) : Event α Thread → Option (Except Fault (Response α))
  | .returned other response => if other = thread then some response else none
  | _ => none

/-- The results settled for one thread in its critical sections. -/
def answers (thread : Thread) (events : List (Event α Thread)) :
    List (Except Fault (Response α)) :=
  events.filterMap (Event.settled thread)

/-- The results that the calls of one thread returned. -/
def results (thread : Thread) (events : List (Event α Thread)) :
    List (Except Fault (Response α)) :=
  events.filterMap (Event.result thread)

/-- The settled result that a call has still to return. -/
def Pc.pending : Pc α → Option (Except Fault (Response α))
  | .unlock response => some response
  | _ => none

@[simp] theorem pending_unlock (response : Except Fault (Response α)) :
    (Pc.unlock response).pending = some response := rfl

theorem setPc_pending (state : State α Thread) (mover thread : Thread) (pc : Pc α) :
    ((state.setPc mover pc).pc thread).pending =
      if mover = thread then pc.pending else (state.pc thread).pending := by
  rw [setPc_pc, apply_ite Pc.pending]
  simp only [eq_comm]

/-- What one thread's settled results gain, its returned and pending ones gain. -/
def Accounts (state after : State α Thread) (event : Event α Thread) : Prop :=
  ∀ thread, (state.pc thread).pending.toList ++ (event.settled thread).toList =
    (event.result thread).toList ++ (after.pc thread).pending.toList

section Accounts

variable {state changed after : State α Thread} {mover : Thread} {event : Event α Thread}

theorem accounts_silent {pc : Pc α} (kept : changed.pc = state.pc)
    (before : (state.pc mover).pending = none) (now : pc.pending = none) :
    Accounts state (changed.setPc mover pc) .silent := by
  intro thread
  rw [setPc_pending, kept]
  split
  case isTrue mine => subst mine; simp [before, now, Event.settled, Event.result]
  case isFalse => simp [Event.settled, Event.result]

theorem accounts_perform {request : Request α} {response : Except Fault (Response α)}
    (kept : changed.pc = state.pc) (before : (state.pc mover).pending = none) :
    Accounts state (changed.perform mover request response).1
      (changed.perform mover request response).2 := by
  intro thread
  unfold State.perform
  rw [setPc_pending, kept]
  split
  case isTrue mine => subst mine; simp [before, Event.settled, Event.result]
  case isFalse other => simp [other, Event.settled, Event.result]

theorem advance_accounts (taken : advance state mover = some (after, event)) :
    Accounts state after event := by
  cases point : state.pc mover with
  | idle => simp [advance, point] at taken
  | lock request =>
      simp only [advance, point] at taken
      split at taken <;> cases taken
      exact accounts_silent rfl (by rw [point]; rfl) rfl
  | testInitialized request =>
      simp only [advance, point] at taken
      split at taken <;> cases taken
      · exact accounts_perform rfl (by rw [point]; rfl)
      · exact accounts_silent rfl (by rw [point]; rfl) rfl
  | callQueue request =>
      simp only [advance, point] at taken
      split at taken
      · cases taken
        exact accounts_perform rfl (by rw [point]; rfl)
      · split at taken <;> cases taken
        · exact accounts_silent rfl (by rw [point]; rfl) rfl
        · exact accounts_perform rfl (by rw [point]; rfl)
  | setInitialized request response =>
      simp only [advance, point] at taken
      cases taken
      exact accounts_perform rfl (by rw [point]; rfl)
  | unlock response =>
      simp only [advance, point] at taken
      cases taken
      intro thread
      rw [setPc_pending]
      split
      case isTrue mine => subst mine; simp [point, Pc.pending, Event.settled, Event.result]
      case isFalse other => simp [other, Event.settled, Event.result]

end Accounts

theorem run_answers {events : List (Event α Thread)} {state : State α Thread}
    (run : (machine α Thread).Run events state) (thread : Thread) :
    answers thread events = results thread events ++ (state.pc thread).pending.toList := by
  refine run.invariant (fun events state => answers thread events =
    results thread events ++ (state.pc thread).pending.toList) rfl ?_
  intro events state after label event same taken
  have accounts : Accounts state after event := by
    cases label with
    | call caller request =>
        simp only [machine] at taken
        split at taken
        case h_1 idle =>
            split at taken <;> cases taken
            exact accounts_silent rfl (by rw [idle]; rfl) rfl
        case h_2 => cases taken
    | run mover => exact advance_accounts taken
  rw [answers, results] at same ⊢
  rw [List.filterMap_append, List.filterMap_append, same, List.append_assoc, List.append_assoc]
  have gained := accounts thread
  cases settled : event.settled thread <;> cases result : event.result thread <;>
    simpa [List.filterMap_cons, settled, result] using gained

/-- An `Init` that completed. -/
def Completed (entry : Request α × Except Fault (Response α)) : Prop :=
  ∃ nSize allocates, entry = (.init nSize allocates, .ok (.flag true))

theorem Explains.uninitialised_iff {history : List (Request α × Except Fault (Response α))}
    {bounded : BoundedQueue α} (explains : Explains history bounded) :
    bounded = .uninitialised ↔ ∀ entry ∈ history, ¬Completed entry := by
  induction explains with
  | nil => simp
  | @snoc history bounded request earlier ih =>
      rw [List.forall_mem_append, List.forall_mem_singleton, ← ih]
      cases bounded with
      | uninitialised =>
          cases request with
          | init nSize allocates =>
              by_cases completes : -1 ≤ nSize ∧ allocates = true
              · simp [BoundedQueue.respond, completes, Completed]
              · simp [BoundedQueue.respond, completes, Completed]
          | pushBack | popFront | getUsedSize => simp [BoundedQueue.respond, Completed]
      | bounded capacity elements =>
          cases request with
          | init | getUsedSize => simp [BoundedQueue.respond]
          | pushBack ptr => by_cases room : elements.length < capacity <;>
              simp [BoundedQueue.respond, room]
          | popFront => cases elements <;> simp [BoundedQueue.respond]

/-- The history before an entry of an explained history is explained, and the
entry is the answer to it. -/
theorem Explains.split {before later : List (Request α × Except Fault (Response α))}
    {request : Request α} {response : Except Fault (Response α)} {last : BoundedQueue α}
    (explains : Explains (before ++ (request, response) :: later) last) :
    ∃ bounded, Explains before bounded ∧ response = .ok (bounded.respond request).2 := by
  induction later using List.reverseRecOn generalizing last with
  | nil =>
      generalize whole : before ++ [(request, response)] = history at explains
      cases explains with
      | nil => simp at whole
      | snoc request earlier =>
          obtain ⟨rfl, same⟩ := List.append_inj' whole rfl
          cases same
          exact ⟨_, earlier, rfl⟩
  | append_singleton later entry ih =>
      generalize whole : before ++ (request, response) :: (later ++ [entry]) = history at explains
      cases explains with
      | nil => simp at whole
      | snoc final earlier =>
          rw [← List.cons_append, ← List.append_assoc] at whole
          obtain ⟨rfl, _⟩ := List.append_inj' whole rfl
          exact ih earlier

/-- The critical sections of all threads, one after the other, are the calls of
one bounded queue that is uninitialised until an `Init` completes: each answers
as that queue does after the calls before it, without a fault. At most one
thread is in a critical section, the fields hold the queue whenever the lock is
free, and every thread gets the answers of its own calls. -/
theorem refines_bounded_queue {events : List (Event α Thread)} {state : State α Thread}
    (run : (machine α Thread).Run events state) :
    (∃ bounded, Explains (performed events) bounded ∧
      (state.mutex = none → Holds state.queue state.bInitialized bounded)) ∧
    (∀ before request response later,
      performed events = before ++ (request, response) :: later →
      ∃ bounded, Explains before bounded ∧
        (bounded = .uninitialised ↔ ∀ entry ∈ before, ¬Completed entry) ∧
        response = .ok (bounded.respond request).2) ∧
    (∀ first second, (state.pc first).inside = true → (state.pc second).inside = true →
      first = second) ∧
    ∀ thread, answers thread events =
      results thread events ++ (state.pc thread).pending.toList := by
  have good := run_invariant run
  obtain ⟨bounded, explains, holds, _⟩ := good.explained
  refine ⟨⟨bounded, explains, holds⟩, ?_, fun first second enters follows => ?_, run_answers run⟩
  · intro before request response later same
    rw [same] at explains
    obtain ⟨earlier, prefix_explains, answer⟩ := explains.split
    exact ⟨earlier, prefix_explains, prefix_explains.uninitialised_iff, answer⟩
  · exact Exclusive.unique good.exclusive follows enters

/-- A throwing `Init`, one of size 1 by another thread, then a push and a pop
while a second push waits for the lock. -/
def contention : List (Label Nat Bool) :=
  [.call true (.init (-2) true), .run true, .run true, .run true, .run true,
    .call false (.init 1 true), .run false, .run false, .run false, .run false, .run false,
    .call true (.pushBack (some 7)), .call false (.pushBack (some 8)),
    .run true, .run true, .run true, .run true,
    .run false, .run false, .run false, .run false,
    .call true .popFront, .run true, .run true, .run true]

theorem refines_bounded_queue_contention :
    ∃ events state, (machine Nat Bool).Run events state ∧
      performed events = [(.init (-2) true, .ok .threw), (.init 1 true, .ok (.flag true)),
        (.pushBack (some 7), .ok (.flag true)), (.pushBack (some 8), .ok (.flag false)),
        (.popFront, .ok (.pointer (some 7)))] ∧
      ∃ bounded, Explains (performed events) bounded := by
  have run := Machine.exec_run (machine Nat Bool) contention rfl
  obtain ⟨⟨bounded, explains, _⟩, _⟩ := refines_bounded_queue run
  exact ⟨_, _, run, rfl, bounded, explains⟩

end DmLockFree.CDMMutexQueue
