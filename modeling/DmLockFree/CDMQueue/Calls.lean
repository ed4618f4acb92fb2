import DmLockFree.CDMMutexQueue.Refinement
import DmLockFree.Library.Alike

/-!
# Calls on a `CDMQueue`, one after another

The life of one object used by one thread, with `Init` at any point. A call
that runs into undefined behaviour answers with the fault, and there is no
object after it.
-/

set_option autoImplicit false

namespace DmLockFree.CDMQueue

open Library CDMMutexQueue

variable {α : Type} {capacity : Nat} {queue after : CDMQueue α} {elements : List (Option α)}
  {request : Request α}

abbrev Answered (α : Type) := Request α × Except Fault (Response α)

def calls (α : Type) : Machine (Option (CDMQueue α)) (Request α) (Answered α) where
  start := some empty
  step
    | some queue, request =>
        match onQueue queue request with
        | .ok (after, response) => some (some after, request, .ok response)
        | .error fault => some (none, request, .error fault)
    | none, _ => none

/-- `PushBack`, `PopFront` and `GetUsedSize`. -/
def uses : Request α → Bool
  | .init _ _ => false
  | _ => true

theorem init_of_uses (use : uses request = false) :
    ∃ nSize allocates, request = .init nSize allocates := by
  cases request with
  | init nSize allocates => exact ⟨nSize, allocates, rfl⟩
  | _ => cases use

theorem earlyReturn_uses (use : uses request = true) : earlyReturn true request = none := by
  cases request with
  | init => cases use
  | _ => rfl

theorem calls_none : (calls α).step none request = none := rfl

theorem calls_ok {after : CDMQueue α} {response : Response α}
    (result : onQueue queue request = .ok (after, response)) :
    (calls α).step (some queue) request = some (some after, request, .ok response) := by
  simp only [calls, result]

theorem calls_error {fault : Fault} (result : onQueue queue request = .error fault) :
    (calls α).step (some queue) request = some (none, request, .error fault) := by
  simp only [calls, result]

/-- A call answers whatever happens, and only a fault takes the object away. -/
theorem calls_step {state after : Option (CDMQueue α)} {event : Answered α}
    (taken : (calls α).step state request = some (after, event)) :
    ∃ queue, state = some queue ∧
      ((∃ next response, onQueue queue request = .ok (next, response) ∧ after = some next ∧
          event = (request, .ok response)) ∨
        ∃ fault, onQueue queue request = .error fault ∧ after = none ∧
          event = (request, .error fault)) := by
  cases state with
  | none => cases taken
  | some queue =>
      refine ⟨queue, rfl, ?_⟩
      unfold calls at taken
      cases result : onQueue queue request with
      | ok pair =>
          simp only [result] at taken
          cases taken
          exact .inl ⟨pair.1, pair.2, rfl, rfl, rfl⟩
      | error fault =>
          simp only [result] at taken
          cases taken
          exact .inr ⟨fault, rfl, rfl, rfl⟩

theorem init_step {nSize : Int} {allocates : Bool} {after : CDMQueue α}
    (built : queue.init nSize allocates = .ok (after, some true)) :
    (calls α).step (some queue) (.init nSize allocates) =
      some (some after, .init nSize allocates, .ok (.flag true)) := by
  apply calls_ok
  simp only [onQueue, built]
  rfl

/-- A call other than `Init` answers as the bounded queue does. -/
theorem use_step (represents : queue.Represents capacity elements)
    (sum : queue.nTail + queue.nSize < 2 ^ 31) (use : uses request = true) :
    ∃ after stored,
      (calls α).step (some queue) request =
        some (some after, request,
          .ok ((BoundedQueue.bounded capacity elements).respond request).2) ∧
      ((BoundedQueue.bounded capacity elements).respond request).1 = .bounded capacity stored ∧
      after.Represents capacity stored := by
  obtain ⟨after, stored, result, kept, represents⟩ :=
    onQueue_represents represents sum (earlyReturn_uses use)
  exact ⟨after, stored, calls_ok result, kept, represents⟩

/-- Before the first `Init` there is nothing to push into or to pop. -/
theorem empty_step (use : uses request = true) :
    (calls α).step (some empty) request =
      some (some empty, request, .ok ((BoundedQueue.uninitialised : BoundedQueue α).respond
        request).2) ∧
      ((BoundedQueue.uninitialised : BoundedQueue α).respond request).1 = .uninitialised := by
  cases request with
  | init => cases use
  | pushBack | popFront | getUsedSize => exact ⟨rfl, rfl⟩

/-- Once the first sum of a call overflows it does so in every call. -/
theorem overflow_step (large : 2 ^ 31 ≤ queue.nTail + queue.nSize) (use : uses request = true) :
    (calls α).step (some queue) request = some (none, request, .error .overflow) := by
  have first : int (queue.nTail + queue.nSize) = .error .overflow := by
    rw [int, if_neg (by omega)]
  have measured : distance queue.nTail queue.nSize queue.nHead = .error .overflow := by
    simp only [distance, first, bind, Except.bind]
  apply calls_error
  cases request with
  | init => cases use
  | pushBack => simp only [onQueue, pushBack, measured, bind, Except.bind]
  | popFront => simp only [onQueue, popFront, measured, bind, Except.bind]
  | getUsedSize => simp only [onQueue, getUsedSize, measured, bind, Except.bind]

/-- A step that leaves an object behind is a call that answered. -/
theorem answered_step {after : CDMQueue α} {event : Answered α}
    (taken : (calls α).step (some queue) request = some (some after, event)) :
    ∃ response, onQueue queue request = .ok (after, response) ∧
      event = (request, .ok response) := by
  obtain ⟨_, same, answers⟩ := calls_step taken
  cases same
  rcases answers with ⟨next, response, result, same, shown⟩ | ⟨_, _, gone, _⟩
  · cases same
    exact ⟨response, result, shown⟩
  · cases gone

theorem onQueue_pushBack {ptr : Option α} {response : Response α}
    (result : onQueue queue (.pushBack ptr) = .ok (after, response)) :
    ∃ ret, queue.pushBack ptr = .ok (after, ret) ∧ response = .flag ret := by
  obtain ⟨pair, pushed, same⟩ := bind_ok result
  cases same
  exact ⟨pair.2, pushed, rfl⟩

theorem onQueue_popFront {response : Response α}
    (result : onQueue queue .popFront = .ok (after, response)) :
    ∃ ptr, queue.popFront = .ok (after, ptr) ∧ response = .pointer ptr := by
  obtain ⟨pair, popped, same⟩ := bind_ok result
  cases same
  exact ⟨pair.2, popped, rfl⟩

theorem onQueue_getUsedSize {response : Response α}
    (result : onQueue queue .getUsedSize = .ok (after, response)) :
    ∃ used, queue.getUsedSize = .ok used ∧ after = queue ∧ response = .count used := by
  obtain ⟨used, measured, same⟩ := bind_ok result
  cases same
  exact ⟨used, measured, rfl, rfl⟩

/-- No call but `Init` changes the size. -/
theorem onQueue_nSize {response : Response α} (use : uses request = true)
    (result : onQueue queue request = .ok (after, response)) : after.nSize = queue.nSize := by
  cases request with
  | init => cases use
  | pushBack ptr =>
      obtain ⟨_, pushed, _⟩ := onQueue_pushBack result
      obtain ⟨_, _, ⟨_, _, rfl⟩ | ⟨_, _, _, _, rfl⟩⟩ := pushBack_inv pushed <;> rfl
  | popFront =>
      obtain ⟨_, popped, _⟩ := onQueue_popFront result
      obtain ⟨_, _, ⟨_, _, rfl⟩ | ⟨_, _, rfl⟩⟩ := popFront_inv popped <;> rfl
  | getUsedSize =>
      obtain ⟨_, _, rfl, _⟩ := onQueue_getUsedSize result
      rfl

/-- Queues that hold something. Past `2 ^ 30` cells the first sum of a call stops
being an `int` before the tail wraps. -/
structure Ring (capacity : Nat) (queue : CDMQueue α) (elements : List (Option α)) : Prop where
  represents : queue.Represents capacity elements
  several : 0 < capacity
  bound : capacity + 1 < 2 ^ 31
  ordered : 2 ^ 30 < capacity + 1 → queue.nHead ≤ queue.nTail

namespace Ring

theorem used_eq (ring : Ring capacity queue elements) (ordered : queue.nHead ≤ queue.nTail) :
    queue.nTail = queue.nHead + elements.length := by
  have head := ring.represents.head
  have fits := ring.represents.fits
  have tail := ring.represents.tail
  rw [mod_of_used head.2 (by omega)] at tail
  split at tail <;> omega

theorem ordered_next (ring : Ring capacity queue elements)
    (sum : queue.nTail + queue.nSize < 2 ^ 31) (large : 2 ^ 30 < capacity + 1)
    {response : Response α} (use : uses request = true)
    (result : onQueue queue request = .ok (after, response)) : after.nHead ≤ after.nTail := by
  have ordered := ring.ordered large
  have size := ring.represents.size
  have head := ring.represents.head.1
  have apart := ring.used_eq ordered
  cases request with
  | init => cases use
  | pushBack ptr =>
      obtain ⟨_, pushed, _⟩ := onQueue_pushBack result
      obtain ⟨_, _, ⟨_, _, rfl⟩ | ⟨_, _, _, _, rfl⟩⟩ := pushBack_inv pushed
      · exact ordered
      · simp only
        rw [Int.tmod_eq_of_lt (by omega) (by omega)]
        omega
  | popFront =>
      obtain ⟨_, popped, _⟩ := onQueue_popFront result
      obtain ⟨nUsed, measured, ⟨_, _, rfl⟩ | ⟨present, _, rfl⟩⟩ := popFront_inv popped
      · exact ordered
      · rw [ring.represents.distance_eq sum] at measured
        cases measured
        simp only
        rw [Int.tmod_eq_of_lt (by omega) (by omega)]
        omega
  | getUsedSize =>
      obtain ⟨_, _, rfl, _⟩ := onQueue_getUsedSize result
      exact ordered

theorem step (ring : Ring capacity queue elements) (sum : queue.nTail + queue.nSize < 2 ^ 31)
    (use : uses request = true) :
    ∃ after stored,
      (calls α).step (some queue) request =
        some (some after, request,
          .ok ((BoundedQueue.bounded capacity elements).respond request).2) ∧
      ((BoundedQueue.bounded capacity elements).respond request).1 = .bounded capacity stored ∧
      Ring capacity after stored := by
  obtain ⟨after, stored, taken, kept, represents⟩ := use_step ring.represents sum use
  obtain ⟨response, result, _⟩ := answered_step taken
  exact ⟨after, stored, taken, kept, represents, ring.several, ring.bound,
    fun large => ring.ordered_next sum large use result⟩

/-- A push that finds room moves the tail and nothing else. -/
theorem push (ring : Ring capacity queue elements) (sum : queue.nTail + queue.nSize < 2 ^ 31)
    (room : elements.length < capacity) (ptr : Option α) :
    ∃ after,
      (calls α).step (some queue) (.pushBack ptr) =
        some (some after, .pushBack ptr, .ok (.flag true)) ∧
      Ring capacity after (elements ++ [ptr]) ∧ after.nHead = queue.nHead ∧
      after.nTail = (queue.nTail + 1).tmod queue.nSize := by
  obtain ⟨after, stored, taken, kept, ring⟩ := @Ring.step _ _ _ _ (.pushBack ptr) ring sum rfl
  simp only [BoundedQueue.respond, if_pos room] at taken kept
  cases kept
  obtain ⟨response, result, shown⟩ := answered_step taken
  cases shown
  obtain ⟨ret, pushed, same⟩ := onQueue_pushBack result
  cases same
  obtain ⟨_, _, ⟨refused, _⟩ | ⟨_, _, _, _, rfl⟩⟩ := pushBack_inv pushed
  case inl => cases refused
  case inr => exact ⟨_, taken, ring, rfl, rfl⟩

end Ring

end DmLockFree.CDMQueue
