import DmLockFree.CDMQueue.Calls

/-! `Init` on a queue that has been used. It replaces the array and the size and
leaves `m_nHead` and `m_nTail` alone, so the queue starts empty exactly when the
two indices meet at a cell of the new ring. -/

set_option autoImplicit false

namespace DmLockFree.CDMQueue

open Library CDMMutexQueue

variable {α : Type} {capacity : Nat} {queue : CDMQueue α} {elements : List (Option α)}
  {bounded : BoundedQueue α} {request : Request α} {nSize : Int}

/-- What repeated calls of `Init` are for: each starts an empty queue. -/
def restarted (α : Type) : Machine (BoundedQueue α) (Request α) (Answered α) where
  start := .uninitialised
  step
    | _, .init nSize allocates =>
        some (.bounded nSize.toNat [], .init nSize allocates, .ok (.flag true))
    | bounded, request =>
        some ((bounded.respond request).1, request, .ok (bounded.respond request).2)

theorem restarted_init (bounded : BoundedQueue α) (nSize : Int) (allocates : Bool) :
    (restarted α).step bounded (.init nSize allocates) =
      some (.bounded nSize.toNat [], .init nSize allocates, .ok (.flag true)) := by
  cases bounded <;> rfl

theorem restarted_use (use : uses request = true) :
    (restarted α).step bounded request =
      some ((bounded.respond request).1, request, .ok (bounded.respond request).2) := by
  cases request with
  | init => cases use
  | pushBack | popFront | getUsedSize => rfl

/-- Both indices are cells of the ring, if it has any. -/
def InRange (queue : CDMQueue α) : Prop :=
  0 < queue.nSize → (0 ≤ queue.nHead ∧ queue.nHead < queue.nSize) ∧
    0 ≤ queue.nTail ∧ queue.nTail < queue.nSize

/-- The queue that `Init` leaves behind is in range and answers as an empty queue
of that capacity. -/
def StartsFresh (queue : CDMQueue α) (nSize : Int) : Prop :=
  ∃ after, queue.init nSize true = .ok (after, some true) ∧ after.InRange ∧
    Machine.Alike (calls α) (restarted α) (fun request => uses request = true) (some after)
      (.bounded nSize.toNat [])

/-- The indices meet at a cell of the ring that `Init` is about to allocate. -/
def Together (queue : CDMQueue α) (nSize : Int) : Prop :=
  queue.nHead = queue.nTail ∧ queue.nHead ≤ nSize

/-- `Init` with a size below `2 ^ 30` that can be allocated, on indices that meet. -/
def Restartable : Option (CDMQueue α) → Request α → Prop
  | some queue, .init nSize allocates =>
      (0 ≤ nSize ∧ nSize < 2 ^ 30 ∧ allocates = true) ∧ queue.Together nSize
  | _, _ => True

instance : (state : Option (CDMQueue α)) → (request : Request α) →
    Decidable (Restartable state request)
  | some queue, .init nSize allocates =>
      inferInstanceAs (Decidable ((0 ≤ nSize ∧ nSize < 2 ^ 30 ∧ allocates = true) ∧
        queue.nHead = queue.nTail ∧ queue.nHead ≤ nSize))
  | none, _ | some _, .pushBack _ | some _, .popFront | some _, .getUsedSize =>
      inferInstanceAs (Decidable True)

/-- The object is new, or its ring holds the elements. -/
inductive Stands : CDMQueue α → BoundedQueue α → Prop where
  | new : Stands empty .uninitialised
  | bounded {queue : CDMQueue α} {capacity : Nat} {elements : List (Option α)}
      (small : capacity + 1 ≤ 2 ^ 30) (represents : queue.Represents capacity elements) :
      Stands queue (.bounded capacity elements)

theorem Represents.inRange (represents : queue.Represents capacity elements) : queue.InRange := by
  have size := represents.size
  have head := represents.head
  have tail := represents.tail_bound
  intro _
  omega

theorem Stands.inRange (stands : Stands queue bounded) : queue.InRange := by
  cases stands with
  | new => exact fun cells => absurd cells (lt_irrefl 0)
  | bounded _ represents => exact represents.inRange

theorem Stands.nonneg (stands : Stands queue bounded) : 0 ≤ queue.nHead ∧ 0 ≤ queue.nTail := by
  cases stands with
  | new => exact ⟨le_rfl, le_rfl⟩
  | bounded _ represents => exact ⟨represents.head.1, represents.tail_bound.1⟩

theorem Stands.use (stands : Stands queue bounded) (use : uses request = true) :
    ∃ after higher event, (calls α).step (some queue) request = some (some after, event) ∧
      (restarted α).step bounded request = some (higher, event) ∧ Stands after higher := by
  have answer := @restarted_use _ bounded _ use
  cases stands with
  | new =>
      obtain ⟨taken, same⟩ := @empty_step α _ use
      exact ⟨_, _, _, taken, answer, by rw [same]; exact .new⟩
  | bounded small represents =>
      obtain ⟨after, stored, taken, kept, represents⟩ :=
        use_step represents (represents.sum_lt small) use
      exact ⟨_, _, _, taken, answer, by rw [kept]; exact .bounded small represents⟩

theorem Stands.alike (stands : Stands queue bounded) :
    Machine.Alike (calls α) (restarted α) (fun request => uses request = true) (some queue)
      bounded := by
  apply Machine.Alike.of_related (fun state bounded => ∃ queue, state = some queue ∧
    Stands queue bounded)
  case next =>
      intro state bounded request related use
      obtain ⟨queue, rfl, stands⟩ := related
      obtain ⟨after, higher, event, taken, answer, kept⟩ := stands.use use
      exact .inr ⟨_, _, _, taken, answer, _, rfl, kept⟩
  case related => exact ⟨queue, rfl, stands⟩

theorem Stands.init (stands : Stands queue bounded) (nonneg : 0 ≤ nSize)
    (small : nSize < 2 ^ 30) (together : queue.Together nSize) :
    ∃ after, queue.init nSize true = .ok (after, some true) ∧
      Stands after (.bounded nSize.toNat []) := by
  obtain ⟨same, below⟩ := together
  have signs := stands.nonneg
  have built := @init_ok α queue nSize (by omega) (by omega)
  have represents := represents_of_init_stale nonneg (by omega) (by omega) built
  have none_used : (queue.nTail - queue.nHead) % (nSize + 1) = 0 := by
    rw [same, sub_self, Int.zero_emod]
  rw [none_used] at represents
  exact ⟨_, built, .bounded (by omega) represents⟩

/-- Stale indices that are in range leave cells in the queue that nobody pushed. -/
theorem StartsFresh.together (fresh : queue.StartsFresh nSize) (stands : Stands queue bounded)
    (nonneg : 0 ≤ nSize) (small : nSize < 2 ^ 30) : queue.Together nSize := by
  obtain ⟨after, built, inRange, alike⟩ := fresh
  have signs := stands.nonneg
  rw [@init_ok α queue nSize (by omega) (by omega)] at built
  cases built
  obtain ⟨head, tail⟩ := inRange (by simp only; omega)
  simp only at head tail
  have represents := represents_of_init_stale nonneg (by omega) (by omega)
    (@init_ok α queue nSize (by omega) (by omega))
  obtain ⟨_, _, taken, _, _⟩ :=
    @use_step _ _ _ _ .getUsedSize represents (represents.sum_lt (by omega)) rfl
  obtain ⟨_, answered, _⟩ := alike.step rfl taken
  have none_used : (queue.nTail - queue.nHead) % (nSize + 1) ≤ 0 := by
    simp [restarted, BoundedQueue.respond] at answered
    exact answered.2
  have apart := Int.emod_nonneg (queue.nTail - queue.nHead) (by omega : nSize + 1 ≠ 0)
  refine ⟨?_, by omega⟩
  have divides : nSize + 1 ∣ queue.nTail - queue.nHead := Int.dvd_of_emod_eq_zero (by omega)
  have zero := Int.eq_zero_of_abs_lt_dvd divides (abs_lt.mpr ⟨by omega, by omega⟩)
  omega

theorem startsFresh_iff (stands : Stands queue bounded) (nonneg : 0 ≤ nSize)
    (small : nSize < 2 ^ 30) : queue.StartsFresh nSize ↔ queue.Together nSize := by
  constructor
  · exact fun fresh => fresh.together stands nonneg small
  · intro together
    obtain ⟨after, built, stands⟩ := stands.init nonneg small together
    exact ⟨after, built, stands.inRange, stands.alike⟩

theorem run_stands {events : List (Answered α)} {state : Option (CDMQueue α)}
    (run : ((calls α).restrict Restartable).Run events state) :
    ∃ queue bounded, state = some queue ∧ Stands queue bounded ∧
      (restarted α).Run events bounded := by
  induction run with
  | refl => exact ⟨empty, .uninitialised, rfl, .new, .refl⟩
  | @snoc state after events request event _ taken ih =>
      obtain ⟨queue, bounded, rfl, stands, answers⟩ := ih
      obtain ⟨allowed, taken⟩ := Machine.restrict_step taken
      cases use : uses request with
      | true =>
          obtain ⟨next, higher, _, moved, answer, stands⟩ := stands.use use
          rw [moved] at taken
          cases taken
          exact ⟨next, higher, rfl, stands, answers.snoc answer⟩
      | false =>
          obtain ⟨nSize, allocates, rfl⟩ := init_of_uses use
          obtain ⟨⟨nonneg, small, rfl⟩, together⟩ := allowed
          obtain ⟨after, built, stands⟩ := stands.init nonneg small together
          rw [init_step built] at taken
          cases taken
          exact ⟨after, _, rfl, stands, answers.snoc (restarted_init bounded nSize true)⟩

/-- In every run whose `Init` calls find the two indices at one cell of the new
ring, all answers are those of a queue that each `Init` starts empty, no access
faults and the indices stay in range; and in each state reached the next `Init`
starts such a queue only if it finds the indices so. -/
theorem init_starts_fresh {events : List (Answered α)} {state : Option (CDMQueue α)}
    (run : ((calls α).restrict Restartable).Run events state) :
    ∃ queue bounded, state = some queue ∧ queue.InRange ∧ (restarted α).Run events bounded ∧
      ∀ nSize : Int, 0 ≤ nSize → nSize < 2 ^ 30 →
        (queue.StartsFresh nSize ↔ queue.Together nSize) := by
  obtain ⟨queue, bounded, rfl, stands, answers⟩ := run_stands run
  exact ⟨queue, bounded, rfl, stands.inRange, answers,
    fun nSize nonneg small => startsFresh_iff stands nonneg small⟩

/-- A queue that is emptied and then given a larger ring. -/
def renewal : List (Request Nat) :=
  [.init 2 true, .pushBack (some 7), .popFront, .init 3 true, .pushBack (some 8), .popFront]

theorem init_starts_fresh_renewal :
    ∃ events queue, ((calls Nat).restrict Restartable).Run events (some queue) ∧
      events.getLast? = some (.popFront, .ok (.pointer (some 8))) ∧ queue.InRange := by
  have run := Machine.exec_run ((calls Nat).restrict Restartable) renewal rfl
  obtain ⟨_, _, same, inRange, _⟩ := init_starts_fresh run
  cases same
  exact ⟨_, _, run, rfl, inRange⟩

/-- Three elements pass through a ring of five cells; the next ring has two. -/
def shrinking : List (Request Nat) :=
  [.init 4 true, .pushBack (some 7), .pushBack (some 8), .pushBack (some 9), .popFront, .popFront,
    .popFront, .init 1 true, .pushBack (some 10)]

/-- The push after the second `Init` writes outside the array. -/
theorem shrinking_overruns :
    ∃ events, (calls Nat).Run events none ∧
      events.getLast? = some (.pushBack (some 10), .error .outOfRange) ∧
      events[7]? = some (.init 1 true, .ok (.flag true)) ∧
      ∀ event ∈ events, ∀ nSize allocates, event.1 = .init nSize allocates →
        0 ≤ nSize ∧ nSize < 2 ^ 30 ∧ allocates = true := by
  have run := Machine.exec_run (calls Nat) shrinking rfl
  exact ⟨_, run, rfl, rfl, by simp⟩

end DmLockFree.CDMQueue
