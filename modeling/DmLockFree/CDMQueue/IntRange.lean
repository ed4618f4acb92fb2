import DmLockFree.CDMQueue.Calls

/-! The `int` arithmetic of a `CDMQueue`. The first sum of every call is at most
twice the size of the ring, and it comes close to that. -/

set_option autoImplicit false

namespace DmLockFree.CDMQueue

open Library CDMMutexQueue

variable {α : Type} {capacity : Nat} {queue after start : CDMQueue α}
  {elements : List (Option α)} {request : Request α} {nSize : Int}

def UsesOnly (_ : Option (CDMQueue α)) (request : Request α) : Prop := uses request = true

instance (state : Option (CDMQueue α)) (request : Request α) : Decidable (UsesOnly state request) :=
  inferInstanceAs (Decidable (uses request = true))

theorem use_restrict {state next : Option (CDMQueue α)} {event : Answered α}
    (use : uses request = true) (taken : (calls α).step state request = some (next, event)) :
    ((calls α).restrict UsesOnly).step state request = some (next, event) :=
  @Machine.step_restrict _ _ _ (calls α) UsesOnly _ _ _ _ _ use taken

/-- The successful pushes and the elements popped, one more event counted. A
`PopFront` pops an element if there is one. -/
def count : Nat × Nat → Answered α → Nat × Nat
  | (pushes, pops), (.pushBack _, .ok (.flag true)) => (pushes + 1, pops)
  | (pushes, pops), (.popFront, .ok _) => (pushes, if pops < pushes then pops + 1 else pops)
  | counts, _ => counts

def counts (events : List (Answered α)) : Nat × Nat := events.foldl count (0, 0)

@[simp] theorem counts_snoc (events : List (Answered α)) (event : Answered α) :
    counts (events ++ [event]) = count (counts events) event := by
  simp [counts]

/-- After `Init(nSize)` no call overflows, whatever the calls, and `GetUsedSize`
answers the pushes less the pops. -/
def StaysInRange (α : Type) (nSize : Int) : Prop :=
  ∃ start : CDMQueue α, empty.init nSize true = .ok (start, some true) ∧
    ∀ events state, ((calls α).restrict UsesOnly).Path (some start) events state →
      (∀ event ∈ events, event.2 ≠ .error .overflow) ∧
      ∀ before used, events = before ++ [(.getUsedSize, .ok (.count used))] →
        used = ((counts before).1 : Int) - (counts before).2 ∧ 0 ≤ used ∧ used ≤ nSize

/-- What a call does to the two counts is what it does to the stored elements. -/
theorem count_respond {pushes pops : Nat} {stored : List (Option α)}
    (use : uses request = true) (balance : pushes = pops + elements.length)
    (kept : ((BoundedQueue.bounded capacity elements).respond request).1 =
      .bounded capacity stored) :
    (count (pushes, pops)
        (request, .ok ((BoundedQueue.bounded capacity elements).respond request).2)).1 =
      (count (pushes, pops)
        (request, .ok ((BoundedQueue.bounded capacity elements).respond request).2)).2 +
        stored.length := by
  cases request with
  | init => cases use
  | pushBack ptr =>
      by_cases room : elements.length < capacity
      · simp only [BoundedQueue.respond, if_pos room] at kept ⊢
        cases kept
        simp only [count, List.length_append, List.length_singleton]
        omega
      · simp only [BoundedQueue.respond, if_neg room] at kept ⊢
        cases kept
        exact balance
  | popFront =>
      cases elements with
      | nil =>
          cases kept
          simp only [count]
          rw [if_neg (by rw [balance]; simp)]
          exact balance
      | cons ptr rest =>
          cases kept
          simp only [count]
          rw [List.length_cons] at balance
          rw [if_pos (by omega)]
          omega
  | getUsedSize =>
      cases kept
      exact balance

theorem path_counts (small : capacity + 1 ≤ 2 ^ 30) (built : start.Represents capacity [])
    {events : List (Answered α)} {state : Option (CDMQueue α)}
    (path : ((calls α).restrict UsesOnly).Path (some start) events state) :
    (∀ event ∈ events, ∃ response, event.2 = .ok response) ∧
      ∃ queue elements, state = some queue ∧ queue.Represents capacity elements ∧
        (counts events).1 = (counts events).2 + elements.length := by
  generalize first : some start = begins at path
  induction path with
  | refl => exact ⟨nofun, start, [], first.symm, built, rfl⟩
  | @snoc state after events request event _ taken ih =>
      obtain ⟨answered, queue, elements, rfl, represents, balance⟩ := ih
      obtain ⟨use, taken⟩ := Machine.restrict_step taken
      obtain ⟨next, stored, moved, kept, represents⟩ :=
        use_step represents (represents.sum_lt small) use
      rw [moved] at taken
      cases taken
      refine ⟨?_, next, stored, rfl, represents, ?_⟩
      · intro event member
        rcases List.mem_append.mp member with old | new
        · exact answered event old
        · rcases List.mem_singleton.mp new with rfl
          exact ⟨_, rfl⟩
      · rw [counts_snoc]
        exact count_respond use balance kept

theorem staysInRange_of_lt (nonneg : 0 ≤ nSize) (small : nSize < 2 ^ 30) :
    StaysInRange α nSize := by
  have built := @init_ok α empty nSize (by omega) (by omega)
  have represents := represents_of_init nonneg rfl rfl built
  refine ⟨_, built, ?_⟩
  intro events state path
  constructor
  · intro event member overflows
    obtain ⟨response, answer⟩ := (path_counts (by omega) represents path).1 event member
    rw [answer] at overflows
    cases overflows
  · intro before used same
    subst same
    obtain ⟨middle, earlier, last⟩ := path.split
    obtain ⟨request, taken⟩ := Machine.path_singleton last
    obtain ⟨_, queue, elements, rfl, represents, balance⟩ :=
      path_counts (by omega) represents earlier
    obtain ⟨use, taken⟩ := Machine.restrict_step taken
    obtain ⟨next, stored, moved, _, _⟩ :=
      use_step represents (represents.sum_lt (by omega)) use
    rw [moved] at taken
    cases taken
    have fits := represents.fits
    exact ⟨by omega, by omega, by omega⟩

/-- Pushes into a large ring, until a first sum is no `int`. -/
theorem Ring.overflows (ring : Ring capacity queue elements) (large : 2 ^ 30 < capacity + 1) :
    ∃ events, ((calls α).restrict UsesOnly).Path (some queue)
      (events ++ [(.getUsedSize, .error .overflow)]) none := by
  generalize left : (2 ^ 31 - (queue.nTail + queue.nSize)).toNat = pushes
  induction pushes generalizing queue elements with
  | zero =>
      have taken := @overflow_step α queue .getUsedSize (by omega) rfl
      exact ⟨[], Machine.Path.refl.snoc (use_restrict rfl taken)⟩
  | succ pushes ih =>
      have size := ring.represents.size
      have head := ring.represents.head.1
      have ordered := ring.ordered large
      have apart := ring.used_eq ordered
      obtain ⟨after, taken, ring, _, tail⟩ := ring.push (by omega) (by omega) none
      have kept := ring.represents.size
      rw [Int.tmod_eq_of_lt (by omega) (by omega)] at tail
      obtain ⟨events, path⟩ := ih ring (by omega)
      have first : ((calls α).restrict UsesOnly).Path (some queue)
          ([] ++ [(.pushBack none, .ok (.flag true))]) (some after) :=
        Machine.Path.refl.snoc (use_restrict rfl taken)
      refine ⟨(.pushBack none, .ok (.flag true)) :: events, ?_⟩
      simpa using first.trans path

/-- The arithmetic of a queue of `nSize` elements is that of the integers exactly
if `nSize` is below `2 ^ 30`. -/
theorem stays_in_range_iff (nonneg : 0 ≤ nSize) : StaysInRange α nSize ↔ nSize < 2 ^ 30 := by
  constructor
  · rintro ⟨start, built, sound⟩
    by_contra large
    obtain ⟨bounds, ⟨_, _, _, rfl⟩ | ⟨unbuilt, _⟩⟩ := init_inv built
    case inr => cases unbuilt
    case inl =>
        have ring : Ring nSize.toNat _ [] :=
          ⟨represents_of_init nonneg rfl rfl built, by omega, by omega, fun _ => le_rfl⟩
        obtain ⟨events, path⟩ := ring.overflows (by omega)
        exact (sound _ _ path).1 _ (List.mem_append_right _ (List.mem_singleton_self _)) rfl
  · exact staysInRange_of_lt nonneg

theorem stays_in_range_iff_bounds :
    StaysInRange Nat (2 ^ 30 - 1) ∧ ¬StaysInRange Nat (2 ^ 30) :=
  ⟨(stays_in_range_iff (by decide)).mpr (by decide),
    fun sound => absurd ((stays_in_range_iff (by decide)).mp sound) (by decide)⟩

/-- The largest queue that `Init` can size: the call after the first push overflows. -/
theorem largest_queue_overflows :
    ∃ start after : CDMQueue Nat, empty.init 2147483646 true = .ok (start, some true) ∧
      start.pushBack (some 7) = .ok (after, true) ∧ after.getUsedSize = .error .overflow := by
  have built := @init_ok Nat empty 2147483646 (by decide) (by decide)
  have ring : Ring 2147483646 _ [] :=
    ⟨represents_of_init (by decide) rfl rfl built, by decide, by decide, fun _ => le_rfl⟩
  obtain ⟨after, taken, ring, _, tail⟩ := ring.push (by decide) (by decide) (some 7)
  obtain ⟨response, result, shown⟩ := answered_step taken
  cases shown
  obtain ⟨ret, pushed, same⟩ := onQueue_pushBack result
  cases same
  have sum : after.nTail + after.nSize = 2 ^ 31 := by
    rw [tail, ring.represents.size]
    decide
  refine ⟨_, after, built, pushed, ?_⟩
  simp only [getUsedSize, distance, sum]
  rfl

end DmLockFree.CDMQueue
