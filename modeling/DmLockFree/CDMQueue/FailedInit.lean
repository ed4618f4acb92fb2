import DmLockFree.CDMQueue.Calls

/-! An `Init` whose allocation throws has already stored the new size. Whether a
later call notices depends on the old size, the new one and the indices. -/

set_option autoImplicit false

namespace DmLockFree.CDMQueue

open Library CDMMutexQueue

variable {α : Type} {capacity : Nat} {queue other after : CDMQueue α}
  {elements : List (Option α)} {request : Request α} {nSize : Int}

/-- The calls other than `Init` do not tell the two objects apart. -/
abbrev AnswersAlike (queue other : CDMQueue α) : Prop :=
  Machine.Alike (calls α) (calls α) (fun request => uses request = true) (some queue) (some other)

/-- The failed `Init` that leads from `queue` to `after` is not noticed by the calls
that follow, and none of them touches a cell that does not exist. -/
structure Unnoticed (queue after : CDMQueue α) : Prop where
  alike : AnswersAlike queue after
  inside : ∀ requests events state, (∀ request ∈ requests, uses request = true) →
    (calls α).exec (some after) requests = some (events, state) →
    ∀ event ∈ events, event.2 ≠ .error .nullArray ∧ event.2 ≠ .error .outOfRange

/-- Never initialised, or initialised once; then any calls that are defined. -/
inductive Reached : CDMQueue α → Prop where
  | new : Reached empty
  | init {nSize : Int} {start : CDMQueue α}
      (built : empty.init nSize true = .ok (start, some true)) : Reached start
  | use {queue after : CDMQueue α} {request : Request α} {event : Answered α} :
      Reached queue → uses request = true →
      (calls α).step (some queue) request = some (some after, event) → Reached after

/-- Queues that hold nothing: at most one cell, whatever the array. -/
structure Flat (queue : CDMQueue α) : Prop where
  head : queue.nHead = 0
  tail : queue.nTail = 0
  low : -2 ^ 31 < queue.nSize
  high : queue.nSize ≤ 1

theorem Flat.distance_eq (flat : Flat queue) :
    distance queue.nTail queue.nSize queue.nHead = .ok 0 := by
  have low := flat.low
  have high := flat.high
  rw [flat.head, flat.tail]
  simp only [distance, zero_add, sub_zero]
  rw [int_ok (by omega) (by omega)]
  simp only [bind, Except.bind]
  rw [int_ok (by omega) (by omega)]
  simp only []
  rw [if_pos (by omega), int_ok (by omega) (by omega), sub_self]

theorem Flat.step (flat : Flat queue) (use : uses request = true) :
    (calls α).step (some queue) request =
      some (some queue, request, .ok ((BoundedQueue.bounded 0 []).respond request).2) := by
  have measured := flat.distance_eq
  apply calls_ok
  cases request with
  | init => cases use
  | pushBack ptr =>
      have low := flat.low
      have high := flat.high
      simp only [onQueue, pushBack, measured, bind, Except.bind]
      rw [int_ok (by omega) (by omega)]
      simp only []
      rw [if_pos (by omega)]
      rfl
  | popFront =>
      simp only [onQueue, popFront, measured, bind, Except.bind]
      rfl
  | getUsedSize =>
      simp only [onQueue, getUsedSize, measured, bind, Except.bind]
      rfl

theorem Flat.alike (flat : Flat queue) (level : Flat other) : AnswersAlike queue other := by
  apply Machine.Alike.of_related (fun low high => low = some queue ∧ high = some other)
  case next =>
      intro low high request related use
      obtain ⟨rfl, rfl⟩ := related
      exact .inr ⟨_, _, _, flat.step use, level.step use, rfl, rfl⟩
  case related => exact ⟨rfl, rfl⟩

/-- Where every call overflows, with the failed `Init` and without it, the results
count as the same: both are undefined. -/
theorem overflow_alike (large : 2 ^ 31 ≤ queue.nTail + queue.nSize)
    (exceeds : 2 ^ 31 ≤ other.nTail + other.nSize) : AnswersAlike queue other := by
  apply Machine.Alike.of_related (fun low high =>
    (low = some queue ∧ high = some other) ∨ (low = none ∧ high = none))
  case next =>
      intro low high request related use
      rcases related with ⟨rfl, rfl⟩ | ⟨rfl, rfl⟩
      · exact .inr ⟨_, _, _, overflow_step large use, overflow_step exceeds use, .inr ⟨rfl, rfl⟩⟩
      · exact .inl ⟨rfl, rfl⟩
  case related => exact .inl ⟨rfl, rfl⟩

/-- The two kinds of queues that can be reached. -/
theorem Reached.form (reached : Reached queue) :
    (Flat queue ∧ 0 ≤ queue.nSize) ∨ ∃ capacity elements, Ring capacity queue elements := by
  induction reached with
  | new => exact .inl ⟨⟨rfl, rfl, by simp [empty], by simp [empty]⟩, le_rfl⟩
  | @init nSize start built =>
      obtain ⟨bounds, ⟨_, nonneg, _, rfl⟩ | ⟨unbuilt, _, _⟩⟩ := init_inv built
      case inr => cases unbuilt
      case inl =>
          by_cases several : 0 < nSize
          · right
            have represents := represents_of_init several.le rfl rfl built
            exact ⟨nSize.toNat, [], represents, by omega, by omega, fun _ => le_rfl⟩
          · exact .inl ⟨⟨rfl, rfl, by simp only; omega, by simp only; omega⟩, nonneg⟩
  | @use queue after request event _ use taken ih =>
      rcases ih with ⟨flat, nonneg⟩ | ⟨capacity, elements, ring⟩
      · rw [flat.step use] at taken
        cases taken
        exact .inl ⟨flat, nonneg⟩
      · by_cases sum : queue.nTail + queue.nSize < 2 ^ 31
        · obtain ⟨next, stored, moved, _, ring⟩ := ring.step sum use
          rw [moved] at taken
          cases taken
          exact .inr ⟨capacity, stored, ring⟩
        · rw [overflow_step (by omega) use] at taken
          cases taken

/-- A call on a reached queue answers, or its first sum overflows. -/
theorem Reached.step (reached : Reached queue) (use : uses request = true) :
    (∃ after response,
      (calls α).step (some queue) request = some (some after, request, .ok response) ∧
      Reached after) ∨
    (calls α).step (some queue) request = some (none, request, .error .overflow) := by
  rcases reached.form with ⟨flat, _⟩ | ⟨capacity, elements, ring⟩
  · exact .inl ⟨queue, _, flat.step use, reached⟩
  · by_cases sum : queue.nTail + queue.nSize < 2 ^ 31
    · obtain ⟨after, _, taken, _, _⟩ := ring.step sum use
      exact .inl ⟨after, _, taken, reached.use use taken⟩
    · exact .inr (overflow_step (by omega) use)

theorem inside_of_answer {result : Except Fault (Response α)}
    (answer : (∃ response, result = .ok response) ∨ result = .error .overflow) :
    result ≠ .error .nullArray ∧ result ≠ .error .outOfRange := by
  rcases answer with ⟨response, rfl⟩ | rfl
  · constructor <;> intro same <;> cases same
  · constructor <;> intro same <;> cases same

theorem Reached.inside (reached : Reached queue) {requests : List (Request α)}
    {events : List (Answered α)} {state : Option (CDMQueue α)}
    (use : ∀ request ∈ requests, uses request = true)
    (executed : (calls α).exec (some queue) requests = some (events, state)) :
    ∀ event ∈ events, event.2 ≠ .error .nullArray ∧ event.2 ≠ .error .outOfRange := by
  induction requests generalizing queue events with
  | nil =>
      cases executed
      intro _ member
      cases member
  | cons request requests ih =>
      have first := use request (List.mem_cons_self ..)
      have rest : ∀ request ∈ requests, uses request = true :=
        fun other member => use other (List.mem_cons_of_mem _ member)
      unfold Machine.exec at executed
      rcases reached.step first with ⟨after, response, taken, reached⟩ | taken
      · simp only [taken, Option.map_eq_some_iff] at executed
        obtain ⟨⟨later, last⟩, executed, same⟩ := executed
        cases same
        intro event member
        rcases List.mem_cons.mp member with rfl | member
        · exact inside_of_answer (.inl ⟨response, rfl⟩)
        · exact ih reached rest executed event member
      · cases requests with
        | nil =>
            simp only [taken, Machine.exec] at executed
            cases executed
            intro event member
            rcases List.mem_singleton.mp member with rfl
            exact inside_of_answer (.inr rfl)
        | cons =>
            simp only [taken, Machine.exec, calls_none] at executed
            cases executed

/-- The answer of one object is the answer of the other. -/
theorem answers_call (alike : AnswersAlike queue other) (use : uses request = true)
    {response : Response α}
    (taken : (calls α).step (some queue) request = some (some after, request, .ok response)) :
    ∃ next, onQueue other request = .ok (next, response) ∧ AnswersAlike after next := by
  obtain ⟨state, answered, alike⟩ := alike.step use taken
  obtain ⟨_, same, answers⟩ := calls_step answered
  cases same
  rcases answers with ⟨next, _, result, rfl, shown⟩ | ⟨_, _, _, shown⟩
  · cases shown
    exact ⟨next, result, alike⟩
  · cases shown

/-- Where one object overflows the other has no size to answer. -/
theorem overflow_unmeasured (alike : AnswersAlike queue other)
    (large : 2 ^ 31 ≤ queue.nTail + queue.nSize) (nUsed : Int) :
    distance other.nTail other.nSize other.nHead ≠ .ok nUsed := by
  intro measured
  obtain ⟨state, answered, _⟩ := alike.step rfl (@overflow_step α queue .getUsedSize large rfl)
  have result : onQueue other .getUsedSize = .ok (other, .count nUsed) := by
    simp only [onQueue, getUsedSize, measured]
    rfl
  rw [calls_ok result] at answered
  cases answered

/-- A ring and an object of another size, after calls that both answered alike. -/
structure Lockstep (capacity : Nat) (size : Int) (queue other : CDMQueue α)
    (elements : List (Option α)) : Prop where
  ring : Ring capacity queue elements
  size : other.nSize = size
  alike : AnswersAlike queue other

namespace Lockstep

variable {size : Int} (lockstep : Lockstep capacity size queue other elements)
  (sum : queue.nTail + queue.nSize < 2 ^ 31)

include lockstep sum

theorem measured : distance other.nTail size other.nHead = .ok (elements.length : Int) := by
  obtain ⟨after, stored, taken, kept, _⟩ := @Ring.step _ _ _ _ .getUsedSize lockstep.ring sum rfl
  obtain ⟨next, result, _⟩ := answers_call lockstep.alike rfl taken
  obtain ⟨used, measured, _, same⟩ := onQueue_getUsedSize result
  cases same
  rw [← lockstep.size]
  exact measured

/-- Both are full at the same time. -/
theorem full_iff : capacity ≤ elements.length ↔ size - 1 ≤ elements.length := by
  have fits := lockstep.ring.represents.fits
  have measured := lockstep.measured sum
  obtain ⟨after, stored, taken, kept, _⟩ :=
    @Ring.step _ _ _ _ (.pushBack none) lockstep.ring sum rfl
  obtain ⟨next, result, _⟩ := answers_call lockstep.alike rfl taken
  obtain ⟨ret, pushed, same⟩ := onQueue_pushBack result
  obtain ⟨nUsed, used, decided⟩ := pushBack_inv pushed
  rw [lockstep.size, measured] at used
  cases used
  rw [lockstep.size] at decided
  by_cases room : elements.length < capacity
  · simp only [BoundedQueue.respond, if_pos room] at same
    cases same
    rcases decided with ⟨refused, _⟩ | ⟨_, below, _⟩
    · cases refused
    · omega
  · simp only [BoundedQueue.respond, if_neg room] at same
    cases same
    rcases decided with ⟨_, above, _⟩ | ⟨accepted, _⟩
    · omega
    · cases accepted

theorem push (room : elements.length < capacity) :
    ∃ (after next : CDMQueue α) (stored : List (Option α)),
      Lockstep capacity size after next stored ∧
      stored.length = elements.length + 1 ∧ 1 < size ∧
      (after.nHead = queue.nHead ∧ after.nTail = (queue.nTail + 1).tmod queue.nSize) ∧
      next.nHead = other.nHead ∧ next.nTail = (other.nTail + 1).tmod size := by
  have measured := lockstep.measured sum
  obtain ⟨after, taken, ring, head, tail⟩ := lockstep.ring.push sum room none
  obtain ⟨next, result, alike⟩ := answers_call lockstep.alike rfl taken
  have same := onQueue_nSize rfl result
  obtain ⟨ret, pushed, answer⟩ := onQueue_pushBack result
  cases answer
  obtain ⟨nUsed, used, ⟨refused, _⟩ | ⟨_, below, _, _, rfl⟩⟩ := pushBack_inv pushed
  case inl => cases refused
  rw [lockstep.size, measured] at used
  cases used
  rw [lockstep.size] at below
  refine ⟨after, _, _, ⟨ring, same.trans lockstep.size, alike⟩, by simp, by omega,
    ⟨head, tail⟩, rfl, ?_⟩
  simp only [lockstep.size]

theorem pop (present : 0 < elements.length) :
    ∃ (after next : CDMQueue α) (stored : List (Option α)),
      Lockstep capacity size after next stored ∧
      stored.length + 1 = elements.length := by
  obtain ⟨after, stored, taken, kept, ring⟩ :=
    @Ring.step _ _ _ _ .popFront lockstep.ring sum rfl
  obtain ⟨next, result, alike⟩ := answers_call lockstep.alike rfl taken
  have same := onQueue_nSize rfl result
  refine ⟨after, next, stored, ⟨ring, same.trans lockstep.size, alike⟩, ?_⟩
  cases elements with
  | nil => cases present
  | cons ptr rest =>
      cases kept
      rfl

omit sum

/-- In a small ring every level can be reached by pushes alone or by pops alone. -/
theorem fill (small : capacity + 1 ≤ 2 ^ 30) {level : Nat} (fits : level ≤ capacity)
    (above : elements.length ≤ level) :
    ∃ (after next : CDMQueue α) (stored : List (Option α)),
      Lockstep capacity size after next stored ∧ stored.length = level := by
  generalize missing : level - elements.length = count
  induction count generalizing queue other elements with
  | zero => exact ⟨queue, other, elements, lockstep, by omega⟩
  | succ count ih =>
      have sum := lockstep.ring.represents.sum_lt small
      obtain ⟨after, next, stored, lockstep, grown, _⟩ := lockstep.push sum (by omega)
      exact ih lockstep (by omega) (by omega)

theorem drain (small : capacity + 1 ≤ 2 ^ 30) {level : Nat} (below : level ≤ elements.length) :
    ∃ (after next : CDMQueue α) (stored : List (Option α)),
      Lockstep capacity size after next stored ∧ stored.length = level := by
  generalize surplus : elements.length - level = count
  induction count generalizing queue other elements with
  | zero => exact ⟨queue, other, elements, lockstep, by omega⟩
  | succ count ih =>
      have sum := lockstep.ring.represents.sum_lt small
      obtain ⟨after, next, stored, lockstep, shrunk⟩ := lockstep.pop sum (by omega)
      exact ih lockstep (by omega) (by omega)

theorem size_eq_of_small (small : capacity + 1 ≤ 2 ^ 30) : size = capacity + 1 := by
  have several := lockstep.ring.several
  have fits := lockstep.ring.represents.fits
  -- a level at which exactly one of the two is full
  have reach : ∀ level : Nat, level ≤ capacity → (capacity ≤ level ↔ size - 1 ≤ level) := by
    intro level fits
    rcases Nat.le_total elements.length level with above | below
    · obtain ⟨_, _, _, reached, rfl⟩ := lockstep.fill small fits above
      exact reached.full_iff (reached.ring.represents.sum_lt small)
    · obtain ⟨_, _, _, reached, rfl⟩ := lockstep.drain small below
      exact reached.full_iff (reached.ring.represents.sum_lt small)
  have full := reach capacity le_rfl
  have room := reach (capacity - 1) (by omega)
  omega

/-- A push into a large ring: its tail does not wrap. -/
theorem push_large (large : 2 ^ 30 < capacity + 1) (sum : queue.nTail + queue.nSize < 2 ^ 31)
    (nonneg : 0 ≤ other.nTail) :
    ∃ (after next : CDMQueue α) (stored : List (Option α)),
      Lockstep capacity size after next stored ∧ 1 < size ∧
      (after.nHead = queue.nHead ∧ after.nTail = queue.nTail + 1) ∧
      next.nHead = other.nHead ∧ 0 ≤ next.nTail ∧ next.nTail ≤ other.nTail + 1 ∧
      (other.nTail + 1 < size → next.nTail = other.nTail + 1) := by
  have sizes := lockstep.ring.represents.size
  have head := lockstep.ring.represents.head.1
  have ordered := lockstep.ring.ordered large
  have apart := lockstep.ring.used_eq ordered
  obtain ⟨after, next, stored, following, _, several, ⟨sameHead, tail⟩, otherHead, otherTail⟩ :=
    lockstep.push sum (by omega)
  have below := Int.tmod_lt_of_pos (other.nTail + 1) (by omega : 0 < size)
  rw [Int.tmod_eq_of_lt (by omega) (by omega)] at tail
  refine ⟨after, next, stored, following, several, ⟨sameHead, tail⟩, otherHead, ?_, ?_, ?_⟩
  · rw [otherTail]
    exact Int.tmod_nonneg _ (by omega)
  · rw [otherTail]
    by_cases inside : other.nTail + 1 < size
    · rw [Int.tmod_eq_of_lt (by omega) inside]
    · omega
  · intro inside
    rw [otherTail]
    exact Int.tmod_eq_of_lt (by omega) inside

/-- In a large ring pushes lead to a first sum that is no `int`. The other object
gets there sooner if its size is larger and has not got there if it is smaller. -/
theorem size_eq_of_large (large : 2 ^ 30 < capacity + 1)
    (sum : queue.nTail + queue.nSize < 2 ^ 31) (nonneg : 0 ≤ other.nTail)
    (behind : other.nTail ≤ queue.nTail)
    (level : (capacity : Int) + 1 < size → other.nTail = queue.nTail)
    (heads : other.nHead = queue.nHead) : size = capacity + 1 := by
  generalize left : (2 ^ 31 - 1 - (queue.nTail + queue.nSize)).toNat = count
  induction count generalizing queue other elements with
  | zero =>
      have sizes := lockstep.ring.represents.size
      have head := lockstep.ring.represents.head.1
      have ordered := lockstep.ring.ordered large
      have bounds := distance_bounds (lockstep.measured sum)
      obtain ⟨after, next, stored, following, several, moved, same, low, high, _⟩ :=
        lockstep.push_large large sum nonneg
      by_contra differs
      have smaller : size < capacity + 1 := by
        by_contra above
        have same := level (by omega)
        omega
      have otherSize := following.size
      have kept := following.ring.represents.size
      obtain ⟨nUsed, measured⟩ := @distance_defined next.nTail next.nSize next.nHead
        (by omega) (by omega) (by omega)
      exact overflow_unmeasured following.alike (by omega) nUsed measured
  | succ count ih =>
      have sizes := lockstep.ring.represents.size
      obtain ⟨after, next, stored, following, _, moved, same, low, high, inside⟩ :=
        lockstep.push_large large sum nonneg
      have kept := following.ring.represents.size
      apply ih following
      case sum => omega
      case nonneg => exact low
      case behind => omega
      case level =>
          intro larger
          have tails := level larger
          have next := inside (by omega)
          omega
      case heads => omega
      case left => omega

end Lockstep

theorem Ring.size_eq (ring : Ring capacity queue elements)
    (sum : queue.nTail + queue.nSize < 2 ^ 31) {size : Int}
    (alike : AnswersAlike queue { queue with nSize := size }) : size = capacity + 1 := by
  have lockstep : Lockstep capacity size queue { queue with nSize := size } elements :=
    ⟨ring, rfl, alike⟩
  by_cases small : capacity + 1 ≤ 2 ^ 30
  · exact lockstep.size_eq_of_small small
  · have tail := ring.represents.tail_bound.1
    exact lockstep.size_eq_of_large (by omega) sum tail le_rfl (fun _ => rfl) rfl

theorem Flat.size_le (flat : Flat queue) {size : Int} (high : size < 2 ^ 31)
    (alike : AnswersAlike queue { queue with nSize := size }) : size ≤ 1 := by
  by_contra several
  have taken := @Flat.step _ _ (.pushBack none) flat rfl
  obtain ⟨next, result, _⟩ := answers_call alike rfl taken
  obtain ⟨ret, pushed, same⟩ := onQueue_pushBack result
  cases same
  obtain ⟨nUsed, measured, ⟨_, full, _⟩ | ⟨accepted, _⟩⟩ := pushBack_inv pushed
  case inr => cases accepted
  case inl =>
      simp only [flat.head, flat.tail] at measured full
      have whole : ((size.toNat : Nat) : Int) = size := Int.toNat_of_nonneg (by omega)
      have nothing := @distance_value size.toNat 0 0 (by omega) (by omega) nUsed
        (by rw [whole, Nat.zero_add, Nat.zero_mod]; exact measured)
      omega

theorem Unnoticed.of_alike (reached : Reached queue) (alike : AnswersAlike queue after) :
    Unnoticed queue after := by
  refine ⟨alike, ?_⟩
  intro requests events state use executed
  have same := alike requests use
  rw [executed, Option.map_some, Option.map_eq_some_iff] at same
  obtain ⟨⟨shown, last⟩, unfailed, rfl⟩ := same
  exact reached.inside use unfailed

/-- An `Init(n)` that throws goes unnoticed exactly if it stored the size that was
there, if the queue had at most one cell and gets no second one, or if every
later call overflows in any case; a call that is undefined with and without the
`Init` counts as the same result. -/
theorem failed_init_unnoticed_iff {allocates : Bool} (reached : Reached queue)
    (argument : -2 ^ 31 ≤ nSize) (failed : queue.init nSize allocates = .ok (after, none)) :
    Unnoticed queue after ↔
      nSize + 1 = queue.nSize ∨ (queue.nSize ≤ 1 ∧ nSize ≤ 0) ∨
        (2 ^ 31 ≤ queue.nTail + queue.nSize ∧ 2 ^ 31 ≤ queue.nTail + (nSize + 1)) := by
  obtain ⟨bounds, ⟨built, _⟩ | ⟨_, _, rfl⟩⟩ := init_inv failed
  case inl => cases built
  constructor
  · intro unnoticed
    have alike := unnoticed.alike
    rcases reached.form with ⟨flat, _⟩ | ⟨capacity, elements, ring⟩
    · have most := flat.size_le bounds.2 alike
      exact .inr (.inl ⟨flat.high, by omega⟩)
    · by_cases sum : queue.nTail + queue.nSize < 2 ^ 31
      · have same := ring.size_eq sum alike
        exact .inl (same.trans ring.represents.size.symm)
      · have head := ring.represents.head.1
        have tail := ring.represents.tail_bound
        have bound := ring.bound
        have large : 2 ^ 30 < capacity + 1 := by
          by_contra small
          exact sum (ring.represents.sum_lt (by omega))
        have ordered := ring.ordered large
        refine .inr (.inr ⟨by omega, ?_⟩)
        by_contra defined
        obtain ⟨nUsed, measured⟩ := @distance_defined queue.nTail (nSize + 1) queue.nHead
          (by omega) (by omega) (by omega)
        exact overflow_unmeasured alike (by omega) nUsed measured
  · intro condition
    apply Unnoticed.of_alike reached
    rcases condition with same | ⟨most, nothing⟩ | ⟨large, exceeds⟩
    · rw [same]
      exact Machine.Alike.refl _ _
    · rcases reached.form with ⟨flat, _⟩ | ⟨capacity, elements, ring⟩
      · exact flat.alike ⟨flat.head, flat.tail, by simp only; omega, by simp only; omega⟩
      · have several := ring.several
        have size := ring.represents.size
        omega
    · exact overflow_alike large exceeds

/-- A new queue does not notice a failed `Init(0)`; it does notice `Init(5)`. -/
theorem failed_init_unnoticed_iff_new :
    Unnoticed (empty : CDMQueue Nat) ⟨none, 0, 0, 1⟩ ∧
      ¬Unnoticed (empty : CDMQueue Nat) ⟨none, 0, 0, 6⟩ := by
  have none_new : (empty : CDMQueue Nat).init 0 false = .ok (⟨none, 0, 0, 1⟩, none) := by decide
  have five_new : (empty : CDMQueue Nat).init 5 false = .ok (⟨none, 0, 0, 6⟩, none) := by decide
  have unnoticed := failed_init_unnoticed_iff .new (by decide) none_new
  have noticed := failed_init_unnoticed_iff .new (by decide) five_new
  constructor
  · exact unnoticed.mpr (by decide)
  · exact fun seen => absurd (noticed.mp seen) (by decide)

/-- A new queue on which `Init(5)` throws: the next push writes to a null array. -/
theorem push_after_failed_init :
    Reached (empty : CDMQueue Nat) ∧
      (empty : CDMQueue Nat).init 5 false = .ok (⟨none, 0, 0, 6⟩, none) ∧
      (empty : CDMQueue Nat).pushBack (some 7) = .ok (empty, false) ∧
      (⟨none, 0, 0, 6⟩ : CDMQueue Nat).pushBack (some 7) = .error .nullArray :=
  ⟨.new, by decide, by decide, by decide⟩

end DmLockFree.CDMQueue
