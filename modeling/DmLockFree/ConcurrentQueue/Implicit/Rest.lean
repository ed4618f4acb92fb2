import DmLockFree.ConcurrentQueue.Implicit.Safety

/-! How many elements and blocks an `ImplicitProducer` has. -/

set_option autoImplicit false

namespace DmLockFree.ConcurrentQueue.ImplicitProducer

open Library Program

variable {Consumer T : Type} [DecidableEq Consumer] {maxSubqueueSize : UInt64} {allocated : Bool}
  {events : List (Event Consumer T)} {state : State Consumer T}

section Blocks

variable {ghost : Ghost Consumer T} {producer : ImplicitProducer T} {number : Nat}

omit [DecidableEq Consumer]

end Blocks

theorem MAX_SUBQUEUE_SIZE_toNat (limited : maxSubqueueSize.toNat + 32 < 2 ^ 64) :
    (MAX_SUBQUEUE_SIZE maxSubqueueSize).toNat = (maxSubqueueSize.toNat + 31) / 32 * 32 := by
  have top : (0xFFFFFFFFFFFFFFFF : UInt64).toNat = 2 ^ 64 - 1 := by decide
  have size : BLOCK_SIZE.toNat = 32 := rfl
  have room : ¬ 0xFFFFFFFFFFFFFFFF - maxSubqueueSize < BLOCK_SIZE := by
    rw [UInt64.lt_iff_toNat_lt, UInt64.toNat_sub, top, size]
    omega
  rw [MAX_SUBQUEUE_SIZE, if_neg room, UInt64.toNat_mul, UInt64.toNat_div, UInt64.toNat_add]
  change (maxSubqueueSize.toNat + 31) % 2 ^ 64 / 32 * 32 % 2 ^ 64 = _
  omega

/-- The producer never has more elements than its limit. -/
theorem size_limited
    (run : ((program Consumer T (MAX_SUBQUEUE_SIZE maxSubqueueSize)).machine
      (construct T allocated)).Run events state)
    (timely : Timely events) (limited : maxSubqueueSize.toNat + 32 < 2 ^ 64) :
    (accepted events).length ≤ taken events + (maxSubqueueSize.toNat + 31) / 32 * 32 := by
  have size := MAX_SUBQUEUE_SIZE_toNat limited
  have least : MAX_SUBQUEUE_SIZE maxSubqueueSize ≠ 0xFFFFFFFFFFFFFFFF := by
    intro most
    have top : (0xFFFFFFFFFFFFFFFF : UInt64).toNat = 2 ^ 64 - 1 := by decide
    rw [most, top] at size
    omega
  obtain ⟨room, _⟩ := run_room (limits_size least (by rw [size]; omega)) run timely
  rw [run_accepted run, ← size]
  omega

/-- A limit of 20 elements is one block: the 33rd `enqueue` is refused. -/
def filling : List (Threads.Label (Thread Bool) (Call Nat)) :=
  .call .producer (.enqueue ⟨0, .canAlloc, true, some 4⟩) :: List.replicate 10 (.run .producer) ++
  (List.range 31).flatMap (fun value => .call .producer (.enqueue ⟨value, .canAlloc, true, none⟩) ::
    List.replicate 3 (.run .producer)) ++
  .call .producer (.enqueue ⟨99, .canAlloc, true, some 5⟩) :: List.replicate 2 (.run .producer)

def fillingEvents : List (Event Bool Nat) :=
  ((((program Bool Nat (MAX_SUBQUEUE_SIZE 20)).machine (construct Nat true)).exec
    ((program Bool Nat (MAX_SUBQUEUE_SIZE 20)).machine (construct Nat true)).start filling).map
      Prod.fst).getD []

theorem filling_run : ∃ state,
    ((program Bool Nat (MAX_SUBQUEUE_SIZE 20)).machine (construct Nat true)).Run fillingEvents
      state := by
  have done : (((program Bool Nat (MAX_SUBQUEUE_SIZE 20)).machine (construct Nat true)).exec
      ((program Bool Nat (MAX_SUBQUEUE_SIZE 20)).machine (construct Nat true)).start
      filling).isSome = true := by decide +kernel
  obtain ⟨⟨events, state⟩, executed⟩ := Option.isSome_iff_exists.mp done
  have same : fillingEvents = events := by simp only [fillingEvents, executed]; rfl
  rw [same]
  exact ⟨state, Machine.exec_run _ filling executed⟩

/-- Of 33 calls that have returned, 32 have enqueued their element. -/
theorem size_limited_filling :
    (fillingEvents.filterMap fun event => event.output.bind Output.returned).length = 33 ∧
      (accepted fillingEvents).length = 32 ∧
      (accepted fillingEvents).length ≤
        taken fillingEvents + ((20 : UInt64).toNat + 31) / 32 * 32 := by
  obtain ⟨state, run⟩ := filling_run
  have timely : Timely fillingEvents := .of_check (by decide +kernel)
  exact ⟨by decide +kernel, by decide +kernel, size_limited run timely (by decide)⟩

section Size

variable {first last : State Consumer T} {between : List (Event Consumer T)}

omit [DecidableEq Consumer] in
theorem taken_mono (events between : List (Event Consumer T)) :
    taken events ≤ taken (events ++ between) := by
  rw [taken, taken, count, count, List.map_append, List.sum_append]
  exact Nat.le_add_right ..

omit [DecidableEq Consumer] in
theorem accepted_mono (events between : List (Event Consumer T)) :
    (accepted events).length ≤ (accepted (events ++ between)).length := by
  rw [accepted, accepted, List.filterMap_append, List.length_append]
  exact Nat.le_add_right ..

/-- `size_approx` loads the tail and then the head. It never shows more elements than
there are at any moment in between, and if nothing happens, it shows their number. -/
theorem sizeApprox_le
    (before : ((program Consumer T maxSubqueueSize).machine (construct T allocated)).Run events
      first)
    (path : ((program Consumer T maxSubqueueSize).machine (construct T allocated)).Path first
      between last)
    (timely : Timely (events ++ between))
    (few : taken (events ++ between) < taken events + 2 ^ 63) :
    (∀ some rest, between = some ++ rest →
      (sizeApprox first.shared.tailIndex last.shared.headIndex).toNat ≤
        (accepted (events ++ some)).length - taken (events ++ some)) ∧
      (between = [] → (sizeApprox first.shared.tailIndex last.shared.headIndex).toNat =
        (accepted events).length - taken events) := by
  have run := before.trans path
  have accounts := run_accounts before timely.before .producer
  have later := run_accounts run timely .producer
  have room := accounts.room
  have ordered := accounts.ordered
  have more := taken_mono events between
  have size : (sizeApprox first.shared.tailIndex last.shared.headIndex).toNat =
      (accepted events).length - taken (events ++ between) := by
    rw [accounts.tail, later.head, run_accepted before, sizeApprox]
    split
    case isTrue less =>
        rw [circularLessThan_iff (by omega) (by omega)] at less
        rw [UInt64.toNat_sub, UInt64.toNat_ofNat', UInt64.toNat_ofNat']
        omega
    case isFalse whole =>
        rw [circularLessThan_iff (by omega) (by omega)] at whole
        change 0 = _
        omega
  refine ⟨fun some rest whole => ?_, fun nothing => ?_⟩
  · have grows := accepted_mono events some
    have takes := taken_mono (events ++ some) rest
    rw [List.append_assoc, ← whole] at takes
    omega
  · rw [size, nothing, List.append_nil]

theorem sizeApprox_le_overtaking : ∃ first last : State Bool Nat,
    ((program Bool Nat (MAX_SUBQUEUE_SIZE 32)).machine (construct Nat true)).Path first
      (overtakingEvents.drop 32) last ∧
    ∀ some rest, overtakingEvents.drop 32 = some ++ rest →
      (sizeApprox first.shared.tailIndex last.shared.headIndex).toNat ≤
        (accepted (overtakingEvents.take 32 ++ some)).length -
          taken (overtakingEvents.take 32 ++ some) := by
  obtain ⟨last, run, _⟩ := overtaking_run
  have timely := overtaking_timely
  rw [← List.take_append_drop 32 overtakingEvents] at run timely
  obtain ⟨first, before, path⟩ := run.split
  exact ⟨first, last, path, (sizeApprox_le before path timely (by decide +kernel)).1⟩

end Size

end DmLockFree.ConcurrentQueue.ImplicitProducer
