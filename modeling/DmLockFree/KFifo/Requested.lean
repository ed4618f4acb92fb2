import DmLockFree.KFifo.Refinement

/-! The capacity that the fifos give for the one requested. The round-up is
computed in 32 bits, where requests above `2 ^ 31` have no power of two. -/

set_option autoImplicit false

namespace DmLockFree

open Library AtomicKFifo

/-- Both classes are built with the least power of two that covers the request,
and take that many bytes at once. -/
def MeetsRequest (requestedCapacity : UInt32) : Prop :=
  ∃ fifo, KFifo.construct requestedCapacity = some fifo ∧
    AtomicKFifo.construct requestedCapacity = some fifo.atomic ∧
    IsLeast {power | (∃ exponent, power = 2 ^ exponent) ∧ max 2 requestedCapacity.toNat ≤ power}
      fifo.capacity.toNat ∧
    ∀ data : List UInt8, requestedCapacity.toNat ≤ data.length →
      ∃ after, fifo.call (.put data requestedCapacity) =
          some (after, .put data requestedCapacity) ∧
        fifo.atomic.call (.put data requestedCapacity) =
          some (after.atomic, .put data requestedCapacity)

theorem construct_capacity {requestedCapacity capacity : UInt32}
    (chosen : KFifo.chosenCapacity requestedCapacity = some capacity) :
    ∃ fifo, KFifo.construct requestedCapacity = some fifo ∧
      AtomicKFifo.construct requestedCapacity = some fifo.atomic ∧ fifo.capacity = capacity := by
  have built : KFifo.construct requestedCapacity =
      some ⟨List.replicate capacity.toNat 0, capacity, capacity - 1, 0, 0⟩ := by
    rw [KFifo.construct, chosen, Option.map_some]
  refine ⟨_, built, ?_, rfl⟩
  rw [KFifo.construct_atomic, built, Option.map_some]

/-- A put into a new fifo that has the room is taken whole. -/
theorem KFifo.put_whole {requestedCapacity len : UInt32} {fifo : KFifo} {data : List UInt8}
    (built : AtomicKFifo.construct requestedCapacity = some fifo.atomic)
    (room : len.toNat ≤ fifo.capacity.toNat) (supplied : len.toNat ≤ data.length) :
    ∃ after, fifo.call (.put data len) = some (after, .put data len) ∧
      fifo.atomic.call (.put data len) = some (after.atomic, .put data len) := by
  obtain ⟨exponent, stores, capacity⟩ := construct_stores built
  obtain ⟨after, result, atomicResult, _⟩ :=
    @KFifo.call_stores exponent fifo [] (.put data len) stores supplied
  have whole : min len.toNat (2 ^ exponent - 0) = len.toNat := by
    rw [Nat.sub_zero, ← capacity]
    exact Nat.min_eq_left room
  simp only [ByteQueue.respond, List.length_nil, whole, UInt32.ofNat_toNat] at result atomicResult
  exact ⟨after, result, atomicResult⟩

/-- The constructors meet a request exactly up to `2 ^ 31` bytes. -/
theorem meets_request_iff {requestedCapacity : UInt32} (positive : 0 < requestedCapacity) :
    MeetsRequest requestedCapacity ↔ requestedCapacity.toNat ≤ 2 ^ 31 := by
  have nonzero : requestedCapacity ≠ 0 := by
    intro same
    subst same
    exact absurd positive (by decide)
  constructor
  · intro meets
    by_contra above
    obtain ⟨fifo, built, _, least, _⟩ := meets
    have wraps := @KFifo.chosenCapacity_wraps requestedCapacity (by omega)
    obtain ⟨small, built', _, capacity⟩ := construct_capacity wraps
    rw [built] at built'
    cases built'
    have covers := least.1.2
    rw [capacity] at covers
    have two : (2 : UInt32).toNat = 2 := rfl
    omega
  · intro fits
    obtain ⟨capacity, chosen, value⟩ := KFifo.chosenCapacity_toNat nonzero fits
    obtain ⟨fifo, built, builtAtomic, rfl⟩ := construct_capacity chosen
    have least := isLeast_two_pow_size (by omega : 0 < max 2 requestedCapacity.toNat)
    rw [← value] at least
    refine ⟨fifo, built, builtAtomic, least, ?_⟩
    intro data supplied
    exact KFifo.put_whole builtAtomic ((le_max_right _ _).trans least.1.2) supplied

/-- Three bytes are met by four; the first request that is not met. -/
theorem meets_request_iff_bounds : MeetsRequest 3 ∧ ¬MeetsRequest 2147483649 :=
  ⟨(meets_request_iff (by decide)).mpr (by decide),
    fun meets => absurd ((meets_request_iff (by decide)).mp meets) (by decide)⟩

/-- A request for `2 ^ 31 + 1` bytes is accepted with a capacity of two. -/
theorem request_wraps :
    ∃ fifo, KFifo.construct 2147483649 = some fifo ∧
      AtomicKFifo.construct 2147483649 = some fifo.atomic ∧ fifo.capacity = 2 ∧
      ∀ data : List UInt8, 2147483649 ≤ data.length →
        ∃ after, fifo.call (.put data 2147483649) = some (after, .put data 2) ∧
          fifo.atomic.call (.put data 2147483649) = some (after.atomic, .put data 2) := by
  have chosen : KFifo.chosenCapacity 2147483649 = some 2 := by decide
  obtain ⟨fifo, built, builtAtomic, capacity⟩ := construct_capacity chosen
  refine ⟨fifo, built, builtAtomic, capacity, ?_⟩
  intro data supplied
  obtain ⟨exponent, stores, power⟩ := construct_stores builtAtomic
  obtain ⟨after, result, atomicResult, _⟩ :=
    @KFifo.call_stores exponent fifo [] (.put data 2147483649) stores supplied
  have two : 2 ^ exponent = 2 := by
    rw [← power]
    exact congrArg UInt32.toNat capacity
  rw [two] at result atomicResult
  exact ⟨after, result, atomicResult⟩

end DmLockFree
