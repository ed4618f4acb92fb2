import DmLockFree.KFifo.Sequential

/-! `KFifo` and `AtomicKFifo`, used by one thread, refine a bounded first-in
first-out queue of bytes, over call sequences of any length. -/

set_option autoImplicit false

namespace DmLockFree

open Library AtomicKFifo

/-- What the fifos are for. The counts fit their 32 bits because no capacity
exceeds 2 ^ 31. -/
def ByteQueue.respond (capacity : Nat) (bytes : List UInt8) : Call → List UInt8 × Return
  | .put data len =>
      let count := min len.toNat (capacity - bytes.length)
      (bytes ++ data.take count, .put data (.ofNat count))
  | .read kind data len =>
      let count := min len.toNat bytes.length
      (match kind with
        | .get => bytes.drop count
        | .peek => bytes,
        .read kind (bytes.take count ++ data.drop count) (.ofNat count))
  | .observe .isEmpty | .isEmptyOutFirst => (bytes, .flag .isEmpty (decide (bytes.length = 0)))
  | .observe .isFull => (bytes, .flag .isFull (decide (bytes.length = capacity)))
  | .observe .len => (bytes, .count .len (.ofNat bytes.length))
  | .observe .avail => (bytes, .count .avail (.ofNat (capacity - bytes.length)))
  | .reset => ([], .reset)

def byteQueue (capacity : Nat) : Machine (List UInt8) Call Return where
  start := []
  step bytes call := some (ByteQueue.respond capacity bytes call)

/-- One thread and one object, call by call. -/
def KFifo.machine (fifo : KFifo) : Machine KFifo Call Return := ⟨fifo, KFifo.call⟩

def AtomicKFifo.alone (fifo : AtomicKFifo) : Machine AtomicKFifo Call Return :=
  ⟨fifo, AtomicKFifo.call⟩

/-- The object holds the bytes, whatever the history of its indices. -/
def AtomicKFifo.Stores (exponent : Nat) (fifo : AtomicKFifo) (bytes : List UInt8) : Prop :=
  ∃ stream out, Sound exponent stream out fifo ∧ bytes = stream.drop out

section Calls

variable {exponent : Nat} {fifo : AtomicKFifo} {bytes : List UInt8}

theorem AtomicKFifo.Sound.stored_length {stream : List UInt8} {out : Nat}
    (sound : Sound exponent stream out fifo) :
    (fifo.inIdx - fifo.outIdx).toNat = (stream.drop out).length := by
  rw [sound.dataLen sound.outIdx, List.length_drop]

theorem AtomicKFifo.Sound.free_length {stream : List UInt8} {out : Nat}
    (sound : Sound exponent stream out fifo) :
    (fifo.capacity - (fifo.inIdx - fifo.outIdx)).toNat =
      2 ^ exponent - (stream.drop out).length := by
  rw [sound.freeSpace sound.inIdx, List.length_drop]

theorem AtomicKFifo.Stores.put (stores : Stores exponent fifo bytes) {data : List UInt8}
    {len : UInt32} (supplied : len.toNat ≤ data.length) :
    ∃ after, fifo.call (.put data len) =
        some (after, (ByteQueue.respond (2 ^ exponent) bytes (.put data len)).2) ∧
      Stores exponent after (ByteQueue.respond (2 ^ exponent) bytes (.put data len)).1 := by
  obtain ⟨stream, out, sound, rfl⟩ := stores
  have actual : (min len (fifo.capacity - (fifo.inIdx - fifo.outIdx))).toNat =
      min len.toNat (2 ^ exponent - (stream.drop out).length) := by
    rw [UInt32.toNat_min', sound.free_length]
  simp only [ByteQueue.respond, ← actual, UInt32.ofNat_toNat]
  rw [call_put]
  by_cases nothing : min len (fifo.capacity - (fifo.inIdx - fifo.outIdx)) = 0
  · rw [if_pos nothing, nothing]
    exact ⟨fifo, rfl, stream, out, sound, by simp⟩
  · have ordered := sound.ordered
    have bounded := sound.bounded
    rw [List.length_drop] at actual
    have writing : Writing exponent stream out fifo.buffer
        ⟨data, len, fifo.inIdx, min len (fifo.capacity - (fifo.inIdx - fifo.outIdx))⟩ 0 :=
      ⟨sound.inIdx, by simp only [actual]; omega, supplied, by simp only [actual]; omega,
        Nat.zero_le _, fun offset below => absurd below (Nat.not_lt_zero offset)⟩
    obtain ⟨after, result, kept⟩ := sound.putCopy writing
    rw [if_neg nothing]
    exact ⟨after, result, _, out, kept, (List.drop_append_of_le_length ordered).symm⟩

theorem AtomicKFifo.Stores.read (stores : Stores exponent fifo bytes) {data : List UInt8}
    {len : UInt32} (supplied : len.toNat ≤ data.length) (kind : Read) :
    ∃ after, fifo.call (.read kind data len) =
        some (after, (ByteQueue.respond (2 ^ exponent) bytes (.read kind data len)).2) ∧
      Stores exponent after (ByteQueue.respond (2 ^ exponent) bytes (.read kind data len)).1 := by
  obtain ⟨stream, out, sound, rfl⟩ := stores
  have actual : (min len (fifo.inIdx - fifo.outIdx)).toNat =
      min len.toNat (stream.drop out).length := by
    rw [UInt32.toNat_min', sound.stored_length]
  simp only [ByteQueue.respond, ← actual, UInt32.ofNat_toNat]
  rw [call_read]
  by_cases nothing : min len (fifo.inIdx - fifo.outIdx) = 0
  · rw [if_pos nothing, nothing]
    refine ⟨fifo, by simp, stream, out, sound, ?_⟩
    cases kind <;> simp
  · have ordered := sound.ordered
    rw [List.length_drop] at actual
    have reading : Reading stream out
        ⟨data, len, fifo.outIdx, min len (fifo.inIdx - fifo.outIdx)⟩ 0 :=
      ⟨sound.outIdx, by simp only [actual]; omega, supplied, by simp only [actual]; omega,
        Nat.zero_le _, fun offset below => absurd below (Nat.not_lt_zero offset)⟩
    rw [if_neg nothing, sound.readCopy reading kind]
    refine ⟨_, rfl, ?_⟩
    cases kind with
    | get =>
        refine ⟨stream, _, sound.deliver reading, ?_⟩
        rw [List.drop_drop]
    | peek => exact ⟨stream, out, sound, rfl⟩

theorem AtomicKFifo.Stores.observe (stores : Stores exponent fifo bytes) (observer : Observer) :
    observer.result fifo fifo.inIdx fifo.outIdx =
      (ByteQueue.respond (2 ^ exponent) bytes (.observe observer)).2 := by
  obtain ⟨stream, out, sound, rfl⟩ := stores
  have stored := sound.stored_length
  have free := sound.free_length
  cases observer with
  | isEmpty =>
      have word := sound.shape.word
      have ordered := sound.ordered
      have bounded := sound.bounded
      have empty : fifo.inIdx = fifo.outIdx ↔ (stream.drop out).length = 0 := by
        rw [sound.inIdx.eq_iff sound.outIdx ordered (by omega), List.length_drop]
        omega
      simp [Observer.result, ByteQueue.respond, empty, beq_eq_decide]
  | isFull =>
      have full : fifo.inIdx - fifo.outIdx = fifo.capacity ↔
          (stream.drop out).length = 2 ^ exponent := by
        rw [← UInt32.toNat_inj, stored, sound.shape.capacity]
      simp [Observer.result, ByteQueue.respond, full, beq_eq_decide]
  | len => simp only [Observer.result, ByteQueue.respond, ← stored, UInt32.ofNat_toNat]
  | avail => simp only [Observer.result, ByteQueue.respond, ← free, UInt32.ofNat_toNat]

/-- Every member function answers as the byte queue does. -/
theorem AtomicKFifo.Stores.call (stores : Stores exponent fifo bytes) {request : Call}
    (supplied : request.Supplied) :
    ∃ after, fifo.call request =
        some (after, (ByteQueue.respond (2 ^ exponent) bytes request).2) ∧
      Stores exponent after (ByteQueue.respond (2 ^ exponent) bytes request).1 := by
  cases request with
  | put data len => exact stores.put supplied
  | read kind data len => exact stores.read supplied kind
  | observe observer =>
      refine ⟨fifo, ?_, by cases observer <;> exact stores⟩
      rw [← stores.observe observer]
      rfl
  | isEmptyOutFirst =>
      refine ⟨fifo, ?_, stores⟩
      have answer := stores.observe .isEmpty
      simp only [ByteQueue.respond] at answer ⊢
      rw [← answer]
      rfl
  | reset =>
      obtain ⟨stream, out, sound, _⟩ := stores
      have shape := sound.shape
      exact ⟨{ fifo with inIdx := 0, outIdx := 0 }, rfl, [], 0,
        ⟨⟨shape.low, shape.high, shape.capacity, shape.mask, shape.buffer⟩, .zero, .zero,
          le_rfl, Nat.zero_le _, fun index _ below => absurd below (Nat.not_lt_zero index)⟩, rfl⟩

end Calls

theorem AtomicKFifo.construct_stores {requestedCapacity : UInt32} {fifo : AtomicKFifo}
    (built : AtomicKFifo.construct requestedCapacity = some fifo) :
    ∃ exponent, Stores exponent fifo [] ∧ fifo.capacity.toNat = 2 ^ exponent := by
  obtain ⟨⟨exponent, shape⟩, inIdx, outIdx⟩ := construct_shape built
  refine ⟨exponent, ⟨[], 0, ⟨shape, ?_, ?_, le_rfl, Nat.zero_le _,
    fun index _ below => absurd below (Nat.not_lt_zero index)⟩, rfl⟩, shape.capacity⟩
  · rw [inIdx]; exact .zero
  · rw [outIdx]; exact .zero

theorem KFifo.call_stores {exponent : Nat} {fifo : KFifo} {bytes : List UInt8} {request : Call}
    (stores : Stores exponent fifo.atomic bytes) (supplied : request.Supplied) :
    ∃ after, fifo.call request =
        some (after, (ByteQueue.respond (2 ^ exponent) bytes request).2) ∧
      fifo.atomic.call request =
        some (after.atomic, (ByteQueue.respond (2 ^ exponent) bytes request).2) ∧
      Stores exponent after.atomic (ByteQueue.respond (2 ^ exponent) bytes request).1 := by
  obtain ⟨last, result, kept⟩ := stores.call supplied
  have same := fifo.call_atomic request
  rw [result, eq_comm, Option.map_eq_some_iff] at same
  obtain ⟨⟨after, returned⟩, called, equal⟩ := same
  cases equal
  exact ⟨after, called, result, kept⟩

/-- Every sequence of calls with buffers of the stated sizes comes to its end. -/
theorem KFifo.exec_stores {exponent : Nat} {fifo low : KFifo} {bytes : List UInt8}
    {calls : List Call} (stores : Stores exponent low.atomic bytes)
    (supplied : ∀ request ∈ calls, request.Supplied) :
    ∃ returns after rest, fifo.machine.exec low calls = some (returns, after) ∧
      (byteQueue (2 ^ exponent)).exec bytes calls = some (returns, rest) ∧
      Stores exponent after.atomic rest :=
  @Machine.exec_simulates _ _ _ _ fifo.machine (byteQueue (2 ^ exponent))
    (fun low bytes => Stores exponent low.atomic bytes) Call.Supplied
    (fun stored supplied => by
      obtain ⟨after, called, _, kept⟩ := KFifo.call_stores stored supplied
      exact ⟨after, _, _, called, rfl, kept⟩)
    calls low bytes stores supplied

/-- For every capacity the constructor takes and every sequence of calls with
buffers of the stated sizes, both classes return what the byte queue of
`capacity()` bytes returns, and no copy leaves an array. -/
theorem fifos_refine_byteQueue {requestedCapacity : UInt32} (positive : 0 < requestedCapacity) :
    ∃ fifo, KFifo.construct requestedCapacity = some fifo ∧
      AtomicKFifo.construct requestedCapacity = some fifo.atomic ∧
      ∀ calls : List Call, (∀ request ∈ calls, request.Supplied) →
        ∃ returns after bytes, fifo.machine.exec fifo calls = some (returns, after) ∧
          fifo.atomic.alone.exec fifo.atomic calls = some (returns, after.atomic) ∧
          (byteQueue fifo.capacity.toNat).exec [] calls = some (returns, bytes) := by
  obtain ⟨fifo, built⟩ := KFifo.construct_exists positive
  have builtAtomic := KFifo.construct_atomic requestedCapacity
  rw [built, Option.map_some] at builtAtomic
  refine ⟨fifo, built, builtAtomic, fun calls supplied => ?_⟩
  obtain ⟨exponent, stores, capacity⟩ := construct_stores builtAtomic
  obtain ⟨returns, after, bytes, result, answers, _⟩ :=
    @KFifo.exec_stores exponent fifo fifo [] calls stores supplied
  obtain ⟨returns', after', last, result', atomicResult, rfl, _⟩ :=
    @Machine.exec_simulates _ _ _ _ fifo.machine fifo.atomic.alone
      (fun low high => high = low.atomic ∧ ∃ bytes, Stores exponent low.atomic bytes) Call.Supplied
      (fun {low high label} related supplied => by
        obtain ⟨rfl, bytes, stored⟩ := related
        obtain ⟨after, called, atomicCalled, kept⟩ := KFifo.call_stores stored supplied
        exact ⟨after, after.atomic, _, called, atomicCalled, rfl, _, kept⟩)
      calls fifo fifo.atomic ⟨rfl, [], stores⟩ supplied
  rw [result] at result'
  cases result'
  exact ⟨returns, after, bytes, result, atomicResult, by rwa [← capacity] at answers⟩

/-- Three puts into two cells, across the end of the ring. -/
def wrapping : List Call :=
  [.put [1, 2, 3] 3, .read .get [0] 1, .put [4, 5] 2, .read .peek [0, 0] 2, .observe .isFull,
    .read .get [0, 0, 9] 3, .observe .isEmpty]

theorem fifos_refine_byteQueue_wrapping :
    ∃ fifo returns after, KFifo.construct 1 = some fifo ∧
      fifo.machine.exec fifo wrapping = some (returns, after) ∧
      returns = [.put [1, 2, 3] 2, .read .get [1] 1, .put [4, 5] 1, .read .peek [2, 4] 2,
        .flag .isFull true, .read .get [2, 4, 9] 2, .flag .isEmpty true] := by
  obtain ⟨fifo, built, _, refines⟩ := fifos_refine_byteQueue (by decide : (0 : UInt32) < 1)
  obtain ⟨returns, after, bytes, result, _, answers⟩ := refines wrapping (by decide)
  refine ⟨fifo, returns, after, built, result, ?_⟩
  have capacity : KFifo.construct 1 = some ⟨[0, 0], 2, 1, 0, 0⟩ := by decide
  rw [built] at capacity
  cases capacity
  cases answers
  rfl

end DmLockFree
