import DmLockFree.KFifo.Basic
import DmLockFree.AtomicKFifo.Invariant

/-! One thread's calls on a `KFifo` and on an `AtomicKFifo`: the same results
and bytes, those of a first-in first-out queue of bytes. -/

set_option autoImplicit false

namespace DmLockFree

open Library

namespace AtomicKFifo

/-- A program that runs alone until it returns. -/
def runAlone : Nat → AtomicKFifo → Pc → Option (AtomicKFifo × Return)
  | 0, _, _ => none
  | fuel + 1, fifo, pc =>
      match advance fifo pc with
      | none => none
      | some (after, _, some returned) => some (after, returned)
      | some (after, next, none) => runAlone fuel after next

/-- A whole call by the only thread; no member function has more than five accesses. -/
def call (fifo : AtomicKFifo) (call : Call) : Option (AtomicKFifo × Return) :=
  runAlone 5 fifo call.entry

theorem runAlone_succ (fuel : Nat) (fifo : AtomicKFifo) (pc : Pc) :
    runAlone (fuel + 1) fifo pc =
      match advance fifo pc with
      | none => none
      | some (after, _, some returned) => some (after, returned)
      | some (after, next, none) => runAlone fuel after next := rfl

section Alone

variable (fifo : AtomicKFifo) (transfer : Transfer)

theorem runAlone_putCopyRest :
    runAlone 2 fifo (.putCopyRest transfer) =
      (memcpy fifo.buffer 0 transfer.data (transfer.segment fifo).toNat
        (transfer.actual - transfer.segment fifo).toNat).map fun buffer =>
        ({ fifo with buffer, inIdx := transfer.index + transfer.actual },
          .put transfer.data transfer.actual) := by
  simp only [runAlone, advance]
  cases memcpy fifo.buffer 0 transfer.data (transfer.segment fifo).toNat
      (transfer.actual - transfer.segment fifo).toNat <;> rfl

theorem runAlone_putCopy :
    runAlone 3 fifo (.putCopy transfer) =
      (memcpy fifo.buffer (transfer.offset fifo).toNat transfer.data 0
        (transfer.segment fifo).toNat).bind fun buffer =>
      (if transfer.segment fifo < transfer.actual then
        memcpy buffer 0 transfer.data (transfer.segment fifo).toNat
          (transfer.actual - transfer.segment fifo).toNat
      else some buffer).map fun buffer =>
      ({ fifo with buffer, inIdx := transfer.index + transfer.actual },
        .put transfer.data transfer.actual) := by
  rw [runAlone, advance]
  cases memcpy fifo.buffer (transfer.offset fifo).toNat transfer.data 0
      (transfer.segment fifo).toNat with
  | none => rfl
  | some buffer =>
      by_cases wraps : transfer.segment fifo < transfer.actual
      · simp only [wraps, if_true, Option.map_some, Option.bind_some]
        exact runAlone_putCopyRest { fifo with buffer } transfer
      · simp only [wraps, if_false, Option.map_some, Option.bind_some]
        rfl

theorem runAlone_readCopyRest (kind : Read) :
    runAlone 2 fifo (.readCopyRest kind transfer) =
      (memcpy transfer.data (transfer.segment fifo).toNat fifo.buffer 0
        (transfer.actual - transfer.segment fifo).toNat).map fun data =>
        (match kind with
          | .get => { fifo with outIdx := transfer.index + transfer.actual }
          | .peek => fifo, .read kind data transfer.actual) := by
  simp only [runAlone, advance]
  cases memcpy transfer.data (transfer.segment fifo).toNat fifo.buffer 0
      (transfer.actual - transfer.segment fifo).toNat <;> cases kind <;> rfl

theorem runAlone_readCopy (kind : Read) :
    runAlone 3 fifo (.readCopy kind transfer) =
      (memcpy transfer.data 0 fifo.buffer (transfer.offset fifo).toNat
        (transfer.segment fifo).toNat).bind fun data =>
      (if transfer.segment fifo < transfer.actual then
        memcpy data (transfer.segment fifo).toNat fifo.buffer 0
          (transfer.actual - transfer.segment fifo).toNat
      else some data).map fun data =>
      (match kind with
        | .get => { fifo with outIdx := transfer.index + transfer.actual }
        | .peek => fifo, .read kind data transfer.actual) := by
  rw [runAlone, advance]
  cases memcpy transfer.data 0 fifo.buffer (transfer.offset fifo).toNat
      (transfer.segment fifo).toNat with
  | none => rfl
  | some data =>
      by_cases wraps : transfer.segment fifo < transfer.actual
      · simp only [wraps, if_true, Option.map_some, Option.bind_some]
        exact runAlone_readCopyRest fifo { transfer with data } kind
      · simp only [wraps, if_false, Option.map_some, Option.bind_some]
        cases kind <;> rfl

theorem call_put (data : List UInt8) (len : UInt32) :
    fifo.call (.put data len) =
      if min len (fifo.capacity - (fifo.inIdx - fifo.outIdx)) = 0 then some (fifo, .put data 0)
      else runAlone 3 fifo (.putCopy
        ⟨data, len, fifo.inIdx, min len (fifo.capacity - (fifo.inIdx - fifo.outIdx))⟩) := by
  rw [call, Call.entry, runAlone_succ 4]
  simp only [advance]
  rw [runAlone_succ 3]
  unfold advance
  by_cases nothing : min len (fifo.capacity - (fifo.inIdx - fifo.outIdx)) = 0
  · simp only [nothing, if_true]
  · simp only [nothing, if_false]

theorem call_read (kind : Read) (data : List UInt8) (len : UInt32) :
    fifo.call (.read kind data len) =
      if min len (fifo.inIdx - fifo.outIdx) = 0 then some (fifo, .read kind data 0)
      else runAlone 3 fifo (.readCopy kind
        ⟨data, len, fifo.outIdx, min len (fifo.inIdx - fifo.outIdx)⟩) := by
  rw [call, Call.entry, runAlone_succ 4]
  simp only [advance]
  rw [runAlone_succ 3]
  unfold advance
  by_cases nothing : min len (fifo.inIdx - fifo.outIdx) = 0
  · simp only [nothing, if_true]
  · simp only [nothing, if_false]

end Alone

section Specification

variable {exponent out : Nat} {stream : List UInt8} {fifo : AtomicKFifo} {transfer : Transfer}

theorem Sound.memcpyIn (sound : Sound exponent stream out fifo) {done : Nat}
    (writing : Writing exponent stream out fifo.buffer transfer done) (count : Nat)
    (fits : (stream.length + done) % 2 ^ exponent + count ≤ 2 ^ exponent)
    (within : done + count ≤ transfer.actual.toNat) :
    ∃ buffer, memcpy fifo.buffer ((stream.length + done) % 2 ^ exponent) transfer.data done count =
        some buffer ∧
      Sound exponent stream out { fifo with buffer } ∧
      Writing exponent stream out buffer transfer (done + count) := by
  have supplied := within.trans (writing.requested.trans writing.supplied)
  obtain ⟨kept, written⟩ := sound.write writing count fits within
  exact ⟨_, memcpy_eq_some_iff.mpr ⟨by rw [sound.shape.buffer]; exact fits, supplied, rfl⟩,
    kept, written⟩

theorem Sound.memcpyOut (sound : Sound exponent stream out fifo) {done : Nat}
    (reading : Reading stream out transfer done) (count : Nat)
    (fits : (out + done) % 2 ^ exponent + count ≤ 2 ^ exponent)
    (within : done + count ≤ transfer.actual.toNat) :
    ∃ data, memcpy transfer.data done fifo.buffer ((out + done) % 2 ^ exponent) count =
        some data ∧
      Reading stream out { transfer with data } (done + count) ∧
      data.drop (done + count) = transfer.data.drop (done + count) := by
  have supplied := within.trans (reading.requested.trans reading.supplied)
  rw [← sound.shape.buffer] at fits
  refine ⟨_, memcpy_eq_some_iff.mpr ⟨supplied, ?_, rfl⟩,
    sound.copyOut reading count (by rw [← sound.shape.buffer]; exact fits) within,
    drop_splice supplied ?_⟩ <;> rwa [sound.shape.buffer] at fits ⊢

theorem Sound.putCopy (sound : Sound exponent stream out fifo)
    (writing : Writing exponent stream out fifo.buffer transfer 0) :
    ∃ after, runAlone 3 fifo (.putCopy transfer) =
        some (after, .put transfer.data transfer.actual) ∧
      Sound exponent (stream ++ transfer.data.take transfer.actual.toNat) out after := by
  have below := Nat.mod_lt stream.length (Nat.two_pow_pos exponent)
  have segment := sound.shape.segment writing.index
  have rest := sound.shape.rest writing.index
  obtain ⟨buffer, first, kept, written⟩ :=
    sound.memcpyIn writing (transfer.segment fifo).toNat (by rw [segment, Nat.add_zero]; omega)
      (by rw [segment]; omega)
  rw [Nat.add_zero] at first
  rw [Nat.zero_add] at written
  rw [runAlone_putCopy, sound.shape.offset writing.index, first, Option.bind_some]
  by_cases wraps : transfer.segment fifo < transfer.actual
  · have all := sound.shape.segment_lt writing.index wraps
    have target : (stream.length + (transfer.segment fifo).toNat) % 2 ^ exponent = 0 := by
      rw [all]; exact Ring.add_mod_end stream.length (Nat.two_pow_pos exponent)
    have whole : (transfer.segment fifo).toNat +
        (transfer.actual - transfer.segment fifo).toNat = transfer.actual.toNat := by
      rw [rest]; exact Nat.add_sub_cancel' (by omega)
    have room := writing.room
    have ordered := sound.ordered
    obtain ⟨filled, second, done, complete⟩ :=
      kept.memcpyIn written (transfer.actual - transfer.segment fifo).toNat
        (by rw [target]; omega) (by omega)
    rw [target] at second
    rw [whole] at complete
    rw [if_pos wraps, second]
    exact ⟨_, rfl, done.publish complete⟩
  · rw [sound.shape.segment_all writing.index wraps] at written
    rw [if_neg wraps]
    exact ⟨_, rfl, kept.publish written⟩

theorem Sound.readCopy (sound : Sound exponent stream out fifo)
    (reading : Reading stream out transfer 0) (kind : Read) :
    runAlone 3 fifo (.readCopy kind transfer) =
      some (match kind with
        | .get => { fifo with outIdx := transfer.index + transfer.actual }
        | .peek => fifo,
        .read kind ((stream.drop out).take transfer.actual.toNat ++
          transfer.data.drop transfer.actual.toNat) transfer.actual) := by
  have below := Nat.mod_lt out (Nat.two_pow_pos exponent)
  have segment := sound.shape.segment reading.index
  have rest := sound.shape.rest reading.index
  obtain ⟨data, first, moved, behind⟩ :=
    sound.memcpyOut reading (transfer.segment fifo).toNat (by rw [segment, Nat.add_zero]; omega)
      (by rw [segment]; omega)
  rw [Nat.add_zero] at first
  rw [Nat.zero_add] at moved behind
  rw [runAlone_readCopy, sound.shape.offset reading.index, first, Option.bind_some]
  by_cases wraps : transfer.segment fifo < transfer.actual
  · have all := sound.shape.segment_lt reading.index wraps
    have origin : (out + (transfer.segment fifo).toNat) % 2 ^ exponent = 0 := by
      rw [all]; exact Ring.add_mod_end out (Nat.two_pow_pos exponent)
    have whole : (transfer.segment fifo).toNat +
        (transfer.actual - transfer.segment fifo).toNat = transfer.actual.toNat := by
      rw [rest]; exact Nat.add_sub_cancel' (by omega)
    have present := reading.present
    have bounded := sound.bounded
    obtain ⟨complete, second, filled, beyond⟩ :=
      sound.memcpyOut moved (transfer.actual - transfer.segment fifo).toNat
        (by rw [origin]; omega) (by simp only; omega)
    rw [← List.drop_drop, ← List.drop_drop, behind, List.drop_drop, List.drop_drop, whole] at beyond
    rw [origin] at second
    rw [whole] at filled
    rw [if_pos wraps, second, Option.map_some, ← filled.copied.take_eq, ← beyond,
      List.take_append_drop]
  · rw [sound.shape.segment_all reading.index wraps] at moved behind
    rw [if_neg wraps, Option.map_some, ← moved.copied.take_eq, ← behind, List.take_append_drop]

end Specification

end AtomicKFifo

namespace KFifo

open AtomicKFifo (Call Return Observer Sound Transfer Writing Reading)

def call (fifo : KFifo) : Call → Option (KFifo × Return)
  | .put data len => (fifo.put data len).map fun (fifo, count) => (fifo, .put data count)
  | .read .get data len =>
      (fifo.get data len).map fun (fifo, data, count) => (fifo, .read .get data count)
  | .read .peek data len =>
      (fifo.peek data len).map fun (data, count) => (fifo, .read .peek data count)
  | .observe .isEmpty | .isEmptyOutFirst => some (fifo, .flag .isEmpty fifo.isEmpty)
  | .observe .isFull => some (fifo, .flag .isFull fifo.isFull)
  | .observe .len => some (fifo, .count .len fifo.len)
  | .observe .avail => some (fifo, .count .avail fifo.avail)
  | .reset => some (fifo.reset, .reset)

/-- The same fields, as an object of the other class. -/
def atomic (fifo : KFifo) : AtomicKFifo where
  buffer := fifo.buffer
  capacity := fifo.capacity
  mask := fifo.mask
  inIdx := fifo.inIdx
  outIdx := fifo.outIdx

theorem construct_atomic (requestedCapacity : UInt32) :
    AtomicKFifo.construct requestedCapacity = (construct requestedCapacity).map atomic := by
  rw [AtomicKFifo.construct, construct, Option.map_map]
  rfl

theorem put_atomic (fifo : KFifo) (data : List UInt8) (len : UInt32) :
    fifo.atomic.call (.put data len) =
      (fifo.call (.put data len)).map fun (after, returned) => (after.atomic, returned) := by
  rw [AtomicKFifo.call_put, call, put]
  change (if min len fifo.avail = 0 then _ else _) = _
  by_cases nothing : min len fifo.avail = 0
  · simp only [nothing, if_true]
    rfl
  · simp only [nothing, if_false]
    rw [AtomicKFifo.runAlone_putCopy]
    simp only [Option.map_bind]
    congr 1
    funext buffer
    simp only [Function.comp_apply, Option.map_map]
    rfl

theorem read_atomic (fifo : KFifo) (kind : AtomicKFifo.Read) (data : List UInt8) (len : UInt32) :
    fifo.atomic.call (.read kind data len) =
      (fifo.call (.read kind data len)).map fun (after, returned) => (after.atomic, returned) := by
  rw [AtomicKFifo.call_read]
  change (if min len fifo.len = 0 then _ else _) = _
  by_cases nothing : min len fifo.len = 0
  · simp only [nothing, if_true]
    cases kind
    · simp [call, get, copyOut, nothing]
    · simp [call, peek, copyOut, nothing]
  · simp only [nothing, if_false]
    rw [AtomicKFifo.runAlone_readCopy]
    cases kind
    · simp only [call, get, copyOut, nothing, if_false]
      simp only [Option.map_bind]
      congr 1
      funext buffer
      simp only [Function.comp_apply, Option.map_map]
      rfl
    · simp only [call, peek, copyOut, nothing, if_false]
      simp only [Option.map_bind]
      congr 1
      funext buffer
      simp only [Function.comp_apply, Option.map_map]
      rfl
/-- Used by one thread the two classes do the same, on any fields at all. -/
theorem call_atomic (fifo : KFifo) (request : Call) :
    fifo.atomic.call request =
      (fifo.call request).map fun (after, returned) => (after.atomic, returned) := by
  cases request with
  | put data len => exact put_atomic fifo data len
  | read kind data len => exact read_atomic fifo kind data len
  | observe observer => cases observer <;> rfl
  | isEmptyOutFirst => rfl
  | reset => rfl

end KFifo

end DmLockFree
