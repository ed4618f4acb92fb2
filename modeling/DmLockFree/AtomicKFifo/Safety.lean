import DmLockFree.AtomicKFifo.Run

/-!
# One producer and one consumer

The byte queue between two threads: nothing is lost, duplicated or reordered,
the occupancy stays within the capacity, and no copy leaves its arrays or
meets the copy of the other thread.
-/

set_option autoImplicit false

namespace DmLockFree.AtomicKFifo

open Library

/-- The stored bytes, oldest first. -/
def contents (fifo : AtomicKFifo) : List UInt8 :=
  (List.range (fifo.inIdx - fifo.outIdx).toNat).map fun offset =>
    fifo.buffer.getD ((fifo.outIdx + UInt32.ofNat offset) &&& fifo.mask).toNat 0

theorem Sound.contents_eq {exponent out : Nat} {stream : List UInt8} {fifo : AtomicKFifo}
    (sound : Sound exponent stream out fifo) : contents fifo = stream.drop out := by
  have ordered := sound.ordered
  have bounded := sound.bounded
  have word := sound.shape.word
  have length := sound.dataLen sound.outIdx
  apply List.ext_getElem
  · simp [contents, length]
  · intro offset below present
    simp only [contents, List.length_map, List.length_range, length] at below
    have small : (UInt32.ofNat offset).toNat = offset := UInt32.toNat_ofNat_of_lt' (by
      rw [UInt32.size]; omega)
    have position : ((fifo.outIdx + UInt32.ofNat offset) &&& fifo.mask).toNat =
        (out + offset) % 2 ^ exponent := by
      have shown := sound.outIdx.add (UInt32.ofNat offset)
      rw [small] at shown
      exact shown.mask (by have := sound.shape.high; omega) sound.shape.mask
    have inStream : out + offset < stream.length := by omega
    have cell := sound.holds (out + offset) (by omega) inStream
    rw [List.getElem?_eq_getElem inStream] at cell
    simp only [contents, List.getElem_map, List.getElem_range, position, List.getElem_drop,
      List.getD_eq_getElem?_getD, cell, Option.getD_some]

theorem Sound.occupancy {exponent out : Nat} {stream : List UInt8} {fifo : AtomicKFifo}
    (sound : Sound exponent stream out fifo) : fifo.inIdx - fifo.outIdx ≤ fifo.capacity := by
  have ordered := sound.ordered
  have bounded := sound.bounded
  rw [UInt32.le_iff_toNat_le, sound.dataLen sound.outIdx, sound.shape.capacity]
  omega

/-- The range of a `memcpy`: where it starts in the ring and in the caller's
buffer, and how far it goes. -/
structure Range where
  ring : Nat
  caller : Nat
  length : Nat
  deriving DecidableEq, Repr

/-- The `memcpy` that a program point is about to run. -/
def Pc.copy (fifo : AtomicKFifo) : Pc → Option (Transfer × Range)
  | .putCopy transfer | .readCopy _ transfer =>
      some (transfer, ⟨(transfer.offset fifo).toNat, 0, (transfer.segment fifo).toNat⟩)
  | .putCopyRest transfer | .readCopyRest _ transfer =>
      let l := transfer.segment fifo
      some (transfer, ⟨0, l.toNat, (transfer.actual - l).toNat⟩)
  | _ => none

/-- The cells of both segments of a transfer. -/
def Transfer.cells (transfer : Transfer) (fifo : AtomicKFifo) : List Nat :=
  let l := transfer.segment fifo
  List.range' (transfer.offset fifo).toNat l.toNat ++
    List.range' 0 (transfer.actual - l).toNat

/-- The cells that a put in progress writes. -/
def Pc.writtenCells (fifo : AtomicKFifo) : Pc → List Nat
  | .putCopy transfer | .putCopyRest transfer | .putStore transfer => transfer.cells fifo
  | _ => []

/-- The cells that a get or peek in progress reads. -/
def Pc.readCells (fifo : AtomicKFifo) : Pc → List Nat
  | .readCopy _ transfer | .readCopyRest _ transfer | .getStore transfer => transfer.cells fifo
  | _ => []

section Copies

variable {exponent counter : Nat} {fifo : AtomicKFifo} {transfer : Transfer}

theorem Shape.first_inside (shape : Shape fifo exponent) (index : Shows transfer.index counter) :
    (transfer.offset fifo).toNat + (transfer.segment fifo).toNat ≤ fifo.buffer.length ∧
      (transfer.segment fifo).toNat ≤ transfer.actual.toNat := by
  have below := Nat.mod_lt counter (Nat.two_pow_pos exponent)
  rw [shape.offset index, shape.segment index, shape.buffer]
  omega

theorem Shape.rest_inside (shape : Shape fifo exponent) (index : Shows transfer.index counter)
    (bound : transfer.actual.toNat ≤ 2 ^ exponent) :
    0 + (transfer.actual - transfer.segment fifo).toNat ≤ fifo.buffer.length ∧
      (transfer.segment fifo).toNat + (transfer.actual - transfer.segment fifo).toNat ≤
        transfer.actual.toNat := by
  rw [shape.rest index, shape.segment index, shape.buffer]
  omega

theorem Shape.mem_cells (shape : Shape fifo exponent) (index : Shows transfer.index counter)
    (bound : transfer.actual.toNat ≤ 2 ^ exponent) {cell : Nat}
    (member : cell ∈ transfer.cells fifo) :
    ∃ offset, offset < transfer.actual.toNat ∧ cell = (counter + offset) % 2 ^ exponent := by
  have below := Nat.mod_lt counter (Nat.two_pow_pos exponent)
  rw [Transfer.cells, List.mem_append, List.mem_range'_1, List.mem_range'_1, shape.rest index,
    shape.segment index, shape.offset index] at member
  rcases member with ⟨above, first⟩ | ⟨_, second⟩
  · refine ⟨cell - counter % 2 ^ exponent, by omega, ?_⟩
    rw [Ring.add_mod_of_lt (by omega)]
    omega
  · have position := Ring.add_mod_end counter (Nat.two_pow_pos exponent)
    refine ⟨2 ^ exponent - counter % 2 ^ exponent + cell, by omega, ?_⟩
    rw [← Nat.add_assoc, Ring.add_mod_of_lt (by omega), position, Nat.zero_add]

end Copies

section State

variable {exponent out : Nat} {stream : List UInt8} {state : State}

/-- Where the invariant puts a transfer in progress: it starts at a counter the
index shows, moves no more than a whole ring, and stays in the caller's bytes. -/
structure Bounded (exponent : Nat) (transfer : Transfer) : Prop where
  index : ∃ counter, Shows transfer.index counter
  ring : transfer.actual.toNat ≤ 2 ^ exponent
  requested : transfer.actual.toNat ≤ transfer.len.toNat
  supplied : transfer.len.toNat ≤ transfer.data.length

theorem Invariant.bounded_of_copy (good : Invariant exponent stream out state)
    {thread : Thread} {transfer : Transfer} {range : Range}
    (copying : (state.pc thread).copy state.fifo = some (transfer, range)) :
    Bounded exponent transfer := by
  have ordered := good.sound.ordered
  have bounded := good.sound.bounded
  cases thread with
  | producer =>
      have facts := good.producer
      unfold State.pc at copying
      cases point : state.producer with
      | putCopy | putCopyRest =>
          rw [point] at facts copying
          cases copying
          obtain ⟨index, requested, supplied, room, _, _⟩ := facts
          exact ⟨⟨_, index⟩, by omega, requested, supplied⟩
      | readCopy | readCopyRest => rw [point] at facts; exact facts.elim
      | _ => rw [point] at copying; cases copying
  | consumer =>
      have facts := good.consumer
      unfold State.pc at copying
      cases point : state.consumer with
      | readCopy | readCopyRest =>
          rw [point] at facts copying
          cases copying
          obtain ⟨index, requested, supplied, present, _, _⟩ := facts
          exact ⟨⟨_, index⟩, by omega, requested, supplied⟩
      | putCopy | putCopyRest => rw [point] at facts; exact facts.elim
      | _ => rw [point] at copying; cases copying

theorem Invariant.copy_inside (good : Invariant exponent stream out state)
    {thread : Thread} {transfer : Transfer} {range : Range}
    (copying : (state.pc thread).copy state.fifo = some (transfer, range)) :
    range.ring + range.length ≤ state.fifo.buffer.length ∧
      range.caller + range.length ≤ transfer.actual.toNat ∧
      transfer.actual.toNat ≤ transfer.len.toNat ∧
      transfer.len.toNat ≤ transfer.data.length := by
  obtain ⟨⟨counter, index⟩, ring, requested, supplied⟩ := good.bounded_of_copy copying
  have first := good.sound.shape.first_inside index
  have rest := good.sound.shape.rest_inside index ring
  cases point : state.pc thread with
  | putCopy | readCopy =>
      rw [point] at copying
      cases copying
      exact ⟨first.1, by simpa using first.2, requested, supplied⟩
  | putCopyRest | readCopyRest =>
      rw [point] at copying
      cases copying
      exact ⟨rest.1, rest.2, requested, supplied⟩
  | _ => rw [point] at copying; cases copying

theorem Invariant.advance_isSome (good : Invariant exponent stream out state) {thread : Thread}
    (busy : state.pc thread ≠ .idle) : (advance state.fifo (state.pc thread)).isSome := by
  cases point : state.pc thread with
  | idle => exact absurd point busy
  | putLoadOut | readLoadIn => simp only [advance]; split <;> rfl
  | putCopy transfer | putCopyRest transfer =>
      obtain ⟨ring, caller, requested, supplied⟩ := good.copy_inside
        (show (state.pc thread).copy state.fifo = some (transfer, _) by rw [point]; rfl)
      simp only [advance, Option.isSome_map, memcpy]
      rw [if_pos ⟨ring, caller.trans (requested.trans supplied)⟩]
      rfl
  | readCopy _ transfer | readCopyRest _ transfer =>
      obtain ⟨ring, caller, requested, supplied⟩ := good.copy_inside
        (show (state.pc thread).copy state.fifo = some (transfer, _) by rw [point]; rfl)
      simp only [advance, Option.isSome_map, memcpy]
      rw [if_pos ⟨caller.trans (requested.trans supplied), ring⟩]
      rfl
  | _ => rfl

/-- The cells a put writes and the cells a get or peek reads belong to
different counters of one window. -/
theorem Invariant.cells_disjoint (good : Invariant exponent stream out state) :
    (state.producer.writtenCells state.fifo).Disjoint
      (state.consumer.readCells state.fifo) := by
  intro cell written read
  have ordered := good.sound.ordered
  have writes : ∃ transfer, cell ∈ transfer.cells state.fifo ∧
      ∃ done, Writing exponent stream out state.fifo.buffer transfer done := by
    have facts := good.producer
    cases point : state.producer <;> rw [point] at written facts <;>
      first | exact ⟨_, written, _, facts⟩ | cases written
  have reads : ∃ transfer, cell ∈ transfer.cells state.fifo ∧
      ∃ done, Reading stream out transfer done := by
    have facts := good.consumer
    cases point : state.consumer <;> rw [point] at read facts <;>
      first | exact ⟨_, read, _, facts⟩ | cases read
  obtain ⟨put, putCell, _, writing⟩ := writes
  obtain ⟨get, getCell, _, reading⟩ := reads
  have room := writing.room
  have present := reading.present
  have bounded := good.sound.bounded
  obtain ⟨ahead, aheadBound, same⟩ :=
    good.sound.shape.mem_cells writing.index (by omega) putCell
  obtain ⟨behind, behindBound, rfl⟩ :=
    good.sound.shape.mem_cells reading.index (by omega) getCell
  exact Ring.mod_ne_of_window (by omega) (by omega) same

end State

/-- One producer and one consumer, any calls, any interleaving, any number of
wraps: what was accepted is what was delivered followed by what is stored; the
occupancy is at most the capacity; every `memcpy` is inside both of its arrays;
and a put in progress writes no cell that a get or peek in progress reads. -/
theorem producer_consumer_fifo {requestedCapacity : UInt32} {fifo : AtomicKFifo}
    {events : List Event} {state : State} (built : construct requestedCapacity = some fifo)
    (run : (machine transferRoles fifo).Run events state) :
    (accepted events = delivered events ++ contents state.fifo ∧
      delivered events <+: accepted events) ∧
    (state.fifo.inIdx - state.fifo.outIdx ≤ state.fifo.capacity ∧
      state.fifo.buffer.length = state.fifo.capacity.toNat) ∧
    (∀ thread transfer range, (state.pc thread).copy state.fifo = some (transfer, range) →
      range.ring + range.length ≤ state.fifo.buffer.length ∧
      range.caller + range.length ≤ transfer.actual.toNat ∧
      transfer.actual.toNat ≤ transfer.len.toNat ∧
      transfer.len.toNat ≤ transfer.data.length) ∧
    (state.producer.writtenCells state.fifo).Disjoint
      (state.consumer.readCells state.fifo) := by
  obtain ⟨exponent, good, isPrefix⟩ := run_invariant built transferRoles_steady run
  have sound := good.sound
  refine ⟨⟨?_, ?_⟩, ⟨?_, ?_⟩, fun _ _ _ copying => good.copy_inside copying,
    good.cells_disjoint⟩
  · rw [sound.contents_eq]
    conv_rhs => rw [isPrefix]
    rw [List.length_take, Nat.min_eq_left sound.ordered, List.take_append_drop]
  · rw [isPrefix]; exact List.take_prefix _ _
  · exact sound.occupancy
  · rw [sound.shape.buffer, sound.shape.capacity]

/-- A put of three bytes into a ring of two while a get is between its loads. -/
def handover : List Label :=
  [.call .producer (.put [7, 8, 9] 3), .run .producer,
    .call .consumer (.read .get [0, 0] 2), .run .consumer,
    .run .producer, .run .producer, .run .producer,
    .run .consumer, .run .consumer, .run .consumer]

theorem producer_consumer_fifo_handover :
    ∃ fifo events state, construct 1 = some fifo ∧
      (machine transferRoles fifo).Run events state ∧ delivered events = [7, 8] ∧
      accepted events = delivered events ++ contents state.fifo := by
  have built : construct 1 = some ⟨[0, 0], 2, 1, 0, 0⟩ := by decide
  have run := Machine.exec_run (machine transferRoles ⟨[0, 0], 2, 1, 0, 0⟩) handover rfl
  exact ⟨_, _, _, built, run, rfl, (producer_consumer_fifo built run).1.1⟩

theorem calls_never_stuck {requestedCapacity : UInt32} {fifo : AtomicKFifo}
    {events : List Event} {state : State} (built : construct requestedCapacity = some fifo)
    (run : (machine transferRoles fifo).Run events state) {thread : Thread}
    (busy : state.pc thread ≠ .idle) : (advance state.fifo (state.pc thread)).isSome := by
  obtain ⟨_, good, _⟩ := run_invariant built transferRoles_steady run
  exact good.advance_isSome busy

end DmLockFree.AtomicKFifo
