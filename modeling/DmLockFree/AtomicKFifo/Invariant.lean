import DmLockFree.AtomicKFifo.Steps
import DmLockFree.Library.Ring
import DmLockFree.Library.Word

/-! The invariant of one producer and one consumer without `reset`. The ghost
state is the stream of accepted bytes and the number `out` of delivered ones;
the two indices show their lengths modulo 2 ^ 32, and the locals of a call in
progress are related to the ghost state of the moment of their loads. -/

set_option autoImplicit false

namespace DmLockFree.AtomicKFifo

open Library

/-- What the constructor fixes for good: all sizes are powers of two. -/
structure Shape (fifo : AtomicKFifo) (exponent : Nat) : Prop where
  low : 1 ≤ exponent
  high : exponent ≤ 31
  capacity : fifo.capacity.toNat = 2 ^ exponent
  mask : fifo.mask.toNat = 2 ^ exponent - 1
  buffer : fifo.buffer.length = 2 ^ exponent

theorem Shape.word {fifo : AtomicKFifo} {exponent : Nat} (shape : Shape fifo exponent) :
    2 ^ exponent ≤ 2 ^ 31 :=
  Nat.pow_le_pow_right (by decide) shape.high

theorem construct_shape {requestedCapacity : UInt32} {fifo : AtomicKFifo}
    (built : construct requestedCapacity = some fifo) :
    (∃ exponent, Shape fifo exponent) ∧ fifo.inIdx = 0 ∧ fifo.outIdx = 0 := by
  simp only [construct, Option.map_eq_some_iff] at built
  obtain ⟨capacity, chosen, rfl⟩ := built
  obtain ⟨exponent, low, high, size⟩ := KFifo.chosenCapacity_two_pow chosen
  have positive := Nat.two_pow_pos exponent
  have one : (1 : UInt32) ≤ capacity := by
    rw [UInt32.le_iff_toNat_le, size]; exact positive
  refine ⟨⟨exponent, low, high, size, ?_, by simp [size]⟩, rfl, rfl⟩
  simp [UInt32.toNat_sub_of_le _ _ one, size]

section Geometry

variable {fifo : AtomicKFifo} {exponent counter : Nat} {transfer : Transfer}

theorem Shape.offset (shape : Shape fifo exponent) (index : Shows transfer.index counter) :
    (transfer.offset fifo).toNat = counter % 2 ^ exponent :=
  index.mask (by have := shape.high; omega) shape.mask

theorem Shape.segment (shape : Shape fifo exponent) (index : Shows transfer.index counter) :
    (transfer.segment fifo).toNat =
      min transfer.actual.toNat (2 ^ exponent - counter % 2 ^ exponent) := by
  have below := Nat.mod_lt counter (Nat.two_pow_pos exponent)
  have offset := shape.offset index
  have inside : transfer.offset fifo ≤ fifo.capacity := by
    rw [UInt32.le_iff_toNat_le, offset, shape.capacity]; omega
  rw [Transfer.segment, UInt32.toNat_min', UInt32.toNat_sub_of_le _ _ inside, offset,
    shape.capacity]

theorem Shape.segment_lt (shape : Shape fifo exponent) (index : Shows transfer.index counter)
    (split : transfer.segment fifo < transfer.actual) :
    (transfer.segment fifo).toNat = 2 ^ exponent - counter % 2 ^ exponent := by
  rw [UInt32.lt_iff_toNat_lt, shape.segment index] at split
  rw [shape.segment index]
  omega

theorem Shape.segment_all (shape : Shape fifo exponent) (index : Shows transfer.index counter)
    (whole : ¬ transfer.segment fifo < transfer.actual) :
    (transfer.segment fifo).toNat = transfer.actual.toNat := by
  rw [UInt32.lt_iff_toNat_lt, shape.segment index] at whole
  rw [shape.segment index]
  omega

theorem Shape.rest (shape : Shape fifo exponent) (index : Shows transfer.index counter) :
    (transfer.actual - transfer.segment fifo).toNat =
      transfer.actual.toNat - (transfer.segment fifo).toNat := by
  apply UInt32.toNat_sub_of_le
  rw [UInt32.le_iff_toNat_le, shape.segment index]
  omega

end Geometry

/-- The shared object against the ghost state. -/
structure Sound (exponent : Nat) (stream : List UInt8) (out : Nat) (fifo : AtomicKFifo) :
    Prop where
  shape : Shape fifo exponent
  inIdx : Shows fifo.inIdx stream.length
  outIdx : Shows fifo.outIdx out
  ordered : out ≤ stream.length
  bounded : stream.length ≤ out + 2 ^ exponent
  holds : Ring.Holds (2 ^ exponent) fifo.buffer stream out stream.length

/-- A put whose length is fixed and whose first `done` bytes are in the ring.
The room was computed from an older `out`, and `out` only grows. -/
structure Writing (exponent : Nat) (stream : List UInt8) (out : Nat) (buffer : List UInt8)
    (transfer : Transfer) (done : Nat) : Prop where
  index : Shows transfer.index stream.length
  requested : transfer.actual.toNat ≤ transfer.len.toNat
  supplied : transfer.len.toNat ≤ transfer.data.length
  room : stream.length + transfer.actual.toNat ≤ out + 2 ^ exponent
  started : done ≤ transfer.actual.toNat
  written : Ring.HoldsBlock (2 ^ exponent) buffer transfer.data stream.length done

/-- A get or peek whose length is fixed and whose first `done` bytes are in the
caller's buffer. -/
structure Reading (stream : List UInt8) (out : Nat) (transfer : Transfer) (done : Nat) :
    Prop where
  index : Shows transfer.index out
  requested : transfer.actual.toNat ≤ transfer.len.toNat
  supplied : transfer.len.toNat ≤ transfer.data.length
  present : out + transfer.actual.toNat ≤ stream.length
  started : done ≤ transfer.actual.toNat
  copied : Ring.Copied transfer.data stream out done

/-- The bytes before the end of the ring. -/
abbrev untilEnd (exponent counter : Nat) : Nat :=
  2 ^ exponent - counter % 2 ^ exponent

def ProducerFacts (exponent : Nat) (stream : List UInt8) (out : Nat) (buffer : List UInt8) :
    Pc → Prop
  | .idle | .observeIn _ | .observeOut _ _ | .isEmptyOut | .isEmptyIn _ => True
  | .putLoadIn data len => len.toNat ≤ data.length
  | .putLoadOut data len currentIn => len.toNat ≤ data.length ∧ Shows currentIn stream.length
  | .putCopy transfer => Writing exponent stream out buffer transfer 0
  | .putCopyRest transfer =>
      Writing exponent stream out buffer transfer (untilEnd exponent stream.length)
  | .putStore transfer => Writing exponent stream out buffer transfer transfer.actual.toNat
  | _ => False

def ConsumerFacts (exponent : Nat) (stream : List UInt8) (out : Nat) : Pc → Prop
  | .idle | .observeIn _ | .observeOut _ _ | .isEmptyOut | .isEmptyIn _ => True
  | .readLoadOut _ data len => len.toNat ≤ data.length
  | .readLoadIn _ data len currentOut => len.toNat ≤ data.length ∧ Shows currentOut out
  | .readCopy _ transfer => Reading stream out transfer 0
  | .readCopyRest _ transfer => Reading stream out transfer (untilEnd exponent out)
  | .getStore transfer => Reading stream out transfer transfer.actual.toNat
  | _ => False

/-- The consumer may deliver while a put is in progress. -/
theorem ProducerFacts.advance_out {exponent out later : Nat} {stream buffer : List UInt8}
    {pc : Pc} (facts : ProducerFacts exponent stream out buffer pc) (grows : out ≤ later) :
    ProducerFacts exponent stream later buffer pc := by
  cases pc with
  | putCopy | putCopyRest | putStore =>
      obtain ⟨index, requested, supplied, room, started, written⟩ := facts
      exact ⟨index, requested, supplied, by omega, started, written⟩
  | _ => exact facts

/-- The producer may publish while a get or peek is in progress. -/
theorem ConsumerFacts.append {exponent out : Nat} {stream : List UInt8} {pc : Pc}
    (facts : ConsumerFacts exponent stream out pc) (added : List UInt8) :
    ConsumerFacts exponent (stream ++ added) out pc := by
  cases pc with
  | readCopy | readCopyRest | getStore =>
      obtain ⟨index, requested, supplied, present, started, copied⟩ := facts
      exact ⟨index, requested, supplied, by simp only [List.length_append]; omega, started,
        copied.append (by omega)⟩
  | _ => exact facts

/-- The whole state against the ghost state. -/
structure Invariant (exponent : Nat) (stream : List UInt8) (out : Nat) (state : State) :
    Prop where
  sound : Sound exponent stream out state.fifo
  producer : ProducerFacts exponent stream out state.fifo.buffer state.producer
  consumer : ConsumerFacts exponent stream out state.consumer

/-- The bytes that a step adds to the accepted stream: a put returns. -/
def acceptedBytes : Option Return → List UInt8
  | some (.put data amount) => data.take amount.toNat
  | _ => []

/-- The bytes that a step delivers: a get returns. -/
def deliveredBytes : Option Return → List UInt8
  | some (.read .get data amount) => data.take amount.toNat
  | _ => []

section Producer

variable {exponent out : Nat} {stream : List UInt8} {fifo : AtomicKFifo}

/-- The free space that `put` computes, from its own index and a fresh load. -/
theorem Sound.freeSpace (sound : Sound exponent stream out fifo) {currentIn : UInt32}
    (index : Shows currentIn stream.length) :
    (fifo.capacity - (currentIn - fifo.outIdx)).toNat = 2 ^ exponent - (stream.length - out) := by
  have word := sound.shape.word
  have ordered := sound.ordered
  have bounded := sound.bounded
  have used := index.sub sound.outIdx ordered (by omega)
  rw [UInt32.toNat_sub_of_le, used, sound.shape.capacity]
  rw [UInt32.le_iff_toNat_le, used, sound.shape.capacity]
  omega

theorem Sound.write (sound : Sound exponent stream out fifo) {transfer : Transfer}
    {done : Nat} (writing : Writing exponent stream out fifo.buffer transfer done) (count : Nat)
    (fits : (stream.length + done) % 2 ^ exponent + count ≤ 2 ^ exponent)
    (within : done + count ≤ transfer.actual.toNat) :
    let buffer :=
      splice fifo.buffer ((stream.length + done) % 2 ^ exponent) transfer.data done count
    Sound exponent stream out { fifo with buffer } ∧
      Writing exponent stream out buffer transfer (done + count) := by
  have shape := sound.shape
  have supplied : done + count ≤ transfer.data.length :=
    within.trans (writing.requested.trans writing.supplied)
  have ordered := sound.ordered
  have room := writing.room
  constructor
  · refine ⟨⟨shape.low, shape.high, shape.capacity, shape.mask, ?_⟩, sound.inIdx, sound.outIdx,
      ordered, sound.bounded, sound.holds.splice shape.buffer fits supplied (by omega)⟩
    rw [← shape.buffer]
    exact length_splice (by rw [shape.buffer]; exact fits) supplied
  · exact ⟨writing.index, writing.requested, writing.supplied, room, within,
      writing.written.splice shape.buffer fits supplied (by omega)⟩

/-- The first `memcpy` of a put. -/
theorem Sound.writeFirst (sound : Sound exponent stream out fifo) {transfer : Transfer}
    (writing : Writing exponent stream out fifo.buffer transfer 0) {buffer : List UInt8}
    (copied : memcpy fifo.buffer (transfer.offset fifo).toNat transfer.data 0
      (transfer.segment fifo).toNat = some buffer) :
    Sound exponent stream out { fifo with buffer } ∧
      Writing exponent stream out buffer transfer (transfer.segment fifo).toNat := by
  have segment := sound.shape.segment writing.index
  have below := Nat.mod_lt stream.length (Nat.two_pow_pos exponent)
  obtain ⟨_, _, copied⟩ := memcpy_eq_some_iff.mp copied
  rw [sound.shape.offset writing.index] at copied
  have written := sound.write writing (transfer.segment fifo).toNat
    (by rw [segment, Nat.add_zero]; omega) (by rw [segment]; omega)
  simpa only [Nat.add_zero, Nat.zero_add, copied] using written

/-- The second one continues at the start of the array. -/
theorem Sound.writeRest (sound : Sound exponent stream out fifo) {transfer : Transfer}
    (writing : Writing exponent stream out fifo.buffer transfer
      (untilEnd exponent stream.length)) {buffer : List UInt8}
    (copied : memcpy fifo.buffer 0 transfer.data (transfer.segment fifo).toNat
      (transfer.actual - transfer.segment fifo).toNat = some buffer) :
    Sound exponent stream out { fifo with buffer } ∧
      Writing exponent stream out buffer transfer transfer.actual.toNat := by
  have started := writing.started
  have first : (transfer.segment fifo).toNat = untilEnd exponent stream.length := by
    rw [sound.shape.segment writing.index]
    exact Nat.min_eq_right started
  have rest := sound.shape.rest writing.index
  have target := Ring.add_mod_end stream.length (Nat.two_pow_pos exponent)
  obtain ⟨fits, _, copied⟩ := memcpy_eq_some_iff.mp copied
  rw [sound.shape.buffer] at fits
  rw [first] at copied
  have written := sound.write writing (transfer.actual - transfer.segment fifo).toNat
    (by rw [target]; exact fits) (by rw [rest, first]; omega)
  simp only [target, copied] at written
  rw [rest, first, Nat.add_sub_cancel' started] at written
  exact written

theorem Sound.publish (sound : Sound exponent stream out fifo) {transfer : Transfer}
    (writing : Writing exponent stream out fifo.buffer transfer transfer.actual.toNat) :
    Sound exponent (stream ++ transfer.data.take transfer.actual.toNat) out
      { fifo with inIdx := transfer.index + transfer.actual } := by
  have length : (stream ++ transfer.data.take transfer.actual.toNat).length =
      stream.length + transfer.actual.toNat := by
    have := writing.requested.trans writing.supplied
    rw [List.length_append, List.length_take]
    omega
  have shape := sound.shape
  refine ⟨⟨shape.low, shape.high, shape.capacity, shape.mask, shape.buffer⟩, ?_, sound.outIdx,
    ?_, ?_, ?_⟩
  · rw [length]; exact writing.index.add transfer.actual
  · rw [length]; exact sound.ordered.trans (Nat.le_add_right _ _)
  · rw [length]; exact writing.room
  · rw [length]; exact sound.holds.append writing.written

/-- What the producer's step owes: the stream grows by what a put returns. -/
structure ProducerKeeps (exponent : Nat) (stream : List UInt8) (out : Nat)
    (after : AtomicKFifo) (next : Pc) (returned : Option Return) : Prop where
  sound : Sound exponent (stream ++ acceptedBytes returned) out after
  facts : ProducerFacts exponent (stream ++ acceptedBytes returned) out after.buffer next
  delivered : deliveredBytes returned = []

theorem ProducerKeeps.quiet {after : AtomicKFifo} {next : Pc} {returned : Option Return}
    (nothing : acceptedBytes returned = []) (delivered : deliveredBytes returned = [])
    (sound : Sound exponent stream out after)
    (facts : ProducerFacts exponent stream out after.buffer next) :
    ProducerKeeps exponent stream out after next returned := by
  constructor
  · rwa [nothing, List.append_nil]
  · rwa [nothing, List.append_nil]
  · exact delivered

theorem producer_advance {pc next : Pc} {after : AtomicKFifo} {returned : Option Return}
    (sound : Sound exponent stream out fifo)
    (facts : ProducerFacts exponent stream out fifo.buffer pc)
    (taken : advance fifo pc = some (after, next, returned)) :
    ProducerKeeps exponent stream out after next returned := by
  cases advances taken with
  | putLoadIn => exact .quiet rfl rfl sound ⟨facts, sound.inIdx⟩
  | putNothing => exact .quiet (by simp [acceptedBytes]) rfl sound trivial
  | putLoadOut data len currentIn =>
      obtain ⟨supplied, index⟩ := facts
      have free := sound.freeSpace index
      have ordered := sound.ordered
      have bounded := sound.bounded
      refine .quiet rfl rfl sound ⟨index, ?_, supplied, ?_, Nat.zero_le _, ?_⟩
      · rw [UInt32.toNat_min']; exact Nat.min_le_left _ _
      · simp only [UInt32.toNat_min', free]; omega
      · exact fun offset below => absurd below (Nat.not_lt_zero offset)
  | putCopySplit transfer buffer copied split =>
      have writing : Writing exponent stream out fifo.buffer transfer 0 := facts
      obtain ⟨kept, written⟩ := sound.writeFirst writing copied
      rw [sound.shape.segment_lt writing.index split] at written
      exact .quiet rfl rfl kept written
  | putCopyWhole transfer buffer copied whole =>
      have writing : Writing exponent stream out fifo.buffer transfer 0 := facts
      obtain ⟨kept, written⟩ := sound.writeFirst writing copied
      rw [sound.shape.segment_all writing.index whole] at written
      exact .quiet rfl rfl kept written
  | putCopyRest transfer buffer copied =>
      obtain ⟨kept, written⟩ := sound.writeRest facts copied
      exact .quiet rfl rfl kept written
  | putStore => exact ⟨sound.publish facts, trivial, rfl⟩
  | observeOut observer => cases observer <;> exact .quiet rfl rfl sound trivial
  | observeIn | isEmptyOut | isEmptyIn => exact .quiet rfl rfl sound trivial
  | _ => exact facts.elim

end Producer

section Consumer

variable {exponent out : Nat} {stream : List UInt8} {fifo : AtomicKFifo}

theorem Sound.dataLen (sound : Sound exponent stream out fifo) {currentOut : UInt32}
    (index : Shows currentOut out) :
    (fifo.inIdx - currentOut).toNat = stream.length - out := by
  have word := sound.shape.word
  have ordered := sound.ordered
  have bounded := sound.bounded
  exact sound.inIdx.sub index ordered (by omega)

theorem Sound.copyOut (sound : Sound exponent stream out fifo) {transfer : Transfer}
    {done : Nat} (reading : Reading stream out transfer done) (count : Nat)
    (fits : (out + done) % 2 ^ exponent + count ≤ 2 ^ exponent)
    (within : done + count ≤ transfer.actual.toNat) :
    Reading stream out
      { transfer with
        data := splice transfer.data done fifo.buffer ((out + done) % 2 ^ exponent) count }
      (done + count) := by
  have supplied : done + count ≤ transfer.data.length :=
    within.trans (reading.requested.trans reading.supplied)
  have present := reading.present
  refine ⟨reading.index, reading.requested, ?_, present, within,
    reading.copied.splice sound.holds sound.shape.buffer fits supplied (by omega)⟩
  rw [length_splice supplied (by rw [sound.shape.buffer]; exact fits)]
  exact reading.supplied

/-- The first `memcpy` of a get or peek. -/
theorem Sound.readFirst (sound : Sound exponent stream out fifo) {transfer : Transfer}
    (reading : Reading stream out transfer 0) {data : List UInt8}
    (copied : memcpy transfer.data 0 fifo.buffer (transfer.offset fifo).toNat
      (transfer.segment fifo).toNat = some data) :
    Reading stream out { transfer with data } (transfer.segment fifo).toNat := by
  have segment := sound.shape.segment reading.index
  have below := Nat.mod_lt out (Nat.two_pow_pos exponent)
  obtain ⟨_, _, copied⟩ := memcpy_eq_some_iff.mp copied
  rw [sound.shape.offset reading.index] at copied
  have moved := sound.copyOut reading (transfer.segment fifo).toNat
    (by rw [segment, Nat.add_zero]; omega) (by rw [segment]; omega)
  simpa only [Nat.add_zero, Nat.zero_add, copied] using moved

theorem Sound.readRest (sound : Sound exponent stream out fifo) {transfer : Transfer}
    (reading : Reading stream out transfer (untilEnd exponent out)) {data : List UInt8}
    (copied : memcpy transfer.data (transfer.segment fifo).toNat fifo.buffer 0
      (transfer.actual - transfer.segment fifo).toNat = some data) :
    Reading stream out { transfer with data } transfer.actual.toNat := by
  have started := reading.started
  have first : (transfer.segment fifo).toNat = untilEnd exponent out := by
    rw [sound.shape.segment reading.index]
    exact Nat.min_eq_right started
  have rest := sound.shape.rest reading.index
  have origin := Ring.add_mod_end out (Nat.two_pow_pos exponent)
  obtain ⟨_, fits, copied⟩ := memcpy_eq_some_iff.mp copied
  rw [sound.shape.buffer] at fits
  rw [first] at copied
  have moved := sound.copyOut reading (transfer.actual - transfer.segment fifo).toNat
    (by rw [origin]; exact fits) (by rw [rest, first]; omega)
  simp only [origin, copied] at moved
  rw [rest, first, Nat.add_sub_cancel' started] at moved
  exact moved

theorem Sound.deliver (sound : Sound exponent stream out fifo) {transfer : Transfer}
    {done : Nat} (reading : Reading stream out transfer done) :
    Sound exponent stream (out + transfer.actual.toNat)
      { fifo with outIdx := transfer.index + transfer.actual } := by
  have shape := sound.shape
  have bounded := sound.bounded
  exact ⟨⟨shape.low, shape.high, shape.capacity, shape.mask, shape.buffer⟩, sound.inIdx,
    reading.index.add transfer.actual, reading.present, by omega,
    sound.holds.shrink (Nat.le_add_right _ _) le_rfl⟩

/-- What the consumer's step owes: it writes no cell, and what a get returns are
the next bytes of the stream. -/
structure ConsumerKeeps (exponent : Nat) (stream : List UInt8) (out : Nat)
    (fifo after : AtomicKFifo) (next : Pc) (returned : Option Return) : Prop where
  sound : Sound exponent stream (out + (deliveredBytes returned).length) after
  facts : ConsumerFacts exponent stream (out + (deliveredBytes returned).length) next
  buffer : after.buffer = fifo.buffer
  accepted : acceptedBytes returned = []
  delivered : deliveredBytes returned =
    (stream.drop out).take (deliveredBytes returned).length

theorem ConsumerKeeps.quiet {next : Pc} {returned : Option Return}
    (accepted : acceptedBytes returned = []) (nothing : deliveredBytes returned = [])
    (sound : Sound exponent stream out fifo) (facts : ConsumerFacts exponent stream out next) :
    ConsumerKeeps exponent stream out fifo fifo next returned := by
  constructor
  · rwa [nothing]
  · rwa [nothing]
  · rfl
  · exact accepted
  · rw [nothing, List.length_nil, List.take_zero]

theorem ConsumerKeeps.finish {transfer : Transfer} {kind : Read} {next : Pc}
    {returned : Option Return} (sound : Sound exponent stream out fifo)
    (reading : Reading stream out transfer transfer.actual.toNat)
    (left : kind.finish transfer = (next, returned)) :
    ConsumerKeeps exponent stream out fifo fifo next returned := by
  cases kind with
  | get => cases left; exact .quiet rfl rfl sound reading
  | peek => cases left; exact .quiet rfl rfl sound trivial

theorem consumer_advance {pc next : Pc} {after : AtomicKFifo} {returned : Option Return}
    (sound : Sound exponent stream out fifo)
    (facts : ConsumerFacts exponent stream out pc)
    (taken : advance fifo pc = some (after, next, returned)) :
    ConsumerKeeps exponent stream out fifo after next returned := by
  cases advances taken with
  | readLoadOut => exact .quiet rfl rfl sound ⟨facts, sound.outIdx⟩
  | readNothing kind =>
      cases kind with
      | get => exact .quiet rfl (by simp [deliveredBytes]) sound trivial
      | peek => exact .quiet rfl rfl sound trivial
  | readLoadIn kind data len currentOut =>
      obtain ⟨supplied, index⟩ := facts
      have stored := sound.dataLen index
      have ordered := sound.ordered
      refine .quiet rfl rfl sound ⟨index, ?_, supplied, ?_, Nat.zero_le _, ?_⟩
      · rw [UInt32.toNat_min']; exact Nat.min_le_left _ _
      · simp only [UInt32.toNat_min', stored]; omega
      · exact fun offset below => absurd below (Nat.not_lt_zero offset)
  | readCopySplit kind transfer data copied split =>
      have reading : Reading stream out transfer 0 := facts
      have moved := sound.readFirst reading copied
      rw [sound.shape.segment_lt reading.index split] at moved
      exact .quiet rfl rfl sound moved
  | readCopyWhole kind transfer data next returned copied whole left =>
      have reading : Reading stream out transfer 0 := facts
      have moved := sound.readFirst reading copied
      rw [sound.shape.segment_all reading.index whole] at moved
      exact .finish sound moved left
  | readCopyRest kind transfer data next returned copied left =>
      have reading : Reading stream out transfer (untilEnd exponent out) := facts
      have moved := sound.readRest reading copied
      exact .finish sound moved left
  | getStore transfer =>
      have reading : Reading stream out transfer transfer.actual.toNat := facts
      have length : (transfer.data.take transfer.actual.toNat).length =
          transfer.actual.toNat := by
        have := reading.requested.trans reading.supplied
        rw [List.length_take]; omega
      constructor
      · rw [deliveredBytes, length]; exact sound.deliver reading
      · trivial
      · rfl
      · rfl
      · rw [deliveredBytes, length]; exact reading.copied.take_eq
  | observeOut observer => cases observer <;> exact .quiet rfl rfl sound trivial
  | observeIn | isEmptyOut | isEmptyIn => exact .quiet rfl rfl sound trivial
  | _ => exact facts.elim

end Consumer

end DmLockFree.AtomicKFifo
