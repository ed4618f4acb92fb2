import DmLockFree.CDMAtomicQueue.Alone
import DmLockFree.CDMAtomicQueue.Run

/-!
# The block behind the slots

The constructor asks `operator new[]` for a number of bytes that it computes in
`size_t`. It covers the slots in use unless that computation wraps.
-/

set_option autoImplicit false

namespace DmLockFree.CDMAtomicQueue

open Library Program

variable {Thread T : Type}

/-- The bytes that the constructor allocates. -/
def allocated (sizeT capacity : UInt64) : UInt64 := sizeT * (capacity + 2 * padding sizeT)

/-- The slot that a step uses: to construct or destroy an object in it, or to
return its address. -/
def Output.slot : Output T → Option UInt64
  | ⟨.construct index _, _⟩ | ⟨.destroy index _, _⟩ => some index
  | ⟨_, some (.front pointer)⟩ => pointer
  | _ => none

/-- Any number of threads, each of which may make any call at any time. -/
def anyone (T : Type) : Program Nat (CDMAtomicQueue T) (Pc T) (Call T) (Output T) where
  idle := .idle false
  enter _
    | .idle _, .emplace kind outcome => some (.emplaceLoadHead kind outcome)
    | .idle ready, .front => some (.frontLoadTail ready)
    | .idle _, .pop => some .popLoadTail
    | .idle ready, .observe kind order => some (.observeFirst kind order ready)
    | _, _ => none
  advance := advance

/-- In every run every slot that is used ends inside the allocated block. -/
def Covers [DecidableEq Thread]
    (code : Program Thread (CDMAtomicQueue T) (Pc T) (Call T) (Output T))
    (start : CDMAtomicQueue T) (sizeT capacity : UInt64) : Prop :=
  ∀ events state, (code.machine start).Run events state → ∀ event ∈ events, ∀ output,
    event.output = some output → ∀ index, output.slot = some index →
      (index.toNat + 1) * sizeT.toNat ≤ (allocated sizeT capacity).toNat

section Sizes

theorem padding_toNat (sizeT : UInt64) : (padding sizeT).toNat = 127 / sizeT.toNat + 1 := by
  have quotient : ((128 - 1) / sizeT).toNat = 127 / sizeT.toNat := UInt64.toNat_div ..
  have small : 127 / sizeT.toNat ≤ 127 := Nat.div_le_self ..
  rw [padding, UInt64.toNat_add, quotient, UInt64.toNat_one, Nat.mod_eq_of_lt (by omega)]

/-- The size of the block is right modulo `2 ^ 64`. -/
theorem allocated_toNat (sizeT capacity : UInt64) :
    (allocated sizeT capacity).toNat =
      sizeT.toNat * (capacity.toNat + 2 * (padding sizeT).toNat) % 2 ^ 64 := by
  have two : (2 : UInt64).toNat = 2 := rfl
  rw [allocated, UInt64.toNat_mul, UInt64.toNat_add, UInt64.toNat_mul, two, Nat.mul_mod_mod,
    Nat.mul_mod, Nat.add_mod_mod, ← Nat.mul_mod]

end Sizes

section Slots

/-- The fields that no call changes, and both indices inside the ring. -/
structure Within (start queue : CDMAtomicQueue T) : Prop where
  capacity : queue.capacity = start.capacity
  kPadding : queue.kPadding = start.kPadding
  head : queue.head < start.capacity
  tail : queue.tail < start.capacity

/-- The indices that a call has loaded or computed. -/
def Pc.Within (capacity : UInt64) : Pc T → Prop
  | .emplaceLoadTail _ _ head nextHead | .emplaceConstruct _ head nextHead =>
      head < capacity ∧ nextHead < capacity
  | .emplaceStoreHead _ nextHead => nextHead < capacity
  | .frontLoadHead _ tail | .popAssert tail | .popDestroy tail => tail < capacity
  | .popStoreTail nextTail => nextTail < capacity
  | _ => True

variable {start queue after : CDMAtomicQueue T} {pc next : Pc T} {output : Output T}

theorem Within.next_lt (within : Within start queue) {index : UInt64}
    (inside : index < start.capacity) : queue.next index < start.capacity := by
  have bound := UInt64.lt_iff_toNat_lt.mp inside
  have word := start.capacity.toNat_lt
  have sum : (index + 1).toNat = index.toNat + 1 := by
    rw [UInt64.toNat_add, UInt64.toNat_one, Nat.mod_eq_of_lt (by omega)]
  rw [CDMAtomicQueue.next, within.capacity]
  split
  case isTrue =>
      rw [UInt64.lt_iff_toNat_lt]
      exact Nat.zero_lt_of_lt bound
  case isFalse apart =>
      rw [← UInt64.toNat_inj, sum] at apart
      rw [UInt64.lt_iff_toNat_lt, sum]
      omega

/-- The slot of an index of the ring. -/
def Addresses (start : CDMAtomicQueue T) (output : Output T) : Prop :=
  ∀ index, output.slot = some index →
    ∃ position, position < start.capacity ∧ index = position + start.kPadding

theorem Within.slot (within : Within start queue) {position index : UInt64}
    (inside : position < start.capacity) (same : some (queue.slot position) = some index) :
    ∃ position, position < start.capacity ∧ index = position + start.kPadding := by
  refine ⟨position, inside, ?_⟩
  rw [← within.kPadding]
  exact (Option.some.inj same).symm

theorem Addresses.of_none {start : CDMAtomicQueue T} {output : Output T}
    (none : output.slot = none) : Addresses start output := by
  intro index same
  rw [none] at same
  cases same

theorem advance_within (within : Within start queue) (points : pc.Within start.capacity)
    (taken : advance queue pc = some (after, next, output)) :
    Within start after ∧ next.Within start.capacity ∧ Addresses start output := by
  cases advances taken with
  | emplaceLoadHead => exact ⟨within, ⟨within.head, within.next_lt within.head⟩, .of_none rfl⟩
  | emplaceSpins | emplaceLoadTail | popAssert => exact ⟨within, points, .of_none rfl⟩
  | emplaceRefuses | frontNull => exact ⟨within, trivial, .of_none rfl⟩
  | emplaceThrows => exact ⟨within, trivial, fun _ => within.slot points.1⟩
  | emplaceConstruct =>
      exact ⟨⟨within.capacity, within.kPadding, within.head, within.tail⟩, points.2,
        fun _ => within.slot points.1⟩
  | emplaceStoreHead =>
      exact ⟨⟨within.capacity, within.kPadding, points, within.tail⟩, trivial, .of_none rfl⟩
  | frontLoadTail | popLoadTail => exact ⟨within, within.tail, .of_none rfl⟩
  | frontLoadHead => exact ⟨within, trivial, fun _ => within.slot points⟩
  | popDestroy =>
      exact ⟨⟨within.capacity, within.kPadding, within.head, within.tail⟩,
        within.next_lt points, fun _ => within.slot points⟩
  | popStoreTail =>
      exact ⟨⟨within.capacity, within.kPadding, within.head, points⟩, trivial, .of_none rfl⟩
  | observeHead | observeTail => exact ⟨within, trivial, .of_none rfl⟩
  | observeTailSecond observer | observeHeadSecond observer =>
      cases observer <;> exact ⟨within, trivial, .of_none rfl⟩

/-- The threads run the code of the queue, and a call starts without any index. -/
structure Calling (code : Program Thread (CDMAtomicQueue T) (Pc T) (Call T) (Output T)) : Prop where
  advance : code.advance = advance
  idle : code.idle = .idle false
  enter : ∀ {thread pc call next}, code.enter thread pc call = some next →
    ∀ capacity, next.Within capacity

theorem calling_program : Calling (program T) := by
  constructor
  case advance => rfl
  case idle => rfl
  case enter =>
      intro thread pc call next entered capacity
      cases thread <;> cases pc <;> try cases entered
      case producer.idle => cases call <;> cases entered; trivial
      case consumer.idle ready => cases call <;> cases ready <;> cases entered <;> trivial

theorem calling_anyone : Calling (anyone T) := by
  constructor
  case advance => rfl
  case idle => rfl
  case enter =>
      intro thread pc call next entered capacity
      cases pc <;> try cases entered
      case idle => cases call <;> cases entered <;> trivial

/-- What has happened used slots of the ring only. -/
def RunWithin (start : CDMAtomicQueue T) (events : List (Threads.Event Thread (Call T) (Output T)))
    (_ : Unit) (queue : CDMAtomicQueue T) : Prop :=
  Within start queue ∧
    ∀ event ∈ events, ∀ output, event.output = some output → Addresses start output

theorem RunWithin.snoc {events : List (Threads.Event Thread (Call T) (Output T))}
    (before : RunWithin start events () queue) (within : Within start after)
    {event : Threads.Event Thread (Call T) (Output T)}
    (last : ∀ output, event.output = some output → Addresses start output) :
    RunWithin start (events ++ [event]) () after := by
  constructor
  · exact within
  · intro other member
    rcases List.mem_append.mp member with old | new
    · exact before.2 other old
    · rcases List.mem_singleton.mp new with rfl
      exact last

theorem run_within [DecidableEq Thread]
    {code : Program Thread (CDMAtomicQueue T) (Pc T) (Call T) (Output T)} (calling : Calling code)
    (within : Within start start) {events : List (Threads.Event Thread (Call T) (Output T))}
    {state : Threads Thread (CDMAtomicQueue T) (Pc T)}
    (run : (code.machine start).Run events state) : RunWithin start events () state.shared := by
  have fresh : RunWithin start ([] : List (Threads.Event Thread (Call T) (Output T))) () start :=
    ⟨within, nofun⟩
  have kept : ∃ ghost, RunWithin start events ghost state.shared ∧
      ∀ thread, (state.pc thread).Within start.capacity := by
    refine Program.run_invariant (RunWithin start) (fun _ _ _ _ pc => pc.Within start.capacity)
      fresh ?_ ?_ ?_ run
    · intro thread
      rw [calling.idle]
      trivial
    · intro events _ state thread call pc _ sound _ entered
      refine ⟨(), ?_, calling.enter entered _, fun _ _ _ facts => facts⟩
      exact sound.snoc sound.1 nofun
    · intro events _ state thread after pc output _ sound points taken
      rw [calling.advance] at taken
      obtain ⟨kept, next, addresses⟩ := advance_within sound.1 points taken
      refine ⟨(), ?_, next, fun _ _ _ facts => facts⟩
      apply sound.snoc kept
      intro output shown
      cases shown
      exact addresses
  obtain ⟨_, sound, _⟩ := kept
  exact sound

end Slots

section Blocks

variable {sizeT capacity : UInt64}

/-- The number of bytes is below `2 ^ 64` when computed without wrapping. -/
def Fits (sizeT capacity : UInt64) : Prop :=
  sizeT.toNat * (capacity.toNat + 2 * (padding sizeT).toNat) < 2 ^ 64

theorem slot_covered (sized : 1 ≤ sizeT) (fits : Fits sizeT capacity) {position : UInt64}
    (inside : position < capacity) :
    ((position + padding sizeT).toNat + 1) * sizeT.toNat ≤ (allocated sizeT capacity).toNat := by
  have positive : 1 ≤ sizeT.toNat := UInt64.le_iff_toNat_le.mp sized
  have below := UInt64.lt_iff_toNat_lt.mp inside
  have slots : capacity.toNat + 2 * (padding sizeT).toNat < 2 ^ 64 :=
    lt_of_le_of_lt (Nat.le_mul_of_pos_left _ positive) fits
  have index : (position + padding sizeT).toNat = position.toNat + (padding sizeT).toNat := by
    rw [UInt64.toNat_add, Nat.mod_eq_of_lt (by omega)]
  rw [allocated_toNat, Nat.mod_eq_of_lt fits, index, Nat.mul_comm]
  apply Nat.mul_le_mul_left
  omega

/-- The slot behind the padding in front of the ring takes less than `2 ^ 64` bytes,
unless one object alone has `2 ^ 63`. -/
theorem padding_bytes (small : sizeT.toNat < 2 ^ 63) :
    ((padding sizeT).toNat + 1) * sizeT.toNat < 2 ^ 64 := by
  rw [padding_toNat]
  by_cases wide : 128 ≤ sizeT.toNat
  · rw [Nat.div_eq_of_lt (by omega)]
    omega
  · have quotient := Nat.div_mul_le_self 127 sizeT.toNat
    rw [Nat.add_mul, Nat.add_mul]
    omega

/-- A wrapped size leaves out the slot of an index that pushes alone reach. -/
theorem slot_uncovered (enough : 2 ≤ capacity.toNat) (wraps : ¬Fits sizeT capacity) :
    ∃ position : UInt64, position.toNat + 1 < capacity.toNat ∧
      (allocated sizeT capacity).toNat <
        ((position + padding sizeT).toNat + 1) * sizeT.toNat := by
  have word := capacity.toNat_lt
  have bytes := allocated_toNat sizeT capacity
  have wrapped : 2 ^ 64 ≤ sizeT.toNat * (capacity.toNat + 2 * (padding sizeT).toNat) :=
    Nat.le_of_not_lt wraps
  have block := (allocated sizeT capacity).toNat_lt
  by_cases huge : 2 ^ 63 ≤ sizeT.toNat
  · refine ⟨0, enough, ?_⟩
    have one : (padding sizeT).toNat = 1 := by
      rw [padding_toNat, Nat.div_eq_of_lt (by omega)]
    rw [UInt64.zero_add, one]
    omega
  · have front := @padding_bytes sizeT (by omega)
    by_cases last : capacity.toNat - 2 + (padding sizeT).toNat < 2 ^ 64
    · refine ⟨UInt64.ofNat (capacity.toNat - 2), ?_, ?_⟩
      · rw [UInt64.toNat_ofNat_of_lt' (show _ < 2 ^ 64 by omega)]
        omega
      · rw [UInt64.toNat_add, UInt64.toNat_ofNat_of_lt' (show _ < 2 ^ 64 by omega),
          Nat.mod_eq_of_lt last]
        have split : sizeT.toNat * (capacity.toNat + 2 * (padding sizeT).toNat) =
            (capacity.toNat - 2 + (padding sizeT).toNat + 1) * sizeT.toNat +
              ((padding sizeT).toNat + 1) * sizeT.toNat := by
          rw [← Nat.add_mul, Nat.mul_comm]
          congr 1
          omega
        rw [split] at bytes wrapped
        omega
    · have few : (padding sizeT).toNat ≤ 128 := by
        have quotient := Nat.div_le_self 127 sizeT.toNat
        rw [padding_toNat]
        omega
      have positive : 0 < sizeT.toNat := by
        apply Nat.pos_of_ne_zero
        intro zero
        rw [zero, Nat.zero_mul] at wrapped
        omega
      refine ⟨UInt64.ofNat (2 ^ 64 - 1 - (padding sizeT).toNat), ?_, ?_⟩
      · rw [UInt64.toNat_ofNat_of_lt' (show _ < 2 ^ 64 by omega)]
        omega
      · rw [UInt64.toNat_add, UInt64.toNat_ofNat_of_lt' (show _ < 2 ^ 64 by omega),
          Nat.sub_add_cancel (by omega), Nat.mod_eq_of_lt (by omega)]
        omega

end Blocks

section Constructed

variable [DecidableEq Thread]
  {code : Program Thread (CDMAtomicQueue T) (Pc T) (Call T) (Output T)} {thread : Thread}
  {sizeT capacity : UInt64} {start : CDMAtomicQueue T}

theorem construct_eq (built : construct T sizeT capacity = some start) :
    start = ⟨capacity, padding sizeT, fun _ => none, 0, 0⟩ ∧ 2 ≤ capacity.toNat := by
  unfold construct at built
  split at built
  case isTrue => cases built
  case isFalse enough =>
      cases built
      exact ⟨rfl, UInt64.le_iff_toNat_le.mp (UInt64.not_lt.mp enough)⟩

theorem covers_of_fits (calling : Calling code) (sized : 1 ≤ sizeT)
    (built : construct T sizeT capacity = some start) (fits : Fits sizeT capacity) :
    Covers code start sizeT capacity := by
  obtain ⟨rfl, enough⟩ := construct_eq built
  have nonempty : 0 < capacity := by
    rw [UInt64.lt_iff_toNat_lt]
    exact lt_of_lt_of_le Nat.zero_lt_two enough
  intro events state run event member output shown index used
  have kept := run_within calling ⟨rfl, rfl, nonempty, nonempty⟩ run
  obtain ⟨position, inside, rfl⟩ := kept.2 event member output shown index used
  exact slot_covered sized fits inside

theorem fits_of_covers (calling : Calling code) (producing : Producing code thread) (value : T)
    (built : construct T sizeT capacity = some start) (covers : Covers code start sizeT capacity) :
    Fits sizeT capacity := by
  obtain ⟨rfl, enough⟩ := construct_eq built
  by_contra wraps
  obtain ⟨position, inside, outside⟩ := slot_uncovered enough wraps
  obtain ⟨state, run, _⟩ := @pushes_run _ _ _ _ ⟨capacity, padding sizeT, fun _ => none, 0, 0⟩ _
    producing calling.idle value ⟨rfl, rfl⟩ (position.toNat + 1) inside
  apply Nat.not_le.mpr outside
  apply covers _ _ run (.ran thread ⟨.construct (position + padding sizeT) (some value), none⟩) ?_
    _ rfl _ rfl
  apply List.mem_flatMap.mpr
  refine ⟨position.toNat, List.mem_range.mpr (Nat.lt_succ_self _), ?_⟩
  simp [pushEvents, CDMAtomicQueue.slot]

/-- The block covers the slots in use exactly when its size did not wrap: for one
producer and one consumer, and for any number of threads with any calls. -/
theorem allocation_covers_iff [Inhabited T] (sized : 1 ≤ sizeT)
    (built : construct T sizeT capacity = some start) :
    (Covers (program T) start sizeT capacity ↔ Fits sizeT capacity) ∧
      (Covers (anyone T) start sizeT capacity ↔ Fits sizeT capacity) := by
  have owner : Producing (program T) .producer := ⟨rfl, fun _ _ => rfl⟩
  have first : Producing (anyone T) 0 := ⟨rfl, fun _ _ => rfl⟩
  constructor
  · constructor
    · exact fits_of_covers calling_program owner default built
    · exact covers_of_fits calling_program sized built
  · constructor
    · exact fits_of_covers calling_anyone first default built
    · exact covers_of_fits calling_anyone sized built

/-- Four objects of eight bytes. -/
theorem allocation_covers_iff_small :
    ∃ start, construct Nat 8 4 = some start ∧ Covers (program Nat) start 8 4 := by
  have built : construct Nat 8 4 = some ⟨4, padding 8, fun _ => none, 0, 0⟩ := rfl
  have fits : Fits 8 4 := by
    show 8 * (4 + 2 * 16) < 2 ^ 64
    decide
  have covers := @allocation_covers_iff Nat 8 4 _ _ (by decide) built
  exact ⟨_, built, covers.1.mpr fits⟩

/-- With `2 ^ 61 - 31` objects of eight bytes the constructor gets a block of eight
bytes, and the first push constructs its object behind it. -/
theorem wrapped_block_overrun :
    ∃ (start : CDMAtomicQueue Nat) (state : State Nat),
      construct Nat 8 2305843009213693921 = some start ∧ allocated 8 2305843009213693921 = 8 ∧
      ((program Nat).machine start).Run (pushEvents .producer 7 16) state ∧
      ¬Covers (program Nat) start 8 2305843009213693921 := by
  have built : construct Nat 8 2305843009213693921 =
      some ⟨2305843009213693921, padding 8, fun _ => none, 0, 0⟩ := rfl
  have run : ∃ state,
      ((program Nat).machine ⟨2305843009213693921, padding 8, fun _ => none, 0, 0⟩).Run
        (pushEvents .producer 7 16) state :=
    ⟨_, Machine.exec_run _ [.call .producer (.tryPush (some 7)), .run .producer, .run .producer,
      .run .producer, .run .producer] rfl⟩
  obtain ⟨state, run⟩ := run
  refine ⟨_, state, built, rfl, run, ?_⟩
  intro covers
  have inside := covers _ _ run (.ran .producer ⟨.construct 16 (some 7), none⟩)
    (by simp [pushEvents]) _ rfl _ rfl
  revert inside
  decide

end Constructed

end DmLockFree.CDMAtomicQueue
