import DmLockFree.AtomicKFifo.Safety

/-!
# Records of a fixed size

When every transfer asks for `size` bytes and `size` divides the capacity, both
counters stay multiples of `size`, so that the free space, the stored length and
the distance to the end of the ring are multiples of it as well.
-/

set_option autoImplicit false

namespace DmLockFree.AtomicKFifo

open Library

/-- The producer puts and the consumer gets and peeks `size` bytes at a time;
each thread may call every observer. -/
def recordRoles (size : UInt32) : Roles
  | .producer, .put _ len => len == size
  | .consumer, .read _ _ len => len == size
  | _, .observe _ | _, .isEmptyOutFirst => true
  | _, _ => false

theorem recordRoles_steady (size : UInt32) : Steady (recordRoles size) := by
  intro thread call permitted
  cases thread with
  | producer => cases call with
    | read | reset => cases permitted
    | _ => rfl
  | consumer => cases call with
    | put | reset => cases permitted
    | _ => rfl

/-- What the history returned, in order. -/
def returns (events : List Event) : List Return :=
  events.filterMap Event.returned

/-- The record that a put has stored. -/
def Return.stored : Return → Option (List UInt8)
  | .put data amount => if amount = 0 then none else some (data.take amount.toNat)
  | _ => none

/-- The record that a get has fetched. -/
def Return.fetched : Return → Option (List UInt8)
  | .read .get data amount => if amount = 0 then none else some (data.take amount.toNat)
  | _ => none

def stored (answers : List Return) : List (List UInt8) :=
  answers.filterMap Return.stored

def fetched (answers : List Return) : List (List UInt8) :=
  answers.filterMap Return.fetched

/-- A transfer moved a whole record or nothing. -/
def Return.Whole (size : UInt32) : Return → Prop
  | .put data amount | .read _ data amount =>
      amount = 0 ∨ amount = size ∧ size.toNat ≤ data.length
  | _ => True

/-- Points of a call whose transfer is a record in one segment. -/
def Pc.Aligned (size : UInt32) : Pc → Prop
  | .putLoadIn _ len | .putLoadOut _ len _ | .readLoadOut _ _ len | .readLoadIn _ _ len _ =>
      len = size
  | .putCopy transfer | .putStore transfer | .readCopy _ transfer | .getStore transfer =>
      transfer.actual = size
  | .putCopyRest _ | .readCopyRest _ _ => False
  | _ => True

theorem accepted_eq_flatten (events : List Event) :
    accepted events = (stored (returns events)).flatten := by
  induction events with
  | nil => rfl
  | cons event events ih =>
      simp only [accepted, stored, returns, List.flatMap_cons, List.filterMap_cons] at ih ⊢
      rw [ih]
      cases event.returned with
      | none => rfl
      | some answer =>
          cases answer with
          | put data amount =>
              by_cases nothing : amount = 0
              · simp [acceptedBytes, Return.stored, nothing]
              · simp [acceptedBytes, Return.stored, nothing]
          | _ => rfl

theorem delivered_eq_flatten (events : List Event) :
    delivered events = (fetched (returns events)).flatten := by
  induction events with
  | nil => rfl
  | cons event events ih =>
      simp only [delivered, fetched, returns, List.flatMap_cons, List.filterMap_cons] at ih ⊢
      rw [ih]
      cases event.returned with
      | none => rfl
      | some answer =>
          cases answer with
          | read kind data amount =>
              cases kind with
              | peek => rfl
              | get =>
                  by_cases nothing : amount = 0
                  · simp [deliveredBytes, Return.fetched, nothing]
                  · simp [deliveredBytes, Return.fetched, nothing]
          | _ => rfl

section Answers

variable {size : UInt32} {answers : List Return}

theorem stored_length (whole : ∀ answer ∈ answers, answer.Whole size) :
    ∀ block ∈ stored answers, block.length = size.toNat := by
  intro block member
  obtain ⟨answer, among, found⟩ := List.mem_filterMap.mp member
  have record := whole answer among
  cases answer with
  | put data amount =>
      simp only [Return.stored] at found
      split at found
      · cases found
      · cases found
        rcases record with nothing | ⟨rfl, supplied⟩
        · contradiction
        · exact List.length_take_of_le supplied
  | _ => cases found

theorem fetched_length (whole : ∀ answer ∈ answers, answer.Whole size) :
    ∀ block ∈ fetched answers, block.length = size.toNat := by
  intro block member
  obtain ⟨answer, among, found⟩ := List.mem_filterMap.mp member
  have record := whole answer among
  cases answer with
  | read kind data amount =>
      cases kind with
      | peek => cases found
      | get =>
          simp only [Return.fetched] at found
          split at found
          · cases found
          · cases found
            rcases record with nothing | ⟨rfl, supplied⟩
            · contradiction
            · exact List.length_take_of_le supplied
  | _ => cases found

theorem dvd_length_flatten {size : Nat} {blocks : List (List UInt8)}
    (uniform : ∀ block ∈ blocks, block.length = size) : size ∣ blocks.flatten.length := by
  induction blocks with
  | nil => exact Nat.dvd_zero size
  | cons block blocks ih =>
      rw [List.flatten_cons, List.length_append, uniform block (List.mem_cons_self ..)]
      exact Nat.dvd_add (Nat.dvd_refl size)
        (ih fun other member => uniform other (List.mem_cons_of_mem _ member))

end Answers

section Step

variable {exponent out : Nat} {stream : List UInt8} {fifo after : AtomicKFifo} {pc next : Pc}
  {returned : Option Return} {size : UInt32} {transfer : Transfer}

/-- A record fits before the end of the ring when it starts at a multiple of its size. -/
theorem Shape.one_segment {counter : Nat} (shape : Shape fifo exponent)
    (index : Shows transfer.index counter) (divides : size.toNat ∣ 2 ^ exponent)
    (aligned : size.toNat ∣ counter) (record : transfer.actual = size) :
    ¬ transfer.segment fifo < transfer.actual := by
  have below := Nat.mod_lt counter (Nat.two_pow_pos exponent)
  have rest : size.toNat ∣ 2 ^ exponent - counter % 2 ^ exponent :=
    Nat.dvd_sub divides ((Nat.dvd_mod_iff divides).mpr aligned)
  have fits := Nat.le_of_dvd (by omega) rest
  rw [UInt32.lt_iff_toNat_lt, shape.segment index, record, Nat.min_eq_left fits]
  exact Nat.lt_irrefl _

theorem min_record {room : UInt32} (divides : size.toNat ∣ room.toNat)
    (something : min size room ≠ 0) : min size room = size := by
  rw [← UInt32.toNat_inj, UInt32.toNat_min']
  have positive : 0 < room.toNat := by
    apply Nat.pos_of_ne_zero
    intro zero
    apply something
    rw [← UInt32.toNat_inj, UInt32.toNat_min', zero, Nat.min_zero]
    rfl
  exact Nat.min_eq_left (Nat.le_of_dvd positive divides)

/-- What a step of a record transfer owes. -/
structure KeepsWhole (size : UInt32) (next : Pc) (returned : Option Return) : Prop where
  aligned : next.Aligned size
  whole : ∀ answer ∈ returned, answer.Whole size

theorem KeepsWhole.goesOn (aligned : next.Aligned size) : KeepsWhole size next none :=
  ⟨aligned, nofun⟩

theorem KeepsWhole.answers {answer : Return} (whole : answer.Whole size) :
    KeepsWhole size .idle (some answer) where
  aligned := trivial
  whole := by
    intro _ same
    cases same
    exact whole

theorem producer_record (sound : Sound exponent stream out fifo)
    (facts : ProducerFacts exponent stream out fifo.buffer pc) (aligned : pc.Aligned size)
    (divides : size.toNat ∣ 2 ^ exponent) (accepted : size.toNat ∣ stream.length)
    (delivered : size.toNat ∣ out) (taken : advance fifo pc = some (after, next, returned)) :
    KeepsWhole size next returned := by
  cases advances taken with
  | putLoadIn => exact .goesOn aligned
  | putNothing => exact .answers (.inl rfl)
  | putLoadOut data len currentIn something =>
      obtain ⟨_, index⟩ := facts
      obtain rfl : len = size := aligned
      have room : len.toNat ∣ (fifo.capacity - (currentIn - fifo.outIdx)).toNat := by
        rw [sound.freeSpace index]
        exact Nat.dvd_sub divides (Nat.dvd_sub accepted delivered)
      exact .goesOn (min_record room something)
  | putCopySplit transfer buffer copied split =>
      have writing : Writing exponent stream out fifo.buffer transfer 0 := facts
      exact absurd split (sound.shape.one_segment writing.index divides accepted aligned)
  | putCopyWhole => exact .goesOn aligned
  | putStore transfer =>
      have writing : Writing exponent stream out fifo.buffer transfer transfer.actual.toNat := facts
      obtain rfl : transfer.actual = size := aligned
      exact .answers (.inr ⟨rfl, writing.requested.trans writing.supplied⟩)
  | observeOut observer => cases observer <;> exact .answers trivial
  | isEmptyIn => exact .answers trivial
  | observeIn | isEmptyOut => exact .goesOn trivial
  | putCopyRest => exact aligned.elim
  | _ => exact facts.elim

theorem KeepsWhole.finish {kind : Read} (left : kind.finish transfer = (next, returned))
    (record : transfer.actual = size)
    (supplied : transfer.actual.toNat ≤ transfer.data.length) :
    KeepsWhole size next returned := by
  cases kind with
  | get =>
      cases left
      exact .goesOn record
  | peek =>
      cases left
      rw [record] at supplied
      exact .answers (.inr ⟨record, supplied⟩)

theorem consumer_record (sound : Sound exponent stream out fifo)
    (facts : ConsumerFacts exponent stream out pc) (aligned : pc.Aligned size)
    (divides : size.toNat ∣ 2 ^ exponent) (accepted : size.toNat ∣ stream.length)
    (delivered : size.toNat ∣ out) (taken : advance fifo pc = some (after, next, returned)) :
    KeepsWhole size next returned := by
  cases advances taken with
  | readLoadOut => exact .goesOn aligned
  | readNothing => exact .answers (.inl rfl)
  | readLoadIn kind data len currentOut something =>
      obtain ⟨_, index⟩ := facts
      obtain rfl : len = size := aligned
      have present : len.toNat ∣ (fifo.inIdx - currentOut).toNat := by
        rw [sound.dataLen index]
        exact Nat.dvd_sub accepted delivered
      exact .goesOn (min_record present something)
  | readCopySplit kind transfer data copied split =>
      have reading : Reading stream out transfer 0 := facts
      exact absurd split (sound.shape.one_segment reading.index divides delivered aligned)
  | readCopyWhole kind transfer data next returned copied whole left =>
      have reading : Reading stream out transfer 0 := facts
      obtain ⟨caller, ring, copied⟩ := memcpy_eq_some_iff.mp copied
      apply KeepsWhole.finish left aligned
      rw [← copied, length_splice caller ring]
      exact reading.requested.trans reading.supplied
  | getStore transfer =>
      have reading : Reading stream out transfer transfer.actual.toNat := facts
      obtain rfl : transfer.actual = size := aligned
      exact .answers (.inr ⟨rfl, reading.requested.trans reading.supplied⟩)
  | observeOut observer => cases observer <;> exact .answers trivial
  | isEmptyIn => exact .answers trivial
  | observeIn | isEmptyOut => exact .goesOn trivial
  | readCopyRest => exact aligned.elim
  | _ => exact facts.elim

end Step

theorem returns_snoc (events : List Event) (event : Event) :
    returns (events ++ [event]) = returns events ++ event.returned.toList := by
  unfold returns
  rw [List.filterMap_append]
  cases returned : event.returned <;> simp [returned]

/-- The calls of a run of records. -/
structure Recorded (size : UInt32) (events : List Event) (state : State) : Prop where
  aligned : ∀ thread, (state.pc thread).Aligned size
  whole : ∀ answer ∈ returns events, answer.Whole size

section Runs

variable {exponent : Nat} {fifo : AtomicKFifo} {size : UInt32} {events : List Event}
  {state : State}

theorem recordRoles_entry {thread : Thread} {call : Call}
    (permitted : recordRoles size thread call = true) : call.entry.Aligned size := by
  cases call with
  | put data len =>
      cases thread with
      | producer => exact beq_iff_eq.mp permitted
      | consumer => cases permitted
  | read kind data len =>
      cases thread with
      | producer => cases permitted
      | consumer => exact beq_iff_eq.mp permitted
  | _ => trivial

theorem Recorded.accepted_dvd (recorded : Recorded size events state) :
    size.toNat ∣ (accepted events).length := by
  rw [accepted_eq_flatten]
  exact dvd_length_flatten (stored_length recorded.whole)

theorem Recorded.delivered_dvd (recorded : Recorded size events state) :
    size.toNat ∣ (delivered events).length := by
  rw [delivered_eq_flatten]
  exact dvd_length_flatten (fetched_length recorded.whole)

theorem Recorded.moved {thread : Thread} {after : AtomicKFifo} {pc : Pc}
    {returned : Option Return} (recorded : Recorded size events state)
    (keeps : KeepsWhole size pc returned) :
    Recorded size (events ++ [⟨thread, returned⟩]) (state.moved after pc thread) := by
  constructor
  · intro other
    by_cases same : thread = other
    · subst same
      rw [State.moved_pc]
      exact keeps.aligned
    · rw [State.moved_pc_of_ne _ _ _ same]
      exact recorded.aligned other
  · intro answer member
    rw [returns_snoc] at member
    rcases List.mem_append.mp member with before | now
    · exact recorded.whole answer before
    · exact keeps.whole answer (Option.mem_toList.mp now)

theorem Invariant.recorded (start : Invariant exponent [] 0 ⟨fifo, .idle, .idle⟩)
    (divides : size.toNat ∣ 2 ^ exponent)
    (run : (machine (recordRoles size) fifo).Run events state) : Recorded size events state := by
  induction run with
  | refl =>
      constructor
      · intro thread
        cases thread <;> trivial
      · exact nofun
  | @snoc state after events label event path taken ih =>
      have good := (start.run (recordRoles_steady size) path).1
      obtain ⟨thread, call, permitted, _, _, rfl, rfl⟩ |
        ⟨thread, next, pc, returned, advanced, rfl, rfl⟩ := step_cases taken
      · exact ih.moved ⟨recordRoles_entry permitted, nofun⟩
      · apply ih.moved
        have aligned := ih.aligned thread
        cases thread with
        | producer =>
            exact producer_record good.sound good.producer aligned divides ih.accepted_dvd
              ih.delivered_dvd advanced
        | consumer =>
            exact consumer_record good.sound good.consumer aligned divides ih.accepted_dvd
              ih.delivered_dvd advanced

theorem Recorded.in_order (recorded : Recorded size events state) (positive : 0 < size.toNat)
    (bytes : delivered events <+: accepted events) :
    fetched (returns events) <+: stored (returns events) := by
  rw [accepted_eq_flatten, delivered_eq_flatten] at bytes
  exact prefix_of_flatten positive (fetched_length recorded.whole)
    (stored_length recorded.whole) bytes

theorem Recorded.copy (recorded : Recorded size events state)
    (good : Invariant exponent (accepted events) (delivered events).length state)
    (divides : size.toNat ∣ 2 ^ exponent) {thread : Thread} {transfer : Transfer} {range : Range}
    (copying : (state.pc thread).copy state.fifo = some (transfer, range)) :
    range.length = size.toNat := by
  have aligned := recorded.aligned thread
  have whole : ∀ {counter}, Shows transfer.index counter → size.toNat ∣ counter →
      transfer.actual = size → (transfer.segment state.fifo).toNat = size.toNat := by
    intro counter index multiple record
    have undivided := good.sound.shape.one_segment index divides multiple record
    rw [good.sound.shape.segment_all index undivided, record]
  cases thread with
  | producer =>
      have facts := good.producer
      simp only [State.pc] at copying aligned
      cases point : state.producer with
      | putCopy =>
          rw [point] at copying aligned facts
          cases copying
          exact whole (Writing.index facts) recorded.accepted_dvd aligned
      | readCopy => rw [point] at facts; exact facts.elim
      | putCopyRest | readCopyRest => rw [point] at aligned; exact aligned.elim
      | _ => rw [point] at copying; cases copying
  | consumer =>
      have facts := good.consumer
      simp only [State.pc] at copying aligned
      cases point : state.consumer with
      | readCopy =>
          rw [point] at copying aligned facts
          cases copying
          exact whole (Reading.index facts) recorded.delivered_dvd aligned
      | putCopy => rw [point] at facts; exact facts.elim
      | putCopyRest | readCopyRest => rw [point] at aligned; exact aligned.elim
      | _ => rw [point] at copying; cases copying

end Runs

end DmLockFree.AtomicKFifo
