import DmLockFree.AtomicKFifo.Records
import DmLockFree.KFifo.Refinement

/-! Records of a fixed size in both classes. A sequential run of a `KFifo` is a
run of the two threads in which every call returns before the next one. -/

set_option autoImplicit false

namespace DmLockFree

open Library AtomicKFifo

namespace AtomicKFifo

section Alone

variable {roles : Roles} {start after : AtomicKFifo} {state : State} {thread : Thread}
  {answer : Return}

/-- A call that runs alone is a stretch of a run. -/
theorem runAlone_path {fuel : Nat}
    (alone : runAlone fuel state.fifo (state.pc thread) = some (after, answer)) :
    ∃ events, (machine roles start).Path state events (state.moved after .idle thread) ∧
      returns events = [answer] := by
  induction fuel generalizing state with
  | zero => cases alone
  | succ fuel ih =>
      rw [runAlone_succ] at alone
      split at alone
      case h_1 => cases alone
      case h_2 taken =>
          cases alone
          obtain rfl := (advance_answers taken).1
          exact ⟨_, Machine.Path.refl.snoc (machine_run taken), rfl⟩
      case h_3 middle next taken =>
          have first : (machine roles start).Path state ([] ++ [⟨thread, none⟩])
              (state.moved middle next thread) := Machine.Path.refl.snoc (machine_run taken)
          have onward : runAlone fuel (state.moved middle next thread).fifo
              ((state.moved middle next thread).pc thread) = some (after, answer) := by
            rw [State.moved_pc]
            cases thread <;> exact alone
          obtain ⟨events, path, answers⟩ := ih onward
          have same : (state.moved middle next thread).moved after .idle thread =
              state.moved after .idle thread := by
            cases thread <;> rfl
          rw [same] at path
          exact ⟨_, first.trans path, answers⟩

theorem call_path {call : Call} (alone : state.fifo.call call = some (after, answer))
    (idle : state.pc thread = .idle) (permitted : roles thread call = true)
    (supplied : call.Supplied) :
    ∃ events, (machine roles start).Path state events (state.moved after .idle thread) ∧
      returns events = [answer] := by
  have entered : (machine roles start).step state (.call thread call) =
      some (state.moved state.fifo call.entry thread, ⟨thread, none⟩) := by
    unfold machine Machine.restrict
    simp only [Roles.Permits, permitted, if_true, step, idle, supplied, and_self]
  have first := Machine.Path.refl.snoc entered
  have onward : runAlone 5 (state.moved state.fifo call.entry thread).fifo
      ((state.moved state.fifo call.entry thread).pc thread) = some (after, answer) := by
    rw [State.moved_pc]
    cases thread <;> exact alone
  obtain ⟨events, path, answers⟩ : ∃ events, (machine roles start).Path _ events _ ∧
    returns events = [answer] := runAlone_path onward
  have same : (state.moved state.fifo call.entry thread).moved after .idle thread =
      state.moved after .idle thread := by
    cases thread <;> rfl
  rw [same] at path
  exact ⟨_, first.trans path, answers⟩

end Alone

/-- The thread that makes a call: the consumer reads, the producer does the rest. -/
def Call.thread : Call → Thread
  | .read _ _ _ => .consumer
  | _ => .producer

/-- The calls of a run of records; `reset` is none of them. -/
def Call.AsksRecord (size : UInt32) : Call → Prop
  | .put data len | .read _ data len => len = size ∧ size.toNat ≤ data.length
  | .observe _ | .isEmptyOutFirst => True
  | .reset => False

theorem Call.AsksRecord.permitted {size : UInt32} {call : Call} (asks : call.AsksRecord size) :
    recordRoles size call.thread call = true ∧ call.Supplied := by
  cases call with
  | put data len =>
      obtain ⟨rfl, supplied⟩ := asks
      exact ⟨beq_self_eq_true len, supplied⟩
  | read kind data len =>
      obtain ⟨rfl, supplied⟩ := asks
      exact ⟨beq_self_eq_true len, supplied⟩
  | reset => exact asks.elim
  | _ => exact ⟨rfl, trivial⟩

end AtomicKFifo

namespace KFifo

/-- The second `memcpy` of the call runs. -/
def CopiesTwice (fifo : KFifo) : Call → Prop
  | .put _ len =>
      let writeLen := min len fifo.avail
      min writeLen (fifo.capacity - (fifo.inIdx &&& fifo.mask)) < writeLen
  | .read _ _ len =>
      let readLen := min len fifo.len
      min readLen (fifo.capacity - (fifo.outIdx &&& fifo.mask)) < readLen
  | _ => False

/-- Without the second `memcpy` a put is one copy. -/
theorem put_once {fifo : KFifo} {data : List UInt8} {len : UInt32}
    (once : ¬ fifo.CopiesTwice (.put data len)) (room : min len fifo.avail ≠ 0) :
    fifo.put data len =
      (memcpy fifo.buffer (fifo.inIdx &&& fifo.mask).toNat data 0 (min len fifo.avail).toNat).map
        fun buffer => ({ fifo with buffer, inIdx := fifo.inIdx + min len fifo.avail },
          min len fifo.avail) := by
  have whole := UInt32.min_eq_of_not_lt once
  unfold put
  simp only [if_neg room, whole, if_neg (UInt32.lt_irrefl _), Option.map_some]
  exact Option.map_eq_bind.symm

theorem copyOut_once {fifo : KFifo} {kind : AtomicKFifo.Read} {data : List UInt8} {len : UInt32}
    (once : ¬ fifo.CopiesTwice (.read kind data len)) (present : min len fifo.len ≠ 0) :
    fifo.copyOut data len =
      (memcpy data 0 fifo.buffer (fifo.outIdx &&& fifo.mask).toNat (min len fifo.len).toNat).map
        fun data => (data, min len fifo.len) := by
  have whole := UInt32.min_eq_of_not_lt once
  unfold copyOut
  simp only [if_neg present, whole, if_neg (UInt32.lt_irrefl _), Option.map_some]
  exact Option.map_eq_bind.symm

section Sequential

variable {size : UInt32} {start : AtomicKFifo} {fifo low after : KFifo} {answers : List Return}
  {calls : List Call}

/-- A sequential run is a run of the two threads. -/
theorem exec_records (asks : ∀ request ∈ calls, request.AsksRecord size)
    (result : fifo.machine.exec low calls = some (answers, after)) :
    ∃ events, (AtomicKFifo.machine (recordRoles size) start).Path ⟨low.atomic, .idle, .idle⟩
      events ⟨after.atomic, .idle, .idle⟩ ∧ returns events = answers := by
  induction calls generalizing low answers with
  | nil => cases result; exact ⟨[], .refl, rfl⟩
  | cons request calls ih =>
      unfold Machine.exec at result
      split at result
      case h_1 => cases result
      case h_2 middle answer called =>
          obtain ⟨⟨later, last⟩, rest, same⟩ := Option.map_eq_some_iff.mp result
          cases same
          obtain ⟨permitted, supplied⟩ := (asks request (List.mem_cons_self ..)).permitted
          have alone : low.atomic.call request = some (middle.atomic, answer) := by
            rw [call_atomic, show low.call request = _ from called, Option.map_some]
          have idle : (⟨low.atomic, .idle, .idle⟩ : State).pc request.thread = .idle := by
            cases request <;> rfl
          obtain ⟨before, first, answered⟩ : ∃ events,
              (AtomicKFifo.machine (recordRoles size) start).Path _ events _ ∧
                returns events = [answer] :=
            call_path alone idle permitted supplied
          obtain ⟨behind, path, returned⟩ :=
            ih (fun other member => asks other (List.mem_cons_of_mem _ member)) rest
          have back : (⟨low.atomic, .idle, .idle⟩ : State).moved middle.atomic .idle
              request.thread = ⟨middle.atomic, .idle, .idle⟩ := by
            cases request <;> rfl
          rw [back] at first
          refine ⟨before ++ behind, first.trans path, ?_⟩
          rw [returns, List.filterMap_append]
          exact congrArg₂ (· ++ ·) answered returned

/-- A transfer that starts at a multiple of the record ends before the wrap. -/
theorem once_of_record {exponent counter : Nat} {transfer : Transfer} {amount : UInt32}
    (shape : Shape fifo.atomic exponent) (index : Shows transfer.index counter)
    (divides : size.toNat ∣ 2 ^ exponent) (aligned : size.toNat ∣ counter)
    (offered : size.toNat ∣ amount.toNat) (actual : transfer.actual = min size amount) :
    ¬ transfer.segment fifo.atomic < transfer.actual := by
  by_cases nothing : min size amount = 0
  · rw [actual, nothing]
    exact UInt32.not_lt_zero
  · exact shape.one_segment index divides aligned (actual.trans (min_record offered nothing))

theorem not_copiesTwice {exponent : Nat} {events : List Event} {request : Call}
    (sound : Sound exponent (accepted events) (delivered events).length after.atomic)
    (recorded : Recorded size events ⟨after.atomic, .idle, .idle⟩)
    (divides : size.toNat ∣ 2 ^ exponent) (asks : request.AsksRecord size) :
    ¬ after.CopiesTwice request := by
  cases request with
  | put data len =>
      obtain ⟨rfl, _⟩ := asks
      have free : after.avail.toNat =
          2 ^ exponent - ((accepted events).length - (delivered events).length) :=
        sound.freeSpace sound.inIdx
      have room : len.toNat ∣ after.avail.toNat := by
        rw [free]
        exact Nat.dvd_sub divides (Nat.dvd_sub recorded.accepted_dvd recorded.delivered_dvd)
      let transfer : Transfer := ⟨data, len, after.inIdx, min len after.avail⟩
      have index : Shows transfer.index (accepted events).length := sound.inIdx
      have once := once_of_record sound.shape index divides recorded.accepted_dvd room rfl
      unfold CopiesTwice
      exact once
  | read kind data len =>
      obtain ⟨rfl, _⟩ := asks
      have used : after.len.toNat = (accepted events).length - (delivered events).length :=
        sound.dataLen sound.outIdx
      have present : len.toNat ∣ after.len.toNat := by
        rw [used]
        exact Nat.dvd_sub recorded.accepted_dvd recorded.delivered_dvd
      let transfer : Transfer := ⟨data, len, after.outIdx, min len after.len⟩
      have index : Shows transfer.index (delivered events).length := sound.outIdx
      have once := once_of_record sound.shape index divides recorded.delivered_dvd present rfl
      unfold CopiesTwice
      exact once
  | _ => exact id

end Sequential

end KFifo

/-- Records never tear. In every run of one producer and one consumer of an
`AtomicKFifo` and in every sequential run of a `KFifo` that transfers `size` bytes
at a time without `reset`, where `size` divides the capacity: a put, get or peek
moves a whole record or nothing, in one `memcpy`, and the records that the gets
return are those that the puts took, in order. -/
theorem records_never_tear {requestedCapacity size : UInt32} {kfifo : KFifo}
    {fifo : AtomicKFifo} (built : KFifo.construct requestedCapacity = some kfifo)
    (builtAtomic : AtomicKFifo.construct requestedCapacity = some fifo)
    (divides : size.toNat ∣ fifo.capacity.toNat) :
    (∀ events state, (machine (recordRoles size) fifo).Run events state →
      (∀ answer ∈ returns events, answer.Whole size) ∧
      (∀ thread, (∀ transfer, state.pc thread ≠ .putCopyRest transfer) ∧
        (∀ kind transfer, state.pc thread ≠ .readCopyRest kind transfer) ∧
        ∀ transfer range, (state.pc thread).copy state.fifo = some (transfer, range) →
          range.length = size.toNat) ∧
      fetched (returns events) <+: stored (returns events)) ∧
    ∀ calls : List Call, (∀ request ∈ calls, request.AsksRecord size) →
      ∃ answers after, kfifo.machine.exec kfifo calls = some (answers, after) ∧
        (∀ answer ∈ answers, answer.Whole size) ∧
        (∀ request : Call, request.AsksRecord size → ¬ after.CopiesTwice request) ∧
        fetched answers <+: stored answers := by
  obtain ⟨exponent, start⟩ := construct_invariant builtAtomic
  rw [start.sound.shape.capacity] at divides
  have positive : 0 < size.toNat := Nat.pos_of_dvd_of_pos divides (Nat.two_pow_pos exponent)
  constructor
  · intro events state run
    obtain ⟨good, isPrefix⟩ := start.run (recordRoles_steady size) run
    have recorded := start.recorded divides run
    refine ⟨recorded.whole, ?_, ?_⟩
    · intro thread
      have aligned := recorded.aligned thread
      refine ⟨?_, ?_, fun _ _ copying => recorded.copy good divides copying⟩
      · intro transfer point
        rw [point] at aligned
        exact aligned
      · intro kind transfer point
        rw [point] at aligned
        exact aligned
    · apply recorded.in_order positive
      rw [isPrefix]
      exact List.take_prefix _ _
  · intro calls asks
    have same := KFifo.construct_atomic requestedCapacity
    rw [built, builtAtomic, Option.map_some, Option.some.injEq] at same
    subst same
    obtain ⟨answers, after, _, result, _, _⟩ := @KFifo.exec_stores exponent kfifo kfifo [] calls
      ⟨[], 0, start.sound, rfl⟩ fun request member => (asks request member).permitted.2
    obtain ⟨events, run, rfl⟩ : ∃ events, (machine (recordRoles size) kfifo.atomic).Run events
        ⟨after.atomic, .idle, .idle⟩ ∧ returns events = answers :=
      KFifo.exec_records asks result
    obtain ⟨good, isPrefix⟩ := start.run (recordRoles_steady size) run
    have recorded := start.recorded divides run
    refine ⟨_, after, result, recorded.whole, ?_, ?_⟩
    · intro request asked
      exact KFifo.not_copiesTwice good.sound recorded divides asked
    · apply recorded.in_order positive
      rw [isPrefix]
      exact List.take_prefix _ _

/-- Two records through a ring of one, the second put before the first get ends. -/
def twoRecords : List Label :=
  [.call .producer (.put [7, 8] 2), .run .producer, .run .producer, .run .producer,
    .run .producer, .call .consumer (.read .get [0, 0] 2), .run .consumer, .run .consumer,
    .call .producer (.put [5, 6] 2), .run .producer, .run .consumer, .run .consumer,
    .run .producer, .run .producer, .run .producer]

theorem records_never_tear_two :
    ∃ fifo events state answers after, AtomicKFifo.construct 1 = some fifo ∧
      (machine (recordRoles 2) fifo).Run events state ∧
      stored (returns events) = [[7, 8], [5, 6]] ∧ fetched (returns events) = [[7, 8]] ∧
      fetched (returns events) <+: stored (returns events) ∧
      (KFifo.machine ⟨[0, 0], 2, 1, 0, 0⟩).exec ⟨[0, 0], 2, 1, 0, 0⟩
        [.put [7, 8] 2, .read .get [0, 0] 2] = some (answers, after) ∧
      fetched answers <+: stored answers := by
  have built : KFifo.construct 1 = some ⟨[0, 0], 2, 1, 0, 0⟩ := by decide
  have builtAtomic : AtomicKFifo.construct 1 = some ⟨[0, 0], 2, 1, 0, 0⟩ := by decide
  have divides : (2 : UInt32).toNat ∣ (2 : UInt32).toNat := Nat.dvd_refl _
  obtain ⟨interleaved, sequential⟩ := records_never_tear built builtAtomic divides
  have run := Machine.exec_run (machine (recordRoles 2) ⟨[0, 0], 2, 1, 0, 0⟩) twoRecords rfl
  obtain ⟨answers, after, result, _, _, inOrder⟩ :=
    sequential [.put [7, 8] 2, .read .get [0, 0] 2] (by simp [Call.AsksRecord])
  exact ⟨_, _, _, answers, after, builtAtomic, run, rfl, rfl, (interleaved _ _ run).2.2, result,
    inOrder⟩

end DmLockFree
