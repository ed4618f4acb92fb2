import DmLockFree.ConcurrentQueue.Implicit.Steps
import DmLockFree.Library.History
import DmLockFree.Library.Reservation

/-!
# The counters of `ImplicitProducer`

The counters wrap around; the numbers they stand for are read off the history. A
consumer may claim what it has reserved, because the tail has reached the end of
its reservation.
-/

set_option autoImplicit false

namespace DmLockFree.ConcurrentQueue.ImplicitProducer

open Library Program Ticket

variable {Consumer T : Type}

abbrev Event (Consumer T : Type) := Threads.Event (Thread Consumer) (Call T) (Output T)

abbrev State (Consumer T : Type) := Threads (Thread Consumer) (ImplicitProducer T) (Pc T)

def Access.published : Access T → Option T
  | .storeTailIndex value => some value
  | _ => none

def Access.taken : Access T → Nat
  | .claim _ amount => amount.toNat
  | _ => 0

def Access.reserved : Access T → Nat
  | .reserve amount => amount.toNat
  | _ => 0

def Access.overcommitted : Access T → Nat
  | .overcommit amount => amount.toNat
  | _ => 0

/-- The access of a step; a call makes none. -/
def access (event : Event Consumer T) : Option (Access T) := event.output.map Output.access

/-- The elements that were enqueued, in their order. -/
def published (events : List (Event Consumer T)) : List T :=
  events.filterMap fun event => (access event).bind Access.published

def count (amount : Access T → Nat) (events : List (Event Consumer T)) : Nat :=
  (events.map fun event => (access event).elim 0 amount).sum

/-- How many elements the consumers have claimed. -/
def taken (events : List (Event Consumer T)) : Nat := count Access.taken events

def reserved (events : List (Event Consumer T)) : Nat := count Access.reserved events

def overcommitted (events : List (Event Consumer T)) : Nat := count Access.overcommitted events

section Snoc

variable (amount : Access T → Nat) (events : List (Event Consumer T)) (thread : Thread Consumer)
  (request : Call T) (output : Output T)

@[simp] theorem published_called :
    published (events ++ [.called thread request]) = published events := by
  simp [published, access, Threads.Event.output]

@[simp] theorem published_ran : published (events ++ [.ran thread output]) =
    published events ++ output.access.published.toList := by
  cases shown : output.access.published <;>
    simp [published, access, Threads.Event.output, shown]

@[simp] theorem count_called :
    count amount (events ++ [.called thread request]) = count amount events := by
  simp [count, access, Threads.Event.output]

@[simp] theorem count_ran : count amount (events ++ [.ran thread output]) =
    count amount events + amount output.access := by
  simp [count, access, Threads.Event.output]

@[simp] theorem taken_ran : taken (events ++ [.ran thread output]) =
    taken events + output.access.taken := count_ran ..

@[simp] theorem reserved_ran : reserved (events ++ [.ran thread output]) =
    reserved events + output.access.reserved := count_ran ..

@[simp] theorem overcommitted_ran : overcommitted (events ++ [.ran thread output]) =
    overcommitted events + output.access.overcommitted := count_ran ..

@[simp] theorem taken_called : taken (events ++ [.called thread request]) = taken events :=
  count_called ..

@[simp] theorem reserved_called :
    reserved (events ++ [.called thread request]) = reserved events := count_called ..

@[simp] theorem overcommitted_called :
    overcommitted (events ++ [.called thread request]) = overcommitted events := count_called ..

end Snoc

variable [DecidableEq Consumer]

/-- The consumer that looks at the overcommitted elements. -/
def looker : Event Consumer T → Option Consumer
  | .ran (.consumer name) ⟨.loadOvercommit, _⟩ => some name
  | _ => none

/-- The overcommitted elements, now and when the consumer has last looked. -/
def look (consumer : Consumer) (known : Nat × Nat) (event : Event Consumer T) : Nat × Nat :=
  (known.1 + (access event).elim 0 Access.overcommitted,
    if looker event = some consumer then known.1 else known.2)

def seen (consumer : Consumer) (events : List (Event Consumer T)) : Nat :=
  (events.foldl (look consumer) (0, 0)).2

/-- Between the look of a consumer at the overcommitted elements and its reservation,
the others do not move the counters by `2 ^ 63`. -/
def Timely (events : List (Event Consumer T)) : Prop :=
  Along (fun earlier event => ∀ consumer amount returned,
    event = .ran (.consumer consumer) ⟨.reserve amount, returned⟩ →
      reserved earlier ≤ seen consumer earlier + taken earlier + 2 ^ 63) events

theorem Timely.of_check {events : List (Event Consumer T)}
    (checked : alongAfter (fun earlier event =>
      match event with
      | .ran (.consumer consumer) ⟨.reserve _, _⟩ =>
          decide (reserved earlier ≤ seen consumer earlier + taken earlier + 2 ^ 63)
      | _ => true) [] events = true) : Timely events := by
  refine Along.of_check (fun earlier event mine => ?_) checked
  intro consumer amount returned same
  subst same
  exact of_decide_eq_true mine

section Seen

variable {consumer : Consumer} {events : List (Event Consumer T)} {event : Event Consumer T}

theorem foldl_look_fst (events : List (Event Consumer T)) :
    (events.foldl (look consumer) (0, 0)).1 = overcommitted events := by
  induction events using List.reverseRecOn with
  | nil => rfl
  | append_singleton events event ih =>
      rw [List.foldl_append, List.foldl_cons, List.foldl_nil, look, ih]
      simp [overcommitted, count]

theorem seen_snoc (events : List (Event Consumer T)) (event : Event Consumer T) :
    seen consumer (events ++ [event]) =
      if looker event = some consumer then overcommitted events else seen consumer events := by
  rw [seen, List.foldl_append, List.foldl_cons, List.foldl_nil, look, foldl_look_fst]
  rfl

theorem seen_le (events : List (Event Consumer T)) : seen consumer events ≤ overcommitted events := by
  induction events using List.reverseRecOn with
  | nil => exact Nat.le_refl 0
  | append_singleton events event ih =>
      have more : overcommitted events ≤ overcommitted (events ++ [event]) := by
        simp [overcommitted, count]
      rw [seen_snoc]
      split
      case isTrue looks => exact more
      case isFalse silent => exact Nat.le_trans ih more

theorem seen_loaded (events : List (Event Consumer T)) (returned : Option (Return T)) :
    seen consumer (events ++ [.ran (.consumer consumer) ⟨.loadOvercommit, returned⟩]) =
      overcommitted events := by
  rw [seen_snoc]
  exact if_pos rfl

theorem seen_of_ne (apart : event.thread ≠ .consumer consumer) :
    seen consumer (events ++ [event]) = seen consumer events := by
  rw [seen_snoc]
  refine if_neg fun looks => apart ?_
  unfold looker at looks
  split at looks
  case h_1 name returned => exact congrArg Thread.consumer (Option.some.inj looks)
  case h_2 => cases looks

theorem seen_called (events : List (Event Consumer T)) (thread : Thread Consumer)
    (request : Call T) :
    seen consumer (events ++ [.called thread request]) = seen consumer events := by
  rw [seen_snoc]
  exact if_neg nofun

theorem seen_ran (events : List (Event Consumer T)) (thread : Thread Consumer)
    {output : Output T} (silent : output.access ≠ .loadOvercommit) :
    seen consumer (events ++ [.ran thread output]) = seen consumer events := by
  rw [seen_snoc]
  refine if_neg fun looks => ?_
  unfold looker at looks
  split at looks
  case h_1 name returned same =>
      cases same
      exact silent rfl
  case h_2 => cases looks

end Seen

section Amounts

variable {kind : Dequeue} {desiredCount actualCount tail effective : UInt64} {bound supply : Nat}

/-- A bulk dequeue asks for at least one element. -/
def Dequeue.Asks (kind : Dequeue) : Prop := kind ≠ .bulk 0

theorem Dequeue.desired_pos (asks : kind.Asks) (seems : kind.desired tail effective = some desiredCount) :
    0 < desiredCount.toNat := by
  cases kind with
  | single =>
      simp only [Dequeue.desired] at seems
      split at seems
      · cases seems; decide
      · cases seems
  | bulk max =>
      have positive : 0 < max.toNat := by
        refine Nat.pos_of_ne_zero fun zero => asks ?_
        rw [UInt64.toNat_inj.mp (zero.trans UInt64.toNat_zero.symm)]
      simp only [Dequeue.desired] at seems
      split at seems
      case isFalse none => cases seems
      case isTrue more =>
          have some := (positive_iff _).mp more
          cases seems
          split
          · exact some.1
          · exact positive

/-- What a consumer takes of its reservation is there. -/
theorem Dequeue.actual_le (close : bound ≤ supply + 2 ^ 63) (positive : 0 < desiredCount.toNat)
    (seems : kind.actual (.ofNat supply) (.ofNat bound) desiredCount = some actualCount) :
    0 < actualCount.toNat ∧ actualCount.toNat ≤ desiredCount.toNat ∧
      bound + actualCount.toNat ≤ supply := by
  cases kind with
  | single =>
      simp only [Dequeue.actual] at seems
      split at seems
      case isFalse none => cases seems
      case isTrue less =>
          have below := lt_of_circularLessThan close less
          cases seems
          exact ⟨by decide, positive, below⟩
  | bulk max =>
      simp only [Dequeue.actual] at seems
      split at seems
      case isFalse none => cases seems
      case isTrue more =>
          have some := ((positive_iff _).mp more).1
          obtain ⟨below, within⟩ := difference_le close more
          cases seems
          split
          case isTrue short =>
              have less := UInt64.lt_iff_toNat_lt.mp short
              omega
          case isFalse whole =>
              have less := UInt64.le_iff_toNat_le.mp (UInt64.not_lt.mp whole)
              omega

end Amounts

/-- What the tickets of a thread hold: an amount, a surplus, and whether the amount
was found to be there. -/
def Pc.stub : Pc T → Option (Nat × Nat × Bool)
  | .deqCheck _ _ desiredCount _ | .deqGiveUp desiredCount => some (desiredCount.toNat, 0, false)
  | .deqGiveBack actualCount surplus => some (actualCount.toNat, surplus.toNat, true)
  | .deqClaim actualCount => some (actualCount.toNat, 0, true)
  | _ => none

def stub (ticket : Ticket Consumer) : Nat × Nat × Bool :=
  (ticket.amount, ticket.excess, ticket.granted)

/-- The tail that a running `enqueue` has read. -/
def Pc.tail : Pc T → Option UInt64
  | .enqLoadHead _ current | .enqLoadKey _ current | .enqLoadValue _ current _ _ _
  | .enqNewIndex _ current | .enqAssertKey _ current | .enqStoreKey _ current _ _ _
  | .enqStoreIndexTail _ current _ _ _ | .enqRequisition _ current _
  | .enqResetEmpty _ current _ _ | .enqStoreValue _ current _ _ | .enqConstruct _ current
  | .enqStoreTail _ current => some current
  | _ => none

structure Counted (events : List (Event Consumer T)) (tickets : List (Ticket Consumer))
    (producer : ImplicitProducer T) : Prop where
  tail : producer.tailIndex = .ofNat (published events).length
  head : producer.headIndex = .ofNat (taken events)
  optimistic : producer.dequeueOptimisticCount = .ofNat (reserved events)
  overcommit : producer.dequeueOvercommit = .ofNat (overcommitted events)
  balance : reserved events = overcommitted events + taken events + load tickets
  covered : Reserved (taken events) (published events).length tickets
  positive : ∀ ticket ∈ tickets, 0 < ticket.amount

/-- What a consumer knows of the counters. -/
def Pc.Reckons (consumer : Consumer) (events : List (Event Consumer T))
    (tickets : List (Ticket Consumer)) : Pc T → Prop
  | .deqLoadTail kind | .deqLoadOvercommit kind _ => kind.Asks
  | .deqLoadOptimistic kind _ overcommit =>
      kind.Asks ∧ overcommit = .ofNat (seen consumer events)
  | .deqReserve _ overcommit desiredCount =>
      overcommit = .ofNat (seen consumer events) ∧ 0 < desiredCount.toNat
  | .deqCheck _ overcommit _ myDequeueCount => ∀ ticket ∈ named consumer tickets,
      myDequeueCount - overcommit = .ofNat ticket.bound ∧
        ticket.bound ≤ (published events).length + 2 ^ 63
  | _ => True

/-- Where a thread stands with the counters. -/
def Standing (thread : Thread Consumer) (events : List (Event Consumer T))
    (tickets : List (Ticket Consumer)) (_ : ImplicitProducer T) (pc : Pc T) : Prop :=
  match thread with
  | .producer => ∀ tail, pc.tail = some tail → tail = .ofNat (published events).length
  | .consumer consumer =>
      (named consumer tickets).map stub = pc.stub.toList ∧ pc.Reckons consumer events tickets

omit [DecidableEq Consumer] in
theorem construct_counted (T : Type) (allocated : Bool) :
    Counted ([] : List (Event Consumer T)) [] (construct T allocated) :=
  ⟨rfl, rfl, rfl, rfl, rfl, .none (Nat.le_refl 0), nofun⟩

end DmLockFree.ConcurrentQueue.ImplicitProducer
