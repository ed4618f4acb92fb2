import DmLockFree.ConcurrentQueue.Implicit.Counters

/-! The counters of an `ImplicitProducer` agree with the history of every run, and
every claim lies between head and tail. -/

set_option autoImplicit false

namespace DmLockFree.ConcurrentQueue.ImplicitProducer

open Library Program Ticket

variable {Consumer T : Type} [DecidableEq Consumer] {maxSubqueueSize : UInt64}
  {events : List (Event Consumer T)} {tickets : List (Ticket Consumer)}
  {producer after : ImplicitProducer T} {thread other : Thread Consumer} {consumer : Consumer}
  {pc next : Pc T} {output : Output T}

/-- An access that moves no counter. -/
structure Access.Silent (access : Access T) : Prop where
  published : access.published = none
  taken : access.taken = 0
  reserved : access.reserved = 0
  overcommitted : access.overcommitted = 0

/-- The counters are those of the other object. -/
structure SameCounters (producer after : ImplicitProducer T) : Prop where
  tail : after.tailIndex = producer.tailIndex
  head : after.headIndex = producer.headIndex
  optimistic : after.dequeueOptimisticCount = producer.dequeueOptimisticCount
  overcommit : after.dequeueOvercommit = producer.dequeueOvercommit

section Counted

variable {later : List (Ticket Consumer)}

omit [DecidableEq Consumer] in
theorem published_quiet (quiet : output.access.published = none) :
    published (events ++ [.ran thread output]) = published events := by
  rw [published_ran, quiet, Option.toList_none, List.append_nil]

omit [DecidableEq Consumer] in
/-- The counters after an access that enqueues nothing. -/
theorem Counted.step (counted : Counted events tickets producer)
    (quiet : output.access.published = none) (tail : after.tailIndex = producer.tailIndex)
    (head : after.headIndex = producer.headIndex + .ofNat output.access.taken)
    (optimistic : after.dequeueOptimisticCount =
      producer.dequeueOptimisticCount + .ofNat output.access.reserved)
    (overcommit : after.dequeueOvercommit =
      producer.dequeueOvercommit + .ofNat output.access.overcommitted)
    (balance : output.access.reserved + load tickets =
      output.access.overcommitted + output.access.taken + load later)
    (covered : Reserved (taken events + output.access.taken) (published events).length later)
    (positive : ∀ ticket ∈ later, 0 < ticket.amount) :
    Counted (events ++ [.ran thread output]) later after := by
  have before := counted.balance
  refine ⟨?_, ?_, ?_, ?_, ?_, ?_, positive⟩
  · rw [tail, published_quiet quiet]
    exact counted.tail
  · rw [head, counted.head, taken_ran, UInt64.ofNat_add]
  · rw [optimistic, counted.optimistic, reserved_ran, UInt64.ofNat_add]
  · rw [overcommit, counted.overcommit, overcommitted_ran, UInt64.ofNat_add]
  · rw [reserved_ran, overcommitted_ran, taken_ran]
    omega
  · rw [published_quiet quiet, taken_ran]
    exact covered

omit [DecidableEq Consumer] in
theorem Counted.silent (counted : Counted events tickets producer)
    (silent : output.access.Silent) (same : SameCounters producer after) :
    Counted (events ++ [.ran thread output]) tickets after := by
  refine counted.step silent.published same.tail ?_ ?_ ?_ ?_ ?_ counted.positive
  · rw [same.head, silent.taken]
    exact (UInt64.add_zero _).symm
  · rw [same.optimistic, silent.reserved]
    exact (UInt64.add_zero _).symm
  · rw [same.overcommit, silent.overcommitted]
    exact (UInt64.add_zero _).symm
  · rw [silent.taken, silent.reserved, silent.overcommitted]
  · rw [silent.taken]
    exact counted.covered

end Counted

theorem Pc.Reckons.mono {later : List (Event Consumer T)} {others : List (Ticket Consumer)}
    (reckons : pc.Reckons consumer events tickets)
    (looks : seen consumer later = seen consumer events)
    (same : named consumer others = named consumer tickets)
    (grows : (published events).length ≤ (published later).length) :
    pc.Reckons consumer later others := by
  cases pc with
  | deqLoadOptimistic kind tail overcommit =>
      obtain ⟨asks, loaded⟩ := reckons
      exact ⟨asks, loaded.trans (by rw [looks])⟩
  | deqReserve kind overcommit desiredCount =>
      obtain ⟨loaded, positive⟩ := reckons
      exact ⟨loaded.trans (by rw [looks]), positive⟩
  | deqCheck kind overcommit desiredCount myDequeueCount =>
      intro ticket member
      rw [same] at member
      obtain ⟨bound, close⟩ := reckons ticket member
      exact ⟨bound, Nat.le_trans close (Nat.add_le_add_right grows _)⟩
  | _ => exact reckons

/-- A thread keeps its standing while others act. -/
theorem Standing.meanwhile {others : List (Ticket Consumer)}
    (standing : Standing other events tickets producer pc) (apart : other ≠ thread)
    (quiet : other = .producer → output.access.published = none)
    (same : ∀ consumer, other = .consumer consumer →
      named consumer others = named consumer tickets) :
    Standing other (events ++ [.ran thread output]) others after pc := by
  cases other with
  | producer =>
      intro tail current
      rw [published_ran, quiet rfl, Option.toList_none, List.append_nil]
      exact standing tail current
  | consumer name =>
      obtain ⟨holds, reckons⟩ := standing
      refine ⟨by rw [same name rfl, holds], reckons.mono (seen_of_ne apart.symm) (same name rfl) ?_⟩
      rw [published_ran, List.length_append]
      exact Nat.le_add_right ..

/-- A step of a consumer that moves no counter. -/
theorem keeps_silent (counted : Counted events tickets producer)
    (standing : Standing (.consumer consumer) events tickets producer pc)
    (silent : output.access.Silent) (same : SameCounters producer after)
    (stubs : next.stub = pc.stub)
    (reckons : next.Reckons consumer (events ++ [.ran (.consumer consumer) output]) tickets) :
    Preserves Counted Standing (.consumer consumer) events (.ran (.consumer consumer) output)
      tickets tickets producer after next := by
  refine ⟨counted.silent silent same, ⟨?_, reckons⟩, fun other apart point stands => ?_⟩
  · rw [stubs]
    exact standing.1
  · exact stands.meanwhile apart (fun _ => silent.published) fun _ _ => rfl

/-- A step of a consumer that exchanges its tickets. -/
theorem keeps_exchange {first old new second : List (Ticket Consumer)}
    (whole : tickets = first ++ old ++ second)
    (counted : Counted (events ++ [.ran (.consumer consumer) output]) (first ++ new ++ second) after)
    (before : named consumer first = []) (behind : named consumer second = [])
    (former : ∀ ticket ∈ old, ticket.name = consumer)
    (own : ∀ ticket ∈ new, ticket.name = consumer) (holds : new.map stub = next.stub.toList)
    (quiet : output.access.published = none)
    (reckons : ∀ tickets, named consumer tickets = new →
      next.Reckons consumer (events ++ [.ran (.consumer consumer) output]) tickets) :
    ∃ later, Preserves Counted Standing (.consumer consumer) events
      (.ran (.consumer consumer) output) tickets later producer after next := by
  subst whole
  obtain ⟨mine, others⟩ := @named_exchange _ _ _ _ _ old _ before behind own
  refine ⟨_, counted, ⟨?_, reckons _ mine⟩, fun other apart point stands => ?_⟩
  · rw [mine]
    exact holds
  · refine stands.meanwhile apart (fun _ => quiet) fun name same => ?_
    subst same
    exact others name (fun equal => apart (congrArg _ equal)) former

omit [DecidableEq Consumer] in
/-- What the producer does to the counters. -/
theorem Enqueues.effect (taken : Enqueues maxSubqueueSize producer pc after next output) :
    (output.access.Silent ∧ SameCounters producer after ∧
      ∀ tail, next.tail = some tail → pc.tail = some tail ∨ tail = producer.tailIndex) ∨
    ∃ request currentTailIndex, pc = .enqStoreTail request currentTailIndex ∧
      after = { producer with tailIndex := 1 + currentTailIndex } ∧ next = .idle ∧
      output.access = .storeTailIndex request.value := by
  cases taken with
  | storeTail request currentTailIndex => exact .inr ⟨request, currentTailIndex, rfl, rfl, rfl, rfl⟩
  | loadTailFirst request first | loadTail request inside =>
      exact .inl ⟨⟨rfl, rfl, rfl, rfl⟩, ⟨rfl, rfl, rfl, rfl⟩, fun tail same =>
        .inr (Option.some.inj same).symm⟩
  | _ =>
      refine .inl ⟨⟨rfl, rfl, rfl, rfl⟩, ⟨rfl, rfl, rfl, rfl⟩, fun tail same => ?_⟩
      first | exact .inl same | cases same

theorem enqueues_keeps (counted : Counted events tickets producer)
    (standing : Standing (.producer : Thread Consumer) events tickets producer pc)
    (taken : Enqueues maxSubqueueSize producer pc after next output) :
    Preserves Counted Standing .producer events (.ran .producer output) tickets tickets producer
      after next := by
  rcases taken.effect with ⟨silent, same, tails⟩ | ⟨request, current, rfl, rfl, rfl, stores⟩
  · refine ⟨counted.silent silent same, fun tail now => ?_, fun other apart point stands => ?_⟩
    · rw [published_quiet silent.published]
      rcases tails tail now with before | loaded
      · exact standing tail before
      · rw [loaded]
        exact counted.tail
    · exact stands.meanwhile apart (fun _ => silent.published) fun _ _ => rfl
  · have current : current = .ofNat (published events).length := standing current rfl
    have more : published (events ++ [.ran (.producer : Thread Consumer) output]) =
        published events ++ [request.value] := by
      simp [stores, Access.published]
    have counts : ImplicitProducer.taken (events ++ [.ran (.producer : Thread Consumer) output]) =
          ImplicitProducer.taken events ∧
        reserved (events ++ [.ran (.producer : Thread Consumer) output]) = reserved events ∧
        overcommitted (events ++ [.ran (.producer : Thread Consumer) output]) =
          overcommitted events := by
      simp [ImplicitProducer.taken, reserved, overcommitted, stores, Access.taken,
        Access.reserved, Access.overcommitted]
    obtain ⟨takes, reserves, gives⟩ := counts
    refine ⟨⟨?_, ?_, ?_, ?_, ?_, ?_, counted.positive⟩,
      (fun _ current => by cases current), fun other apart point stands => ?_⟩
    · rw [more, List.length_append, current, Nat.add_comm, UInt64.ofNat_add]
      rfl
    · rw [takes]
      exact counted.head
    · rw [reserves]
      exact counted.optimistic
    · rw [gives]
      exact counted.overcommit
    · rw [takes, reserves, gives]
      exact counted.balance
    · rw [takes, more, List.length_append]
      exact counted.covered.supply_mono (Nat.le_add_right ..)
    · exact stands.meanwhile apart (fun same => absurd same apart) fun _ _ => rfl

section Dequeues

variable {kind : Dequeue} {overcommit desiredCount myDequeueCount actualCount surplus : UInt64}

theorem keeps_reserve (counted : Counted events tickets producer)
    (standing : Standing (.consumer consumer) events tickets producer
      (.deqReserve kind overcommit desiredCount))
    (timely : Timely (events ++ [.ran (.consumer consumer) ⟨.reserve desiredCount, none⟩])) :
    ∃ later, Preserves Counted Standing (.consumer consumer) events
      (.ran (.consumer consumer) ⟨.reserve desiredCount, none⟩) tickets later producer
      { producer with dequeueOptimisticCount := producer.dequeueOptimisticCount + desiredCount }
      (.deqCheck kind overcommit desiredCount producer.dequeueOptimisticCount) := by
  obtain ⟨holds, loaded, positive⟩ := standing
  have close := timely.last consumer desiredCount none rfl
  have looked : seen consumer events ≤ overcommitted events := seen_le events
  have balance := counted.balance
  have least := total_le_load tickets
  have most := counted.covered.taken_le
  let ticket : Ticket Consumer :=
    ⟨consumer, reserved events - seen consumer events, desiredCount.toNat, 0, false⟩
  have bounded : taken events + total tickets ≤ ticket.bound := by
    change _ ≤ reserved events - seen consumer events
    omega
  refine @keeps_exchange _ _ _ _ _ _ _ _ _ _ tickets [] [ticket] [] (by simp) ?_
    (List.map_eq_nil_iff.mp holds) rfl
    (fun _ member => by cases member) ?_ rfl rfl ?_
  · refine counted.step rfl rfl (UInt64.add_zero _).symm ?_ (UInt64.add_zero _).symm ?_ ?_ ?_
    · rw [Access.reserved, UInt64.ofNat_toNat]
    · simp [Access.reserved, Access.overcommitted, Access.taken, weight, ticket]
      omega
    · simpa [Access.taken] using counted.covered.draw rfl bounded
    · simpa [or_imp, forall_and, positive, ticket] using counted.positive
  · intro other member
    rw [List.mem_singleton.mp member]
  · intro later mine other member
    rw [mine, List.mem_singleton] at member
    subst member
    change producer.dequeueOptimisticCount - overcommit =
      .ofNat (reserved events - seen consumer events) ∧ _
    rw [counted.optimistic, loaded, ← UInt64.ofNat_sub (by omega), published_quiet rfl]
    refine ⟨rfl, ?_⟩
    change reserved events - seen consumer events ≤ _
    omega

/-- The ticket of a consumer among those of the others. -/
theorem Standing.ticket {amount excess : Nat} {granted : Bool}
    (standing : Standing (.consumer consumer) events tickets producer pc)
    (held : pc.stub = some (amount, excess, granted)) :
    ∃ first ticket second, tickets = first ++ [ticket] ++ second ∧ ticket.name = consumer ∧
      named consumer first = [] ∧ named consumer second = [] ∧ ticket ∈ named consumer tickets ∧
      ticket.amount = amount ∧ ticket.excess = excess ∧ ticket.granted = granted := by
  have holds := standing.1
  rw [held, Option.toList_some, List.map_eq_singleton_iff] at holds
  obtain ⟨ticket, only, same⟩ := holds
  obtain ⟨first, second, whole, own, before, behind⟩ := split_named only
  simp only [stub, Prod.mk.injEq] at same
  refine ⟨first, ticket, second, by simp [whole], own, before, behind, by simp [only], same⟩

/-- The tail has reached the end of the reservation, or of a part of it. -/
theorem keeps_check (counted : Counted events tickets producer)
    (standing : Standing (.consumer consumer) events tickets producer
      (.deqCheck kind overcommit desiredCount myDequeueCount))
    (seems : kind.actual producer.tailIndex (myDequeueCount - overcommit) desiredCount =
      some actualCount)
    (stubs : actualCount.toNat ≤ desiredCount.toNat →
      next.stub = some (actualCount.toNat, desiredCount.toNat - actualCount.toNat, true))
    (knows : ∀ events tickets, next.Reckons consumer events tickets) :
    ∃ later, Preserves Counted Standing (.consumer consumer) events
      (.ran (.consumer consumer) ⟨.loadTailIndex, none⟩) tickets later producer producer next := by
  obtain ⟨first, ticket, second, whole, own, before, behind, member, amount, excess, granted⟩ :=
    standing.ticket rfl
  obtain ⟨bound, close⟩ := standing.2 ticket member
  have positive := counted.positive ticket (mem_named.mp member).1
  rw [counted.tail, bound] at seems
  obtain ⟨some, fits, there⟩ := Dequeue.actual_le close (amount ▸ positive) seems
  have covered := counted.covered
  have members := counted.positive
  simp only [whole, List.append_assoc, List.singleton_append] at covered members
  let after : Ticket Consumer :=
    ⟨consumer, ticket.bound, actualCount.toNat, desiredCount.toNat - actualCount.toNat, true⟩
  refine @keeps_exchange _ _ _ _ _ _ _ _ _ _ first [ticket] [after] second whole ?_ before behind
    ?_ ?_ ?_ rfl fun later _ => knows _ later
  · refine counted.step rfl rfl (UInt64.add_zero _).symm (UInt64.add_zero _).symm
      (UInt64.add_zero _).symm ?_ ?_ ?_
    · simp [whole, Access.reserved, Access.overcommitted, Access.taken, weight, after, amount,
        excess]
      omega
    · have granted : Reserved (taken events) (published events).length (first ++ after :: second) :=
        covered.grant (by rw [amount]; exact fits) there
      simpa [Access.taken] using granted
    · intro other member
      have mine := members other
      simp only [List.append_assoc, List.singleton_append, List.mem_append, List.mem_cons] at member mine
      rcases member with early | rfl | late
      · exact mine (.inl early)
      · exact some
      · exact mine (.inr (.inr late))
  · intro other member
    rw [List.mem_singleton.mp member]
    exact own
  · intro other member
    rw [List.mem_singleton.mp member]
  · rw [stubs fits]
    rfl

theorem keeps_giveUp (counted : Counted events tickets producer)
    (standing : Standing (.consumer consumer) events tickets producer (.deqGiveUp desiredCount))
    (returned : Option (Return T)) :
    ∃ later, Preserves Counted Standing (.consumer consumer) events
      (.ran (.consumer consumer) ⟨.overcommit desiredCount, returned⟩) tickets later producer
      { producer with dequeueOvercommit := producer.dequeueOvercommit + desiredCount } .idle := by
  obtain ⟨first, ticket, second, whole, own, before, behind, member, amount, excess, granted⟩ :=
    standing.ticket rfl
  have covered := counted.covered
  have members := counted.positive
  simp only [whole, List.append_assoc, List.singleton_append] at covered members
  refine @keeps_exchange _ _ _ _ _ _ _ _ _ _ first [ticket] [] second whole ?_ before behind
    ?_ (fun _ member => by cases member) rfl rfl fun later _ => trivial
  · refine counted.step rfl rfl (UInt64.add_zero _).symm (UInt64.add_zero _).symm ?_ ?_ ?_ ?_
    · rw [Access.overcommitted, UInt64.ofNat_toNat]
    · simp [whole, Access.reserved, Access.overcommitted, Access.taken, weight, amount, excess]
      omega
    · simpa [Access.taken] using covered.drop
    · intro other member
      have mine := members other
      simp only [List.append_nil, List.mem_append, List.mem_cons] at member mine
      exact mine (member.imp_right .inr)
  · intro other member
    rw [List.mem_singleton.mp member]
    exact own

theorem keeps_giveBack (counted : Counted events tickets producer)
    (standing : Standing (.consumer consumer) events tickets producer
      (.deqGiveBack actualCount surplus)) :
    ∃ later, Preserves Counted Standing (.consumer consumer) events
      (.ran (.consumer consumer) ⟨.overcommit surplus, none⟩) tickets later producer
      { producer with dequeueOvercommit := producer.dequeueOvercommit + surplus }
      (.deqClaim actualCount) := by
  obtain ⟨first, ticket, second, whole, own, before, behind, member, amount, excess, granted⟩ :=
    standing.ticket rfl
  have positive := counted.positive ticket (mem_named.mp member).1
  have covered := counted.covered
  have members := counted.positive
  simp only [whole, List.append_assoc, List.singleton_append] at covered members
  let after : Ticket Consumer := ⟨consumer, ticket.bound, actualCount.toNat, 0, true⟩
  refine @keeps_exchange _ _ _ _ _ _ _ _ _ _ first [ticket] [after] second whole ?_ before behind
    ?_ ?_ rfl rfl fun later _ => trivial
  · refine counted.step rfl rfl (UInt64.add_zero _).symm (UInt64.add_zero _).symm ?_ ?_ ?_ ?_
    · rw [Access.overcommitted, UInt64.ofNat_toNat]
    · simp [whole, Access.reserved, Access.overcommitted, Access.taken, weight, after, amount,
        excess]
      omega
    · have settled : Reserved (taken events) (published events).length (first ++ after :: second) :=
        covered.settle amount.symm rfl granted.symm
      simpa [Access.taken] using settled
    · intro other member
      have mine := members other
      simp only [List.append_assoc, List.singleton_append, List.mem_append, List.mem_cons] at member mine
      rcases member with early | rfl | late
      · exact mine (.inl early)
      · change 0 < actualCount.toNat
        rw [← amount]
        exact positive
      · exact mine (.inr (.inr late))
  · intro other member
    rw [List.mem_singleton.mp member]
    exact own
  · intro other member
    rw [List.mem_singleton.mp member]

theorem keeps_claim (counted : Counted events tickets producer)
    (standing : Standing (.consumer consumer) events tickets producer (.deqClaim actualCount)) :
    ∃ later, Preserves Counted Standing (.consumer consumer) events
      (.ran (.consumer consumer) ⟨.claim producer.headIndex actualCount, none⟩) tickets later
      producer { producer with headIndex := producer.headIndex + actualCount }
      (.findLoadIndex producer.headIndex (producer.headIndex + actualCount)) := by
  obtain ⟨first, ticket, second, whole, own, before, behind, member, amount, excess, granted⟩ :=
    standing.ticket rfl
  have covered := counted.covered
  have members := counted.positive
  simp only [whole, List.append_assoc, List.singleton_append] at covered members
  refine @keeps_exchange _ _ _ _ _ _ _ _ _ _ first [ticket] [] second whole ?_ before behind
    ?_ (fun _ member => by cases member) rfl rfl fun later _ => trivial
  · refine counted.step rfl rfl ?_ (UInt64.add_zero _).symm (UInt64.add_zero _).symm ?_ ?_ ?_
    · rw [Access.taken, UInt64.ofNat_toNat]
    · simp [whole, Access.reserved, Access.overcommitted, Access.taken, weight, amount, excess]
      omega
    · simpa [Access.taken, amount] using covered.take granted
    · intro other member
      have mine := members other
      simp only [List.append_nil, List.mem_append, List.mem_cons] at member mine
      exact mine (member.imp_right .inr)
  · intro other member
    rw [List.mem_singleton.mp member]
    exact own

omit [DecidableEq Consumer] in
theorem Walk.next_stub (walk : Walk) (header : BlockIndexHeader) (endIndex : UInt64) :
    (walk.next header endIndex : Pc T × _).1.stub = none := by
  unfold Walk.next
  split <;> rfl

theorem Walk.next_reckons (walk : Walk) (header : BlockIndexHeader) (endIndex : UInt64) :
    (walk.next header endIndex : Pc T × _).1.Reckons consumer events tickets := by
  unfold Walk.next
  split <;> trivial

theorem dequeues_keeps (counted : Counted events tickets producer)
    (standing : Standing (.consumer consumer) events tickets producer pc)
    (timely : Timely (events ++ [.ran (.consumer consumer) output]))
    (taken : Dequeues producer pc after next output) :
    ∃ later, Preserves Counted Standing (.consumer consumer) events
      (.ran (.consumer consumer) output) tickets later producer after next := by
  cases taken with
  | loadOvercommit kind tail =>
      refine ⟨tickets, keeps_silent counted standing ⟨rfl, rfl, rfl, rfl⟩ ⟨rfl, rfl, rfl, rfl⟩ rfl
        ⟨standing.2, ?_⟩⟩
      rw [seen_loaded]
      exact counted.overcommit
  | loadOptimistic kind tail overcommit seems =>
      obtain ⟨asks, loaded⟩ := standing.2
      refine ⟨tickets, keeps_silent counted standing ⟨rfl, rfl, rfl, rfl⟩ ⟨rfl, rfl, rfl, rfl⟩ rfl
        ⟨?_, Dequeue.desired_pos asks seems⟩⟩
      have silent : (⟨.loadOptimisticCount, none⟩ : Output T).access ≠ .loadOvercommit := by
        intro same
        cases same
      rw [seen_ran events _ silent]
      exact loaded
  | reserve kind overcommit desiredCount => exact keeps_reserve counted standing timely
  | checkShort kind overcommit desiredCount myDequeueCount seems short =>
      refine keeps_check counted standing seems (fun fits => ?_) fun _ _ => trivial
      rw [Pc.stub, UInt64.toNat_sub_of_le _ _ (UInt64.le_iff_toNat_le.mpr fits)]
  | check kind overcommit desiredCount myDequeueCount seems whole =>
      refine keeps_check counted standing seems (fun fits => ?_) fun _ _ => trivial
      have all := UInt64.le_iff_toNat_le.mp (UInt64.not_lt.mp whole)
      rw [Pc.stub, Nat.sub_eq_zero_of_le all]
  | giveUp desiredCount => exact keeps_giveUp counted standing (some (.dequeued 0))
  | giveBack actualCount surplus => exact keeps_giveBack counted standing
  | claim actualCount => exact keeps_claim counted standing
  | loadTail kind =>
      exact ⟨tickets, keeps_silent counted standing ⟨rfl, rfl, rfl, rfl⟩ ⟨rfl, rfl, rfl, rfl⟩ rfl
        standing.2⟩
  | setEmpty walk start endIndex entry block here fits notAll =>
      exact ⟨tickets, keeps_silent counted standing ⟨rfl, rfl, rfl, rfl⟩ ⟨rfl, rfl, rfl, rfl⟩
        (walk.next_stub _ endIndex) (walk.next_reckons _ endIndex)⟩
  | release walk endIndex block here =>
      exact ⟨tickets, keeps_silent counted standing ⟨rfl, rfl, rfl, rfl⟩ ⟨rfl, rfl, rfl, rfl⟩
        (walk.next_stub _ endIndex) (walk.next_reckons _ endIndex)⟩
  | _ =>
      exact ⟨tickets, keeps_silent counted standing ⟨rfl, rfl, rfl, rfl⟩ ⟨rfl, rfl, rfl, rfl⟩ rfl
        trivial⟩

theorem call_keeps {request : Call T} (counted : Counted events tickets producer)
    (standing : Standing thread events tickets producer pc)
    (entered : enter thread pc request = some next) :
    Preserves Counted Standing thread events (.called thread request) tickets tickets producer
      producer next := by
  have grows : (published events).length ≤
      (published (events ++ [.called thread request])).length := by
    rw [published_called]
  refine ⟨⟨?_, ?_, ?_, ?_, ?_, ?_, counted.positive⟩, ?_, fun other apart point stands => ?_⟩
  · rw [published_called]
    exact counted.tail
  · rw [taken_called]
    exact counted.head
  · rw [reserved_called]
    exact counted.optimistic
  · rw [overcommitted_called]
    exact counted.overcommit
  · rw [taken_called, reserved_called, overcommitted_called]
    exact counted.balance
  · rw [taken_called, published_called]
    exact counted.covered
  · unfold enter at entered
    split at entered
    case h_1 request =>
        cases entered
        intro tail current
        cases current
    case h_2 =>
        cases entered
        exact ⟨standing.1, fun same => by cases same⟩
    case h_3 max =>
        split at entered
        case isTrue _ => cases entered
        case isFalse some =>
            cases entered
            exact ⟨standing.1, fun same => some (Dequeue.bulk.inj same)⟩
    case h_4 => cases entered
  · cases other with
    | producer =>
        intro tail current
        rw [published_called]
        exact stands tail current
    | consumer name =>
        exact ⟨stands.1, stands.2.mono (seen_called events thread request) rfl grows⟩

end Dequeues

section Run

variable {allocated : Bool} {state : State Consumer T}

theorem run_counted
    (run : ((program Consumer T maxSubqueueSize).machine (construct T allocated)).Run events state)
    (timely : Timely events) :
    ∃ tickets, Counted events tickets state.shared ∧
      ∀ thread, Standing thread events tickets state.shared (state.pc thread) := by
  refine along_invariant Counted Standing (construct_counted T allocated) (fun thread => ?_)
    (fun _ _ counted standing entered => ⟨_, call_keeps counted standing entered⟩)
    (fun run timely counted standing taken => ?_) run timely
  · cases thread with
    | producer => exact nofun
    | consumer name => exact ⟨rfl, trivial⟩
  · rcases run_turn run taken with ⟨rfl, enqueues⟩ | ⟨consumer, rfl, dequeues⟩
    · exact ⟨_, enqueues_keeps counted standing enqueues⟩
    · exact dequeues_keeps counted standing timely dequeues

end Run

end DmLockFree.ConcurrentQueue.ImplicitProducer
