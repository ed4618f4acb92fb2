import DmLockFree.ConcurrentQueue.Implicit.Rest
import DmLockFree.ConcurrentQueue.Implicit.Wait

/-!
# A consumer without rivals

While the other consumers rest, a call gets what it asks for, as far as it is there.
-/

set_option autoImplicit false

namespace DmLockFree.ConcurrentQueue.ImplicitProducer

open Library Program Ticket

variable {Consumer T : Type} {maxSubqueueSize : UInt64} {events : List (Event Consumer T)}
  {tickets : List (Ticket Consumer)} {producer after : ImplicitProducer T} {consumer : Consumer}
  {pc next : Pc T} {output : Output T}

section Amounts

variable {kind : Dequeue} {bound supply : Nat} {desiredCount actualCount : UInt64}

theorem positive_sub_iff (ordered : bound ≤ supply) (room : supply < bound + 2 ^ 63) :
    circularLessThan 0 (.ofNat supply - .ofNat bound) = true ↔ bound < supply := by
  rw [positive_iff, sub_words ordered (by omega)]
  omega

theorem Dequeue.desired_eq (ordered : bound ≤ supply) (room : supply < bound + 2 ^ 63)
    (seems : kind.desired (.ofNat supply) (.ofNat bound) = some desiredCount) :
    desiredCount.toNat = min kind.most (supply - bound) := by
  have difference := sub_words ordered (by omega)
  cases kind with
  | single =>
      simp only [Dequeue.desired, circularLessThan_iff (by omega : bound ≤ supply + 2 ^ 63) room]
        at seems
      split at seems
      · cases seems
        change 1 = min 1 _
        omega
      · cases seems
  | bulk max =>
      simp only [Dequeue.desired, positive_sub_iff ordered room] at seems
      split at seems
      · cases seems
        change _ = min max.toNat _
        split
        case isTrue less =>
            rw [UInt64.lt_iff_toNat_lt] at less
            omega
        case isFalse most =>
            rw [UInt64.lt_iff_toNat_lt] at most
            omega
      · cases seems

theorem Dequeue.desired_none (ordered : bound ≤ supply) (room : supply < bound + 2 ^ 63)
    (nothing : kind.desired (.ofNat supply) (.ofNat bound) = none) : supply = bound := by
  cases kind with
  | single =>
      simp only [Dequeue.desired, circularLessThan_iff (by omega : bound ≤ supply + 2 ^ 63) room]
        at nothing
      split at nothing
      · cases nothing
      · omega
  | bulk max =>
      simp only [Dequeue.desired, positive_sub_iff ordered room] at nothing
      split at nothing
      · cases nothing
      · omega

theorem Dequeue.actual_eq (ordered : bound ≤ supply) (room : supply < bound + 2 ^ 63)
    (positive : 0 < desiredCount.toNat) (asked : desiredCount.toNat ≤ kind.most)
    (seems : kind.actual (.ofNat supply) (.ofNat bound) desiredCount = some actualCount) :
    actualCount.toNat = min desiredCount.toNat (supply - bound) := by
  have difference := sub_words ordered (by omega)
  cases kind with
  | single =>
      simp only [Dequeue.actual, circularLessThan_iff (by omega : bound ≤ supply + 2 ^ 63) room]
        at seems
      split at seems
      · cases seems
        change _ ≤ 1 at asked
        change 1 = _
        omega
      · cases seems
  | bulk max =>
      simp only [Dequeue.actual, positive_sub_iff ordered room] at seems
      split at seems
      · cases seems
        split
        case isTrue less =>
            rw [UInt64.lt_iff_toNat_lt] at less
            omega
        case isFalse most =>
            rw [UInt64.lt_iff_toNat_lt] at most
            omega
      · cases seems

theorem Dequeue.desired_none_of_actual {tail effective : UInt64}
    (nothing : kind.actual tail effective desiredCount = none) :
    kind.desired tail effective = none := by
  cases kind with
  | single => exact nothing
  | bulk max =>
      simp only [Dequeue.actual] at nothing
      split at nothing
      case isTrue _ => cases nothing
      case isFalse less => simp only [Dequeue.desired, if_neg less]

end Amounts

/-- What a call gets is no less than what it asks for and finds when it begins, and no
more than there is now. -/
structure Fair (kind : Dequeue) (before now count : Nat) : Prop where
  least : min kind.most before ≤ count
  asked : count ≤ kind.most
  there : count ≤ now

theorem Fair.mono {kind : Dequeue} {before now later count : Nat}
    (fair : Fair kind before now count) (grows : now ≤ later) : Fair kind before later count :=
  ⟨fair.least, fair.asked, Nat.le_trans fair.there grows⟩

/-- A running call that no other consumer disturbs. When it began, `head` elements were
claimed and `before` were left; by now `now` were there behind `head`. -/
def Pc.Unrivalled (kind : Dequeue) (head before now taken overcommitted : Nat) : Pc T → Prop
  | .idle | .deqGiveUp _ | .deqGiveBack _ _ => False
  | .deqLoadTail asked => asked = kind ∧ taken = head
  | .deqLoadOvercommit asked tail =>
      asked = kind ∧ taken = head ∧
        ∃ supply, tail = .ofNat (head + supply) ∧ before ≤ supply ∧ supply ≤ now
  | .deqLoadOptimistic asked tail overcommit =>
      asked = kind ∧ taken = head ∧ overcommit = .ofNat overcommitted ∧
        ∃ supply, tail = .ofNat (head + supply) ∧ before ≤ supply ∧ supply ≤ now
  | .deqReserve asked overcommit desiredCount =>
      asked = kind ∧ taken = head ∧ overcommit = .ofNat overcommitted ∧
        0 < desiredCount.toNat ∧ Fair kind before now desiredCount.toNat
  | .deqCheck asked overcommit desiredCount myDequeueCount =>
      asked = kind ∧ taken = head ∧ myDequeueCount - overcommit = .ofNat head ∧
        0 < desiredCount.toNat ∧ Fair kind before now desiredCount.toNat
  | .deqClaim actualCount => taken = head ∧ Fair kind before now actualCount.toNat
  | pc => taken = head + pc.owed ∧ Fair kind before now pc.owed

theorem Pc.Unrivalled.mono {kind : Dequeue} {head before now later taken overcommitted : Nat}
    (stands : pc.Unrivalled kind head before now taken overcommitted) (grows : now ≤ later) :
    pc.Unrivalled kind head before later taken overcommitted := by
  cases pc with
  | idle | deqGiveUp | deqGiveBack => exact stands
  | deqLoadTail asked => exact stands
  | deqLoadOvercommit asked tail =>
      obtain ⟨same, claimed, supply, loaded, least, there⟩ := stands
      exact ⟨same, claimed, supply, loaded, least, Nat.le_trans there grows⟩
  | deqLoadOptimistic asked tail overcommit =>
      obtain ⟨same, claimed, known, supply, loaded, least, there⟩ := stands
      exact ⟨same, claimed, known, supply, loaded, least, Nat.le_trans there grows⟩
  | deqReserve asked overcommit desiredCount =>
      obtain ⟨same, claimed, known, positive, fair⟩ := stands
      exact ⟨same, claimed, known, positive, fair.mono grows⟩
  | deqCheck asked overcommit desiredCount myDequeueCount =>
      obtain ⟨same, claimed, known, positive, fair⟩ := stands
      exact ⟨same, claimed, known, positive, fair.mono grows⟩
  | deqClaim actualCount => exact ⟨stands.1, stands.2.mono grows⟩
  | _ => exact ⟨stands.1, stands.2.mono grows⟩

/-- What such a call comes to with a step: another point, or its answer. -/
def Onward (kind : Dequeue) (head before now taken overcommitted : Nat) (next : Pc T)
    (returned : Option (Return T)) : Prop :=
  match returned with
  | none => next.Unrivalled kind head before now taken overcommitted
  | some answer => next = .idle ∧ taken = head + answer.count ∧ Fair kind before now answer.count

theorem Walk.next_onward {kind : Dequeue} {head before now taken overcommitted : Nat} (walk : Walk)
    (header : BlockIndexHeader) (endIndex : UInt64)
    (whole : taken = head + (walk.stop - walk.first).toNat)
    (fair : Fair kind before now (walk.stop - walk.first).toNat) :
    Onward kind head before now taken overcommitted (walk.next header endIndex : Pc T × _).1
      (walk.next header endIndex : Pc T × _).2 := by
  unfold Walk.next
  split
  · exact ⟨rfl, whole, fair⟩
  · exact ⟨whole, fair⟩

/-- Without tickets the reservations that were not given back are the claims. -/
theorem Counted.effective (counted : Counted events [] producer) :
    producer.dequeueOptimisticCount - .ofNat (overcommitted events) = .ofNat (taken events) := by
  have balance := counted.balance
  rw [load_nil, Nat.add_zero] at balance
  rw [counted.optimistic, balance, UInt64.ofNat_add, UInt64.add_comm, UInt64.add_sub_cancel]

theorem Dequeues.onward [DecidableEq Consumer] {kind : Dequeue} {head before now : Nat}
    (counted : Counted events tickets producer) (rest : pc.stub = none → tickets = [])
    (reckons : pc.Reckons consumer events tickets)
    (room : (published events).length < taken events + 2 ^ 63)
    (supply : (published events).length = head + now) (grown : before ≤ now)
    (stands : pc.Unrivalled kind head before now (taken events) (overcommitted events))
    (step : Dequeues producer pc after next output) :
    next = .aborted ∨ Onward kind head before now (taken events + output.access.taken)
      (overcommitted events + output.access.overcommitted) next output.returned := by
  have tail := counted.tail
  rw [supply] at tail
  cases step with
  | loadTail asked =>
      obtain ⟨same, claimed⟩ := stands
      exact .inr ⟨same, claimed, now, tail, grown, Nat.le_refl now⟩
  | loadOvercommit asked loaded =>
      obtain ⟨same, claimed, shown⟩ := stands
      exact .inr ⟨same, claimed, counted.overcommit, shown⟩
  | seemsEmpty asked loaded overcommit nothing =>
      obtain ⟨rfl, claimed, rfl, amount, rfl, least, there⟩ := stands
      have none := rest rfl
      subst none
      rw [counted.effective, claimed] at nothing
      have empty := Dequeue.desired_none (by omega) (by omega) nothing
      refine .inr ⟨rfl, claimed, ?_, Nat.zero_le _, Nat.zero_le _⟩
      change min _ before ≤ 0
      omega
  | loadOptimistic asked loaded overcommit seems =>
      obtain ⟨rfl, claimed, rfl, amount, rfl, least, there⟩ := stands
      have none := rest rfl
      subst none
      have positive := Dequeue.desired_pos reckons.1 seems
      rw [counted.effective, claimed] at seems
      have desired := Dequeue.desired_eq (by omega) (by omega) seems
      exact .inr ⟨rfl, claimed, rfl, positive, by omega, by omega, by omega⟩
  | reserve asked overcommit desiredCount =>
      obtain ⟨same, claimed, rfl, positive, fair⟩ := stands
      have none := rest rfl
      subst none
      refine .inr ⟨same, claimed, ?_, positive, fair⟩
      rw [counted.effective, claimed]
  | checkFails asked overcommit desiredCount myDequeueCount nothing =>
      obtain ⟨rfl, claimed, drawn, positive, fair⟩ := stands
      rw [tail, drawn] at nothing
      have seems := Dequeue.desired_none_of_actual nothing
      have empty := Dequeue.desired_none (by omega) (by omega) seems
      have there := fair.there
      omega
  | checkShort asked overcommit desiredCount myDequeueCount seems short =>
      obtain ⟨rfl, claimed, drawn, positive, fair⟩ := stands
      rw [tail, drawn] at seems
      have actual := Dequeue.actual_eq (by omega) (by omega) positive fair.asked seems
      have there := fair.there
      rw [UInt64.lt_iff_toNat_lt] at short
      omega
  | @check asked overcommit desiredCount myDequeueCount actualCount seems whole =>
      obtain ⟨rfl, claimed, drawn, positive, fair⟩ := stands
      rw [tail, drawn] at seems
      have actual := Dequeue.actual_eq (by omega) (by omega) positive fair.asked seems
      have there := fair.there
      have all : actualCount.toNat = desiredCount.toNat := by omega
      refine .inr ⟨claimed, ?_⟩
      rwa [all]
  | giveUp | giveBack => exact stands.elim
  | claim actualCount =>
      obtain ⟨claimed, fair⟩ := stands
      have owed : (producer.headIndex + actualCount - producer.headIndex).toNat =
          actualCount.toNat := by
        rw [UInt64.add_comm, UInt64.add_sub_cancel]
      refine .inr ⟨?_, ?_⟩
      · change taken events + actualCount.toNat = head + (_ - _ : UInt64).toNat
        rw [owed, claimed]
      · change Fair kind before now (_ - _ : UInt64).toNat
        rwa [owed]
  | setEmpty walk start endIndex entry block here fits notAll =>
      exact .inr (walk.next_onward _ endIndex stands.1 stands.2)
  | release walk endIndex block here =>
      exact .inr (walk.next_onward _ endIndex stands.1 stands.2)
  | _ => first | exact .inl rfl | exact .inr stands

section Run

variable [DecidableEq Consumer] {allocated : Bool} {first state last : State Consumer T}
  {more : List (Event Consumer T)} {kind : Dequeue}

omit [DecidableEq Consumer] in
theorem enqueues_frame (step : Enqueues maxSubqueueSize producer pc after next output) :
    output.access.taken = 0 ∧ output.access.overcommitted = 0 := by
  cases step <;> exact ⟨rfl, rfl⟩

theorem no_tickets (standing : ∀ thread, Standing thread events tickets producer (state.pc thread))
    (none : ∀ consumer, (state.pc (.consumer consumer)).stub = none) : tickets = [] := by
  cases tickets with
  | nil => rfl
  | cons ticket rest =>
      have mine := (standing (.consumer ticket.name)).1
      rw [none] at mine
      have member : ticket ∈ named ticket.name (ticket :: rest) :=
        mem_named.mpr ⟨List.mem_cons_self, rfl⟩
      rw [List.map_eq_nil_iff.mp mine] at member
      cases member

/-- If no other consumer acts, what is claimed is claimed by this one. -/
theorem path_claims
    (run : ((program Consumer T maxSubqueueSize).machine (construct T allocated)).Run events first)
    (path : ((program Consumer T maxSubqueueSize).machine (construct T allocated)).Path first more
      last)
    (alone : ∀ event ∈ more, ∀ other, event.thread = .consumer other → other = consumer) :
    claims (events ++ more) = claims events ++
      (List.range' (taken events) (taken (events ++ more) - taken events)).map
        fun index => (consumer, index) := by
  induction more using List.reverseRecOn generalizing last with
  | nil => simp
  | append_singleton more event ih =>
      obtain ⟨middle, before, step⟩ := path.split
      obtain ⟨label, step⟩ := Machine.path_singleton step
      have claimed := ih before fun event member => alone event (List.mem_append_left _ member)
      have mine := alone event (List.mem_append_right _ (List.mem_singleton_self _))
      rw [← List.append_assoc]
      cases label with
      | call thread request =>
          obtain ⟨_, _, same⟩ := Option.map_eq_some_iff.mp step
          cases same
          rw [claims_called, taken_called, claimed]
      | run thread =>
          obtain ⟨⟨shared, next, output⟩, advanced, same⟩ := Option.map_eq_some_iff.mp step
          cases same
          rcases run_turn (run.trans before) advanced with ⟨_, enqueues⟩ | ⟨other, rfl, _⟩
          · have quiet := (enqueues_frame enqueues).1
            rw [claims_quiet quiet, taken_ran, quiet, Nat.add_zero, claimed]
          · obtain rfl := mine other rfl
            have grows := taken_mono events more
            rw [claims_snoc, claimed, share, taken_ran, List.append_assoc, ← List.map_append]
            congr 2
            rw [Nat.sub_add_comm grows, ← List.range'_append_1, Nat.add_sub_cancel' grows]

theorem path_published
    (run : ((program Consumer T maxSubqueueSize).machine (construct T allocated)).Run events first)
    (path : ((program Consumer T maxSubqueueSize).machine (construct T allocated)).Path first more
      last) : (published events).length ≤ (published (events ++ more)).length := by
  rw [← run_accepted run, ← run_accepted (run.trans path)]
  exact accepted_mono events more

/-- The call of a consumer while the others rest; it began after the given history. -/
structure Undisturbed (consumer : Consumer) (kind : Dequeue) (events more : List (Event Consumer T))
    (state : State Consumer T) : Prop where
  rest : ∀ other, other ≠ consumer → state.pc (.consumer other) = .idle
  stands : (state.pc (.consumer consumer)).Unrivalled kind (taken events)
    ((published events).length - taken events)
    ((published (events ++ more)).length - taken events) (taken (events ++ more))
    (overcommitted (events ++ more))

/-- An access of the call itself. -/
theorem Undisturbed.onward (undisturbed : Undisturbed consumer kind events more state)
    (run : ((program Consumer T maxSubqueueSize).machine (construct T allocated)).Run events first)
    (path : ((program Consumer T maxSubqueueSize).machine (construct T allocated)).Path first more
      state)
    (timely : Timely (events ++ more ++ [.ran (.consumer consumer) output]))
    (step : advance maxSubqueueSize state.shared (state.pc (.consumer consumer)) =
      some (after, next, output)) :
    Onward kind (taken events) ((published events).length - taken events)
      ((published (events ++ more ++ [.ran (.consumer consumer) output])).length - taken events)
      (taken (events ++ more ++ [.ran (.consumer consumer) output]))
      (overcommitted (events ++ more ++ [.ran (.consumer consumer) output])) next
      output.returned := by
  have whole := run.trans path
  have ordered := run_taken_le run timely.init.before
  have grows := path_published run path
  have room := (run_accounts whole timely.init (.consumer consumer)).room
  obtain ⟨tickets, counted, standing⟩ := run_counted whole timely.init
  rcases run_turn whole step with ⟨wrong, _⟩ | ⟨_, same, dequeues⟩
  · cases wrong
  · cases same
    have stepped : ((program Consumer T maxSubqueueSize).machine (construct T allocated)).step state
        (.run (.consumer consumer)) =
          some (state.moved after (.consumer consumer) next, .ran (.consumer consumer) output) :=
      congrArg (Option.map _) step
    obtain ⟨_, _, facts⟩ := run_sound (whole.snoc stepped) timely
    have alive := (facts (.consumer consumer)).alive
    rw [Threads.moved_pc_self] at alive
    rw [dequeues_published (.consumer consumer) dequeues, taken_ran, overcommitted_ran]
    refine (dequeues.onward counted (fun none => no_tickets standing fun other => ?_)
      (standing (.consumer consumer)).2 room (by omega) (by omega) undisturbed.stands).resolve_left
      alive
    by_cases own : other = consumer
    · rw [own, none]
    · rw [undisturbed.rest other own]
      rfl

omit [DecidableEq Consumer] in
theorem enter_dequeue {entered : Pc T}
    (enters : enter (.consumer consumer) pc (.dequeue kind : Call T) = some entered) :
    entered = .deqLoadTail kind := by
  unfold enter at enters
  split at enters
  case h_2 same => cases same; cases enters; rfl
  case h_3 same =>
      cases same
      split at enters
      · cases enters
      · cases enters
        rfl
  all_goals contradiction

/-- The producer grows the queue meanwhile. -/
theorem Undisturbed.produces {label : Threads.Label (Thread Consumer) (Call T)}
    {event : Event Consumer T} (undisturbed : Undisturbed consumer kind events more state)
    (run : ((program Consumer T maxSubqueueSize).machine (construct T allocated)).Run
      (events ++ more) state)
    (step : ((program Consumer T maxSubqueueSize).machine (construct T allocated)).step state
      label = some (last, event))
    (producer : event.thread = .producer) :
    Undisturbed consumer kind events (more ++ [event]) last := by
  have same : ∀ other, last.pc (.consumer other) = state.pc (.consumer other) := by
    intro other
    refine step_pc_other step fun same => ?_
    rw [producer] at same
    cases same
  have grows := path_published run (Machine.Path.refl.snoc step)
  obtain ⟨claimed, overcommits⟩ : taken (events ++ more ++ [event]) = taken (events ++ more) ∧
      overcommitted (events ++ more ++ [event]) = overcommitted (events ++ more) := by
    cases label with
    | call thread request =>
        obtain ⟨pc, entered, equal⟩ := Option.map_eq_some_iff.mp step
        cases equal
        exact ⟨taken_called .., overcommitted_called ..⟩
    | run thread =>
        obtain ⟨⟨shared, next, output⟩, advanced, equal⟩ := Option.map_eq_some_iff.mp step
        cases equal
        have equal : thread = .producer := producer
        subst equal
        rcases run_turn run advanced with ⟨_, enqueues⟩ | ⟨_, wrong, _⟩
        · obtain ⟨takes, overcommits⟩ := enqueues_frame enqueues
          rw [taken_ran, overcommitted_ran, takes, overcommits]
          exact ⟨rfl, rfl⟩
        · cases wrong
  refine ⟨fun other apart => ?_, ?_⟩
  · rw [same, undisturbed.rest other apart]
  · rw [same, ← List.append_assoc, claimed, overcommits]
    exact undisturbed.stands.mono (Nat.sub_le_sub_right grows _)

/-- The call goes on. -/
theorem Undisturbed.continues {label : Threads.Label (Thread Consumer) (Call T)}
    {event : Event Consumer T} (undisturbed : Undisturbed consumer kind events more state)
    (run : ((program Consumer T maxSubqueueSize).machine (construct T allocated)).Run events first)
    (path : ((program Consumer T maxSubqueueSize).machine (construct T allocated)).Path first more
      state)
    (timely : Timely (events ++ more ++ [event]))
    (step : ((program Consumer T maxSubqueueSize).machine (construct T allocated)).step state
      label = some (last, event))
    (own : event.thread = .consumer consumer)
    (silent : event.output.bind Output.returned = none) :
    Undisturbed consumer kind events (more ++ [event]) last := by
  have others : ∀ other, other ≠ consumer → last.pc (.consumer other) = .idle := by
    intro other apart
    rw [← undisturbed.rest other apart]
    exact step_pc_other step fun same => apart (Thread.consumer.inj (same.symm.trans own))
  refine ⟨others, ?_⟩
  cases label with
  | call thread request =>
      obtain ⟨pc, entered, same⟩ := Option.map_eq_some_iff.mp step
      cases same
      have same : thread = .consumer consumer := own
      subst same
      have stands := undisturbed.stands
      rw [(enter_idle entered).1] at stands
      exact stands.elim
  | run thread =>
      obtain ⟨⟨shared, next, output⟩, advanced, same⟩ := Option.map_eq_some_iff.mp step
      cases same
      have same : thread = .consumer consumer := own
      subst same
      have silent : output.returned = none := silent
      have onward := undisturbed.onward run path timely advanced
      rw [silent] at onward
      rw [Threads.moved_pc_self, ← List.append_assoc]
      exact onward

/-- The call begins. -/
theorem call_undisturbed {label : Threads.Label (Thread Consumer) (Call T)}
    (idle : ∀ other, first.pc (.consumer other) = .idle)
    (step : ((program Consumer T maxSubqueueSize).machine (construct T allocated)).step first
      label = some (state, .called (.consumer consumer) (.dequeue kind))) :
    Undisturbed consumer kind events [.called (.consumer consumer) (.dequeue kind)] state := by
  cases label with
  | run thread =>
      obtain ⟨_, _, same⟩ := Option.map_eq_some_iff.mp step
      cases same
  | call thread request =>
      have others : ∀ other, other ≠ consumer → state.pc (.consumer other) = .idle := by
        intro other apart
        rw [← idle other]
        exact step_pc_other step fun same => apart (Thread.consumer.inj same).symm
      obtain ⟨pc, entered, same⟩ := Option.map_eq_some_iff.mp step
      cases same
      refine ⟨others, ?_⟩
      rw [Threads.moved_pc_self, enter_dequeue entered]
      exact ⟨rfl, taken_called ..⟩

/-- As long as the call is not answered, it is undisturbed. -/
theorem run_undisturbed
    (run : ((program Consumer T maxSubqueueSize).machine (construct T allocated)).Run events first)
    (path : ((program Consumer T maxSubqueueSize).machine (construct T allocated)).Path first
      (.called (.consumer consumer) (.dequeue kind) :: more) state)
    (timely : Timely (events ++ .called (.consumer consumer) (.dequeue kind) :: more))
    (idle : ∀ other, first.pc (.consumer other) = .idle)
    (alone : ∀ event ∈ more, ∀ other, event.thread = .consumer other →
      other = consumer ∧ event.output.bind Output.returned = none) :
    Undisturbed consumer kind events (.called (.consumer consumer) (.dequeue kind) :: more)
      state := by
  induction more using List.reverseRecOn generalizing state with
  | nil =>
      obtain ⟨label, step⟩ := Machine.path_singleton path
      exact call_undisturbed idle step
  | append_singleton more event ih =>
      rw [← List.cons_append] at path timely ⊢
      rw [← List.append_assoc] at timely
      obtain ⟨middle, before, step⟩ := path.split
      obtain ⟨label, step⟩ := Machine.path_singleton step
      have undisturbed := ih before timely.init fun event member =>
        alone event (List.mem_append_left _ member)
      have mine := alone event (List.mem_append_right _ (List.mem_singleton_self _))
      cases thread : event.thread with
      | producer => exact undisturbed.produces (run.trans before) step thread
      | consumer other =>
          obtain ⟨rfl, silent⟩ := mine other thread
          exact undisturbed.continues run before timely step thread silent

/-- A call that no other consumer disturbs, whatever the producer does meanwhile, returns
no less than what was there when it began, as far as it asks for it, and moves the next
elements in their order. -/
theorem undisturbed_dequeue {call : List (Event Consumer T)} {answer : Return T}
    (whole : call = .called (.consumer consumer) (.dequeue kind) :: more ++
      [.ran (.consumer consumer) output])
    (run : ((program Consumer T maxSubqueueSize).machine (construct T allocated)).Run events first)
    (path : ((program Consumer T maxSubqueueSize).machine (construct T allocated)).Path first call
      last)
    (timely : Timely (events ++ call)) (idle : ∀ other, first.pc (.consumer other) = .idle)
    (alone : ∀ event ∈ more, ∀ other, event.thread = .consumer other →
      other = consumer ∧ event.output.bind Output.returned = none)
    (answered : output.returned = some answer) :
    min kind.most ((accepted events).length - taken events) ≤ answer.count ∧
      answer.count ≤ kind.most ∧
      taken events + answer.count ≤ (accepted (events ++ call)).length ∧
      select (fun other => decide (other = consumer)) (moves (events ++ call)) =
        select (fun other => decide (other = consumer)) (moves events) ++
          ((accepted (events ++ call)).drop (taken events)).take answer.count := by
  have claimed : claims (events ++ call) = claims events ++
      (List.range' (taken events) (taken (events ++ call) - taken events)).map
        fun index => (consumer, index) := by
    refine path_claims run path fun event member other own => ?_
    rw [whole] at member
    rcases List.mem_append.mp member with before | now
    · rcases List.mem_cons.mp before with rfl | between
      · exact (Thread.consumer.inj own).symm
      · exact (alone event between other own).1
    · rw [List.mem_singleton.mp now] at own
      exact (Thread.consumer.inj own).symm
  have share : ∀ indices : List Nat, select (fun other => decide (other = consumer))
      (indices.map fun index => (consumer, index)) = indices := by
    intro indices
    apply select_own
    exact decide_eq_true rfl
  obtain ⟨rest, after, done⟩ := run_moves (run.trans path) timely consumer
  obtain ⟨ended, rests, fair⟩ : taken (events ++ call) = taken events + answer.count ∧
      last.pc (.consumer consumer) = .idle ∧
      Fair kind ((published events).length - taken events)
        ((published (events ++ call)).length - taken events) answer.count := by
    rw [whole] at path timely
    obtain ⟨middle, between, step⟩ := path.split
    obtain ⟨label, step⟩ := Machine.path_singleton step
    rw [← List.append_assoc] at timely
    have undisturbed := run_undisturbed run between timely.init idle alone
    cases label with
    | call thread request =>
        obtain ⟨_, _, same⟩ := Option.map_eq_some_iff.mp step
        cases same
    | run thread =>
        obtain ⟨⟨shared, next, output⟩, advanced, same⟩ := Option.map_eq_some_iff.mp step
        cases same
        have onward := undisturbed.onward run between timely advanced
        rw [answered, List.append_assoc, ← whole] at onward
        obtain ⟨rests, ended, fair⟩ := onward
        exact ⟨ended, (Threads.moved_pc_self ..).trans rests, fair⟩
  have there := fair.there
  have ordered := run_taken_le run timely.before
  have grows := path_published run path
  refine ⟨?_, fair.asked, ?_, ?_⟩
  · rw [run_accepted run]
    exact fair.least
  · rw [run_accepted (run.trans path)]
    omega
  · obtain ⟨left, before, nothing⟩ := run_moves run timely.before consumer
    rw [nothing (idle consumer), List.append_nil] at before
    rw [done rests, List.append_nil, claimed, ended, Nat.add_sub_cancel_left, select_append, share,
      pick, List.filterMap_append, ← pick, ← pick, pick_range'] at after
    rw [after, before, accepted, List.filterMap_append, ← accepted]
    congr 1
    refine pick_append fun index member => ?_
    obtain ⟨entry, listed, rfl⟩ := List.mem_map.mp member
    have below := claims_lt events entry (List.mem_filter.mp listed).1
    rw [run_accepted run]
    omega

/-- A `dequeue_bulk` of at most five elements that finds three, and a fourth element that
is enqueued after it has looked at the tail. -/
def growing : List (Event Bool Nat) :=
  [.ran (.consumer true) ⟨.loadTailIndex, none⟩,
    .called .producer (.enqueue ⟨13, .canAlloc, true, none⟩),
    .ran .producer ⟨.loadTailIndex, none⟩, .ran .producer ⟨.construct 3 13, none⟩,
    .ran .producer ⟨.storeTailIndex 13, some (.enqueued 13 true)⟩,
    .ran (.consumer true) ⟨.loadOvercommit, none⟩,
    .ran (.consumer true) ⟨.loadOptimisticCount, none⟩,
    .ran (.consumer true) ⟨.reserve 3, none⟩, .ran (.consumer true) ⟨.loadTailIndex, none⟩,
    .ran (.consumer true) ⟨.claim 0 3, none⟩, .ran (.consumer true) ⟨.loadBlockIndex, none⟩,
    .ran (.consumer true) ⟨.loadIndexTail, none⟩, .ran (.consumer true) ⟨.loadKey, none⟩,
    .ran (.consumer true) ⟨.loadKey, none⟩, .ran (.consumer true) ⟨.loadValue, none⟩,
    .ran (.consumer true) ⟨.loadValue, none⟩, .ran (.consumer true) ⟨.move 0 10, none⟩,
    .ran (.consumer true) ⟨.move 1 11, none⟩, .ran (.consumer true) ⟨.move 2 12, none⟩]

/-- The call with its answer. -/
def growingCall : List (Event Bool Nat) :=
  .called (.consumer true) (.dequeue (.bulk 5)) :: growing ++
    [.ran (.consumer true) ⟨.setEmpty 4 3, some (.dequeued 3)⟩]

theorem growing_path : ∃ first,
    ((program Bool Nat (MAX_SUBQUEUE_SIZE 32)).machine (construct Nat true)).Run
      (overtakingEvents.take 19) first ∧ (∀ other, first.pc (.consumer other) = .idle) ∧
    ∃ last, ((program Bool Nat (MAX_SUBQUEUE_SIZE 32)).machine (construct Nat true)).Path first
      growingCall last := by
  refine ⟨_, Machine.exec_run ((program Bool Nat (MAX_SUBQUEUE_SIZE 32)).machine
    (construct Nat true)) (overtaking.take 19) rfl, ?_, _, @Machine.exec_path _ _ _
    ((program Bool Nat (MAX_SUBQUEUE_SIZE 32)).machine (construct Nat true))
    (growingCall.map Threads.Event.label) _ _ _ rfl⟩
  intro other
  cases other <;> rfl

theorem undisturbed_dequeue_growing :
    select (fun other => decide (other = true)) (moves (overtakingEvents.take 19 ++ growingCall)) =
      [10, 11, 12] := by
  obtain ⟨first, run, idle, last, path⟩ := growing_path
  have timely : Timely (overtakingEvents.take 19 ++ growingCall) := .of_check (by decide +kernel)
  have alone : ∀ event ∈ growing, ∀ other, event.thread = .consumer other →
      other = true ∧ event.output.bind Output.returned = none := by
    simp [growing, Threads.Event.thread, Threads.Event.output]
  obtain ⟨_, _, _, moved⟩ := undisturbed_dequeue rfl run path timely idle alone rfl
  exact moved.trans (by decide +kernel)

end Run

end DmLockFree.ConcurrentQueue.ImplicitProducer
