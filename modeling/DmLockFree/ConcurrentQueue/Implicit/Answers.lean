import DmLockFree.ConcurrentQueue.Implicit.Run

/-! What the calls of `enqueue` and `dequeue` answer. -/

set_option autoImplicit false

namespace DmLockFree.ConcurrentQueue.ImplicitProducer

open Library Program

variable {Consumer T : Type} {maxSubqueueSize : UInt64} {events : List (Event Consumer T)}
  {producer after : ImplicitProducer T} {pc next : Pc T} {output : Output T}

def Return.accepted : Return T → Option T
  | .enqueued value true => some value
  | _ => none

def Return.count : Return T → Nat
  | .dequeued count => count.toNat
  | _ => 0

/-- The values for which `enqueue` has returned true. -/
def accepted (events : List (Event Consumer T)) : List T :=
  events.filterMap fun event => (event.output.bind Output.returned).bind Return.accepted

/-- How many elements the calls of each consumer have returned. -/
def answers (events : List (Event Consumer T)) : List (Consumer × Nat) :=
  events.filterMap fun
    | .ran (.consumer name) output => output.returned.map fun answer => (name, answer.count)
    | _ => none

section Accepted

theorem accepted_called (thread : Thread Consumer) (request : Call T) :
    accepted (events ++ [.called thread request]) = accepted events := by
  simp [accepted, Threads.Event.output]

theorem accepted_ran (thread : Thread Consumer) : accepted (events ++ [.ran thread output]) =
    accepted events ++ (output.returned.bind Return.accepted).toList := by
  cases answer : output.returned.bind Return.accepted <;>
    simp [accepted, Threads.Event.output, answer]

theorem Walk.next_accepted (walk : Walk) (header : BlockIndexHeader) (endIndex : UInt64) :
    (walk.next header endIndex : Pc T × _).2.bind Return.accepted = none := by
  unfold Walk.next
  split <;> rfl

/-- A value is accepted when the tail is stored. -/
theorem Enqueues.accepted (taken : Enqueues maxSubqueueSize producer pc after next output) :
    output.returned.bind Return.accepted = output.access.published := by
  cases taken <;> rfl

theorem Dequeues.accepted (taken : Dequeues producer pc after next output) :
    output.returned.bind Return.accepted = output.access.published := by
  cases taken with
  | setEmpty walk start endIndex entry block here fits notAll => exact walk.next_accepted _ endIndex
  | release walk endIndex block here => exact walk.next_accepted _ endIndex
  | _ => rfl

theorem advance_accepted
    (taken : advance maxSubqueueSize producer pc = some (after, next, output)) :
    output.returned.bind Return.accepted = output.access.published := by
  rcases advances taken with enqueues | dequeues
  · exact enqueues.accepted
  · exact dequeues.accepted

theorem run_accepted [DecidableEq Consumer] {start : ImplicitProducer T}
    {state : State Consumer T}
    (run : ((program Consumer T maxSubqueueSize).machine start).Run events state) :
    accepted events = published events := by
  induction run with
  | refl => rfl
  | @snoc state after events label event path taken ih =>
      cases label with
      | call thread request =>
          obtain ⟨pc, _, same⟩ := Option.map_eq_some_iff.mp taken
          cases same
          rw [accepted_called, published_called, ih]
      | run thread =>
          obtain ⟨⟨shared, pc, output⟩, advanced, same⟩ := Option.map_eq_some_iff.mp taken
          cases same
          rw [accepted_ran, published_ran, ih, advance_accepted advanced]

end Accepted

/-- How many elements a running call owes that has claimed them. -/
def Pc.owed : Pc T → Nat
  | .findLoadIndex first stop | .findLoadTail first stop _ | .findLoadKey first stop _ _ =>
      (stop - first).toNat
  | .findAssertKey walk | .findAssertValue walk | .deqLoadBlock walk _ | .deqMove walk _ _ _ _ _
  | .deqSetEmpty walk _ _ _ _ | .deqClearValue walk _ _ _ | .deqRelease walk _ _ =>
      (walk.stop - walk.first).toNat
  | _ => 0

section Answers

variable {consumer : Consumer} {mine : Consumer → Bool}

theorem answers_called (thread : Thread Consumer) (request : Call T) :
    answers (events ++ [.called thread request]) = answers events := by
  simp [answers]

theorem answers_producer : answers (events ++ [.ran .producer output]) = answers events := by
  simp [answers]

theorem answers_consumer : answers (events ++ [.ran (.consumer consumer) output]) =
    answers events ++
      (output.returned.toList.map Return.count).map fun count => (consumer, count) := by
  cases answer : output.returned <;> simp [answers, answer]

theorem Walk.next_owed (walk : Walk) (header : BlockIndexHeader) (endIndex : UInt64) :
    (walk.next header endIndex : Pc T × _).1.owed +
      (walk.next header endIndex : Pc T × _).2.elim 0 Return.count =
        (walk.stop - walk.first).toNat := by
  unfold Walk.next
  split
  · exact Nat.zero_add _
  · rfl

/-- A step owes what is claimed until it is returned. -/
theorem Dequeues.owed (taken : Dequeues producer pc after next output) :
    next = .aborted ∨ next.owed + output.returned.elim 0 Return.count =
      pc.owed + output.access.taken := by
  cases taken with
  | claim actualCount =>
      refine .inr ?_
      change (producer.headIndex + actualCount - producer.headIndex).toNat + 0 =
        0 + actualCount.toNat
      rw [Nat.zero_add, Nat.add_zero, UInt64.add_comm, UInt64.add_sub_cancel]
  | setEmpty walk start endIndex entry block here fits notAll =>
      exact .inr (walk.next_owed _ endIndex)
  | release walk endIndex block here => exact .inr (walk.next_owed _ endIndex)
  | moveLast | move => exact .inr rfl
  | _ => first | exact .inl rfl | exact .inr rfl

/-- What a consumer has claimed and not yet returned. -/
def Pays (thread : Thread Consumer) (events : List (Event Consumer T)) (_ : Unit)
    (_ : ImplicitProducer T) (pc : Pc T) : Prop :=
  pc = .aborted ∨ ∀ consumer mine, thread = .consumer consumer →
    (∀ other, mine other = true ↔ other = consumer) →
    pc.owed + (select mine (answers events)).sum = (select mine (claims events)).length

theorem pays_ran (own : ∀ other, mine other = true ↔ other = consumer)
    (pays : pc.owed + (select mine (answers events)).sum = (select mine (claims events)).length)
    (taken : Dequeues producer pc after next output) :
    next = .aborted ∨
      next.owed + (select mine (answers (events ++ [.ran (.consumer consumer) output]))).sum =
        (select mine (claims (events ++ [.ran (.consumer consumer) output]))).length := by
  refine taken.owed.imp_right fun step => ?_
  have selected := (own consumer).mpr rfl
  have returned : (output.returned.toList.map Return.count).sum =
      output.returned.elim 0 Return.count := by
    cases output.returned with
    | none => rfl
    | some answer => exact Nat.add_zero _
  rw [answers_consumer, claims_snoc, select_append, select_append, share, List.sum_append,
    List.length_append, select_own selected, select_own selected, List.length_range', ← pays,
    returned]
  omega

theorem turn_pays [DecidableEq Consumer] {start : ImplicitProducer T} {state : State Consumer T}
    {thread : Thread Consumer}
    (run : ((program Consumer T maxSubqueueSize).machine start).Run events state)
    (pays : Pays thread events () state.shared (state.pc thread))
    (taken : advance maxSubqueueSize state.shared (state.pc thread) = some (after, next, output)) :
    Pays thread (events ++ [.ran thread output]) () after next := by
  rcases run_turn run taken with ⟨rfl, _⟩ | ⟨name, rfl, dequeues⟩
  · exact .inr fun _ _ is => by cases is
  · rcases pays with aborted | pays
    · rw [aborted] at dequeues
      cases dequeues
    · by_cases broken : next = .aborted
      · exact .inl broken
      · refine .inr fun other mine is own => ?_
        cases is
        exact (pays_ran own (pays name mine rfl own) dequeues).resolve_left broken

/-- The steps of the others are not in what is selected. -/
theorem select_ran {thread : Thread Consumer} (own : ∀ other, mine other = true ↔ other = consumer)
    (apart : thread ≠ .consumer consumer) :
    select mine (answers (events ++ [.ran thread output])) = select mine (answers events) ∧
      select mine (claims (events ++ [.ran thread output])) = select mine (claims events) := by
  cases thread with
  | producer => exact ⟨by rw [answers_producer], by rw [claims_snoc]; exact congrArg _ (List.append_nil _)⟩
  | consumer name =>
      have others : mine name = false :=
        Bool.eq_false_iff.mpr fun same => apart (congrArg _ ((own name).mp same))
      rw [answers_consumer, claims_snoc, share, select_append, select_append, select_other others,
        select_other others, List.append_nil, List.append_nil]
      exact ⟨rfl, rfl⟩

theorem call_pays {thread : Thread Consumer} {request : Call T}
    (pays : Pays thread events () producer pc) (entered : enter thread pc request = some next) :
    Preserves (fun _ ghost _ => ghost = ()) Pays thread events (.called thread request) () ()
      producer producer next := by
  refine ⟨rfl, ?_, fun other apart point mine => ?_⟩
  · rcases pays with aborted | pays
    · rw [aborted] at entered
      cases thread <;> cases entered
    · refine .inr fun name select is own => ?_
      rw [answers_called, claims_called, ← pays name select is own]
      unfold enter at entered
      split at entered
      · cases is
      · cases entered
        rfl
      · split at entered
        · cases entered
        · cases entered
          rfl
      · cases entered
  · refine mine.imp_right fun pays name select is own => ?_
    rw [answers_called, claims_called]
    exact pays name select is own

theorem ran_pays {thread other : Thread Consumer} {point : Pc T}
    (pays : Pays other events () producer point) (apart : other ≠ thread) :
    Pays other (events ++ [.ran thread output]) () after point := by
  refine pays.imp_right fun pays name mine is own => ?_
  subst is
  obtain ⟨answered, claimed⟩ := @select_ran _ _ events output _ _ _ own apart.symm
  rw [answered, claimed]
  exact pays name mine rfl own

/-- In every run, what a consumer has claimed is returned or owed by its running call. -/
theorem run_pays [DecidableEq Consumer] {start : ImplicitProducer T} {state : State Consumer T}
    (run : ((program Consumer T maxSubqueueSize).machine start).Run events state)
    (thread : Thread Consumer) : Pays thread events () state.shared (state.pc thread) := by
  obtain ⟨_, _, pays⟩ := run_invariant (fun _ ghost _ => ghost = ()) Pays rfl
    (fun _ => .inr fun _ _ _ _ => rfl)
    (fun _ _ pays entered => ⟨(), call_pays pays entered⟩)
    (fun run _ pays taken => ⟨(), rfl, turn_pays run pays taken,
      fun _ apart _ pays => ran_pays pays apart⟩) run
  exact pays thread

end Answers

end DmLockFree.ConcurrentQueue.ImplicitProducer
