import DmLockFree.ConcurrentQueue.Implicit.Enqueuing

/-! The blocks of an `ImplicitProducer` are sound after every history. -/

set_option autoImplicit false

namespace DmLockFree.ConcurrentQueue.ImplicitProducer

open Library Program Ticket

variable {Consumer T : Type} [DecidableEq Consumer] {maxSubqueueSize : UInt64} {allocated : Bool}
  {events : List (Event Consumer T)} {state : State Consumer T} {thread : Thread Consumer}
  {ghost : Ghost Consumer T} {producer : ImplicitProducer T} {pc next : Pc T} {request : Call T}

/-- Nothing is enqueued and no block is opened. -/
def Ghost.start (Consumer T : Type) : Ghost Consumer T where
  slots := ⟨fun _ => 0, fun _ => ⟨0, 0, 0, 0⟩, 0⟩
  stage := fun _ => .absent
  owner := fun _ => .waiting
  claim := fun _ => ⟨0, 0, 0, 0⟩
  trail := []
  mapped := 0
  fresh := none
  ahead := none

omit [DecidableEq Consumer] in
theorem construct_sound (Consumer T : Type) (allocated : Bool) :
    Sound [] (Ghost.start Consumer T) (construct T allocated) := by
  have none : ∀ number, (Ghost.start Consumer T).held number = none := fun _ => rfl
  refine ⟨Indexed.start allocated, ⟨?_, ?_, ?_, ?_, fun _ _ _ _ => rfl, ?_, ?_, ?_⟩, ⟨?_, ?_, ?_, ?_,
    ?_, ?_, ?_, ?_⟩, ⟨List.nodup_nil, ?_, ?_, .nil, rfl, fun _ _ _ => rfl⟩, ⟨?_, ?_, ?_⟩⟩
  · exact fun number => iff_of_true rfl (Nat.zero_le number)
  · exact fun index emptied => (by cases emptied)
  · exact fun number block opened => (by cases opened)
  · exact fun index block there => (by cases there)
  · exact fun number other block there => (by cases there)
  · exact fun number block new => (by cases new)
  · intro block
    refine iff_of_false Bool.false_ne_true ?_
    rintro (⟨_, there⟩ | new)
    · cases there
    · cases new
  · exact fun index => iff_of_true rfl (Nat.zero_le index)
  · exact fun consumer index => iff_of_false nofun fun both => absurd both.2 (Nat.not_lt_zero _)
  · exact fun consumer index => iff_of_false nofun fun both => absurd both.2 (Nat.not_lt_zero _)
  · exact fun _ => Nat.le_refl 0
  · exact fun _ => Nat.le_refl 0
  · exact fun _ => Nat.le_refl 0
  · exact fun _ => Nat.le_refl 0
  · exact fun _ => (by decide : 0 < 0 + 2 ^ 63)
  · exact fun index => iff_of_false List.not_mem_nil nofun
  · exact fun step member => absurd member List.not_mem_nil
  · exact Nat.le_refl 0
  · exact Nat.zero_le _
  · exact fun less => absurd less (Nat.not_lt_zero _)

omit [DecidableEq Consumer] in
theorem construct_facts (thread : Thread Consumer) :
    Facts thread [] (Ghost.start Consumer T) (construct T allocated) .idle := by
  have mapped : 0 = ((published ([] : List (Event Consumer T))).length + 31) / 32 := by
    simp [published]
  cases thread with
  | producer => exact ⟨⟨mapped, fun _ _ => ⟨rfl, .inl rfl⟩⟩, rfl, rfl⟩
  | consumer name => exact ⟨rfl, fun _ _ stage => (by cases stage), fun _ _ stage => (by cases stage)⟩

omit [DecidableEq Consumer] in
theorem call_sound (sound : Sound events ghost producer) (facts : Facts thread events ghost producer pc)
    (entered : enter thread pc request = some next) :
    Preserves Sound Facts thread events (.called thread request) ghost ghost producer producer
      next := by
  have same : published (events ++ [.called thread request]) = published events :=
    published_called ..
  refine ⟨sound.still ⟨rfl, rfl, rfl, rfl⟩ same (taken_called ..) (moves_called ..) claims_called,
    ?_, fun other apart point mine => ?_⟩
  · unfold enter at entered
    split at entered
    · cases entered
      refine ⟨?_, facts.fresh, facts.ahead⟩
      rw [same]
      exact facts.stands
    · cases entered
      exact ⟨facts.stands, facts.clears, facts.releases⟩
    · split at entered
      · cases entered
      · cases entered
        exact ⟨facts.stands, facts.clears, facts.releases⟩
    · cases entered
  · cases other with
    | producer =>
        refine ⟨?_, mine.fresh, mine.ahead⟩
        rw [same]
        exact mine.stands
    | consumer name => exact mine

omit [DecidableEq Consumer] in
theorem Pc.tail_side {tail : UInt64} (current : pc.tail = some tail) :
    pc.side = some .enqueuing := by
  cases pc <;> first | rfl | cases current

/-- What a thread may take is there. -/
theorem Standing.claim_le {tickets : List (Ticket Consumer)} {consumer : Consumer}
    {amount : UInt64} (counted : Counted events tickets producer)
    (standing : Standing (.consumer consumer) events tickets producer (.deqClaim amount)) :
    0 < amount.toNat ∧ taken events + amount.toNat ≤ (published events).length := by
  obtain ⟨first, ticket, second, whole, _, _, _, member, amount, _, granted⟩ :=
    standing.ticket rfl
  have covered := counted.covered
  rw [whole, List.append_assoc, List.singleton_append] at covered
  rw [← amount]
  exact ⟨counted.positive ticket (mem_named.mp member).1, covered.granted_le granted⟩

theorem run_accounts
    (run : ((program Consumer T maxSubqueueSize).machine (construct T allocated)).Run events state)
    (timely : Timely events) (thread : Thread Consumer) :
    Accounts events state.shared (state.pc thread) := by
  obtain ⟨tickets, counted, standing⟩ := run_counted run timely
  obtain ⟨room, _⟩ := run_room (limits_word maxSubqueueSize) run timely
  refine ⟨counted.tail, counted.head, counted.covered.taken_le, by omega, fun amount stands => ?_,
    fun word current => ?_⟩
  · have mine := standing thread
    rw [stands] at mine
    cases thread with
    | producer => cases run_side run .producer .dequeuing (by rw [stands]; rfl)
    | consumer name => exact mine.claim_le counted
  · cases thread with
    | producer => exact standing .producer word current
    | consumer name => cases run_side run (.consumer name) _ (Pc.tail_side current)

/-- After every timely history there is a ghost for which everything is sound. -/
theorem run_sound
    (run : ((program Consumer T maxSubqueueSize).machine (construct T allocated)).Run events state)
    (timely : Timely events) :
    ∃ ghost, Sound events ghost state.shared ∧
      ∀ thread, Facts thread events ghost state.shared (state.pc thread) := by
  refine along_invariant Sound Facts (construct_sound Consumer T allocated) construct_facts
    (fun _ _ sound facts entered => ⟨_, call_sound sound facts entered⟩)
    (fun run timely sound facts taken => ?_) run timely
  have accounts := run_accounts run timely.init
  rcases run_turn run taken with ⟨rfl, enqueues⟩ | ⟨consumer, rfl, dequeues⟩
  · exact enqueues_makes sound (accounts .producer) facts enqueues
  · exact dequeues_takes sound (accounts (.consumer consumer)).ordered (accounts (.consumer consumer))
      facts dequeues

/-- The block that an access takes from the memory of the queue, or gives back to it. -/
def Access.hands : Access T → Option (Nat × Bool)
  | .requisition (some block) => some (block, true)
  | .release block => some (block, false)
  | _ => none

/-- The blocks of a producer after an access. -/
def Access.requisitions (access : Access T) (requisitioned : Nat → Bool) : Nat → Bool :=
  access.hands.elim requisitioned fun hand => Function.update requisitioned hand.1 hand.2

theorem Enqueues.requisitioned {after : ImplicitProducer T} {output : Output T}
    (taken : Enqueues maxSubqueueSize producer pc after next output) :
    after.requisitioned = output.access.requisitions producer.requisitioned := by
  cases taken <;> rfl

theorem Dequeues.requisitioned {after : ImplicitProducer T} {output : Output T}
    (taken : Dequeues producer pc after next output) (goesOn : next ≠ .aborted) :
    after.requisitioned = output.access.requisitions producer.requisitioned := by
  cases taken with
  | releaseAborts => exact absurd rfl goesOn
  | _ => rfl

omit [DecidableEq Consumer] in
theorem Facts.alive (facts : Facts thread events ghost producer pc) : pc ≠ .aborted := by
  intro aborted
  rw [aborted] at facts
  cases thread with
  | producer => exact facts.stands
  | consumer name => exact facts.stands

theorem Enqueues.not_release {after : ImplicitProducer T} {output : Output T} {block : Nat}
    (taken : Enqueues maxSubqueueSize producer pc after next output) :
    output.access ≠ .release block := by
  intro releases
  cases taken <;> cases releases

theorem Dequeues.releases {after : ImplicitProducer T} {output : Output T} {block : Nat}
    (taken : Dequeues producer pc after next output) (releases : output.access = .release block) :
    pc.releases = some block := by
  cases taken with
  | releaseAborts | release =>
      cases releases
      rfl
  | _ => cases releases

omit [DecidableEq Consumer] in
theorem ConsumerFacts.releasing {consumer : Consumer} {block : Nat}
    (facts : ConsumerFacts consumer ghost producer pc) (releases : pc.releases = some block) :
    ∃ number, ghost.stage number = .releasing consumer block := by
  cases pc with
  | deqRelease walk endIndex block =>
      cases releases
      obtain ⟨number, _, stage⟩ := facts.stands
      exact ⟨number, stage⟩
  | _ => cases releases

/-- A producer gives back only blocks that it has. -/
theorem run_hands {after : ImplicitProducer T} {output : Output T}
    (run : ((program Consumer T maxSubqueueSize).machine (construct T allocated)).Run events state)
    (timely : Timely (events ++ [.ran thread output]))
    (taken : advance maxSubqueueSize state.shared (state.pc thread) = some (after, next, output)) :
    after.requisitioned = output.access.requisitions state.shared.requisitioned ∧
      ∀ block, output.access = .release block → state.shared.requisitioned block = true := by
  have step : ((program Consumer T maxSubqueueSize).machine (construct T allocated)).step state
      (.run thread) = some (state.moved after thread next, .ran thread output) :=
    Option.map_eq_some_iff.mpr ⟨_, taken, rfl⟩
  have goesOn : next ≠ .aborted := by
    obtain ⟨_, _, facts⟩ := run_sound (run.snoc step) timely
    have mine := (facts thread).alive
    rwa [Threads.moved_pc_self] at mine
  obtain ⟨ghost, sound, facts⟩ := run_sound run timely.init
  rcases run_turn run taken with ⟨rfl, enqueues⟩ | ⟨consumer, rfl, dequeues⟩
  · exact ⟨enqueues.requisitioned, fun block releases => absurd releases enqueues.not_release⟩
  · refine ⟨dequeues.requisitioned goesOn, fun block releases => ?_⟩
    have mine : ConsumerFacts consumer ghost state.shared (state.pc (.consumer consumer)) :=
      facts (.consumer consumer)
    obtain ⟨number, stage⟩ := mine.releasing (dequeues.releases releases)
    rw [sound.stored.requisitioned]
    exact .inl ⟨number, by rw [Ghost.held, stage]; rfl⟩

/-- A producer leaves nothing in a block that it does not have. -/
theorem run_vacant
    (run : ((program Consumer T maxSubqueueSize).machine (construct T allocated)).Run events state)
    (timely : Timely events) {block : Nat} (unused : state.shared.requisitioned block = false) :
    ∀ offset, offset < 32 → (state.shared.blocks block).elements offset = none := by
  obtain ⟨ghost, sound, _⟩ := run_sound run timely
  refine sound.stored.vacant block fun number there => ?_
  rw [(sound.stored.requisitioned block).mpr (.inl ⟨number, there⟩)] at unused
  cases unused

end DmLockFree.ConcurrentQueue.ImplicitProducer
