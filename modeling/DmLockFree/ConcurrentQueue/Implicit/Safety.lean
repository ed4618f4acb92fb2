import DmLockFree.ConcurrentQueue.Implicit.Answers

/-!
# One producer and any number of consumers

Every enqueued element is dequeued at most once, and in its turn.
-/

set_option autoImplicit false

namespace DmLockFree.ConcurrentQueue.ImplicitProducer

open Library Program

variable {Consumer T : Type} [DecidableEq Consumer] {maxSubqueueSize : UInt64} {allocated : Bool}
  {events : List (Event Consumer T)} {state : State Consumer T}

/-- Three elements, a `dequeue` that claims the first one, and a `dequeue_bulk` that moves
the others before it does. -/
def overtaking : List (Threads.Label (Thread Bool) (Call Nat)) :=
  .call .producer (.enqueue ⟨10, .canAlloc, true, some 4⟩) ::
    List.replicate 10 (.run .producer) ++
  .call .producer (.enqueue ⟨11, .canAlloc, true, none⟩) :: List.replicate 3 (.run .producer) ++
  .call .producer (.enqueue ⟨12, .canAlloc, true, none⟩) :: List.replicate 3 (.run .producer) ++
  .call (.consumer false) (.dequeue .single) :: List.replicate 4 (.run (.consumer false)) ++
  .call (.consumer true) (.dequeue (.bulk 5)) :: List.replicate 5 (.run (.consumer true)) ++
  List.replicate 2 (.run (.consumer false)) ++ List.replicate 10 (.run (.consumer true)) ++
  List.replicate 8 (.run (.consumer false))

def overtakingEvents : List (Event Bool Nat) :=
  ((((program Bool Nat (MAX_SUBQUEUE_SIZE 32)).machine (construct Nat true)).exec
    ((program Bool Nat (MAX_SUBQUEUE_SIZE 32)).machine (construct Nat true)).start overtaking).map
      Prod.fst).getD []

theorem overtaking_run : ∃ state,
    ((program Bool Nat (MAX_SUBQUEUE_SIZE 32)).machine (construct Nat true)).Run overtakingEvents
      state ∧ ∀ thread, state.pc thread = .idle := by
  refine ⟨_, Machine.exec_run ((program Bool Nat (MAX_SUBQUEUE_SIZE 32)).machine
    (construct Nat true)) overtaking rfl, ?_⟩
  intro thread
  cases thread with
  | producer => rfl
  | consumer name => cases name <;> rfl

theorem overtaking_timely : Timely overtakingEvents := .of_check (by decide +kernel)

/-- No assertion fails, no pointer that is followed is null, and every element is moved
from where one was constructed. -/
theorem never_aborts
    (run : ((program Consumer T maxSubqueueSize).machine (construct T allocated)).Run events state)
    (timely : Timely events) (thread : Thread Consumer) : state.pc thread ≠ .aborted := by
  obtain ⟨ghost, _, facts⟩ := run_sound run timely
  exact (facts thread).alive

theorem never_aborts_overtaking : ∃ state,
    ((program Bool Nat (MAX_SUBQUEUE_SIZE 32)).machine (construct Nat true)).Run overtakingEvents
      state ∧ ∀ thread, state.pc thread ≠ .aborted := by
  obtain ⟨state, run, _⟩ := overtaking_run
  exact ⟨state, run, never_aborts run overtaking_timely⟩

/-- A claim starts where the one before has ended, and ends before the tail. -/
theorem claims_follow
    (run : ((program Consumer T maxSubqueueSize).machine (construct T allocated)).Run events state)
    (timely : Timely events) :
    Along (fun earlier event => ∀ consumer index amount returned,
      event = .ran (.consumer consumer) ⟨.claim index amount, returned⟩ →
        index = .ofNat (taken earlier) ∧ 0 < amount.toNat ∧
          taken earlier + amount.toNat ≤ (accepted earlier).length) events := by
  refine run_along nofun (fun {_ state _ _ _ _} run timely taken consumer index amount returned
    claimed => ?_) run timely
  cases claimed
  have accounts := run_accounts run timely (.consumer consumer)
  rw [run_accepted run]
  rcases run_turn run taken with ⟨wrong, _⟩ | ⟨_, _, dequeues⟩
  · cases wrong
  · generalize stands : state.pc (.consumer consumer) = pc at dequeues
    cases dequeues with
    | claim actualCount => exact ⟨accounts.head, accounts.claim _ stands⟩

theorem claims_follow_overtaking :
    claims overtakingEvents = [(false, 0), (true, 1), (true, 2)] ∧
      Along (fun earlier event => ∀ consumer index amount returned,
        event = .ran (.consumer consumer) ⟨.claim index amount, returned⟩ →
          index = .ofNat (taken earlier) ∧ 0 < amount.toNat ∧
            taken earlier + amount.toNat ≤ (accepted earlier).length) overtakingEvents := by
  obtain ⟨state, run, _⟩ := overtaking_run
  exact ⟨by decide +kernel, claims_follow run overtaking_timely⟩

section Ghost

variable {ghost : Ghost Consumer T} {producer : ImplicitProducer T}

omit [DecidableEq Consumer] in
theorem Sound.trail_lt (sound : Sound events ghost producer) {index : Nat}
    (member : index ∈ ghost.trail.map Prod.snd) : index < taken events := by
  by_contra beyond
  have gone := (sound.trailed.gone index).mp member
  rw [(sound.owned.waiting index).mpr (Nat.le_of_not_lt beyond)] at gone
  cases gone

omit [DecidableEq Consumer] in
theorem Sound.select_lt (sound : Sound events ghost producer) {mine : Consumer → Bool}
    {index : Nat} (member : index ∈ select mine ghost.trail) : index < taken events := by
  obtain ⟨step, listed, rfl⟩ := List.mem_map.mp member
  exact sound.trail_lt (List.mem_map_of_mem (List.mem_filter.mp listed).1)

omit [DecidableEq Consumer] in
/-- What the consumers have moved is what their trails pick. -/
theorem Sound.moves_eq (sound : Sound events ghost producer)
    (ordered : taken events ≤ (published events).length) (mine : Consumer → Bool) :
    select mine (moves events) = pick (published events) (select mine ghost.trail) := by
  rw [select_pick sound.trailed.moves mine, Ghost.values]
  exact pick_append fun index member => Nat.lt_of_lt_of_le (sound.select_lt member) ordered

omit [DecidableEq Consumer] in
/-- If all consumers are idle, exactly the claimed elements are gone. -/
theorem Sound.trail_idle (sound : Sound events ghost producer)
    (done : ∀ consumer, (ghost.claim consumer).start = (ghost.claim consumer).stop) (index : Nat) :
    index ∈ ghost.trail.map Prod.snd ↔ index < taken events := by
  refine ⟨sound.trail_lt, fun below => (sound.trailed.gone index).mpr ?_⟩
  cases owner : ghost.owner index with
  | waiting => exact absurd ((sound.owned.waiting index).mp owner) (Nat.not_le_of_lt below)
  | claimed consumer =>
      have within := (sound.owned.claimed consumer index).mp owner
      have start := sound.owned.start_le consumer
      have finished := done consumer
      omega
  | moved | counted => rfl

end Ghost

/-- Of the enqueued elements none is dequeued twice and no other is dequeued. Every
consumer gets its elements in the order in which they were enqueued. When no consumer is
running, the first elements are gone, and none is missing. -/
theorem exactly_once
    (run : ((program Consumer T maxSubqueueSize).machine (construct T allocated)).Run events state)
    (timely : Timely events) :
    ((moves events).map Prod.snd).Subperm (accepted events) ∧
      (∀ consumer, (select (fun other => decide (other = consumer)) (moves events)).Sublist
        (accepted events)) ∧
      ((∀ consumer, state.pc (.consumer consumer) = .idle) →
        ((moves events).map Prod.snd).Perm ((accepted events).take (taken events))) := by
  obtain ⟨ghost, sound, facts⟩ := run_sound run timely
  have ordered := run_taken_le run timely
  have all := sound.moves_eq ordered fun _ => true
  rw [select_all, select_all] at all
  have part : ((accepted events).take (taken events)).Sublist (accepted events) :=
    List.take_sublist ..
  rw [run_accepted run] at part ⊢
  refine ⟨?_, fun consumer => ?_, fun idle => ?_⟩
  · rw [all]
    exact (pick_subperm sound.trailed.once fun _ => sound.trail_lt).trans part.subperm
  · rw [sound.moves_eq ordered]
    refine (pick_sublist ?_ fun index => sound.select_lt).trans part
    refine List.pairwise_map.mpr ((sound.trailed.ordered.filter _).imp_of_mem ?_)
    intro left right first second less
    have one := of_decide_eq_true (List.mem_filter.mp first).2
    have other := of_decide_eq_true (List.mem_filter.mp second).2
    exact less (one.trans other.symm)
  · rw [all]
    refine pick_perm sound.trailed.once (sound.trail_idle fun consumer => ?_)
    have mine := facts (.consumer consumer)
    rw [idle consumer] at mine
    exact mine.stands

theorem exactly_once_overtaking :
    moves overtakingEvents = [(true, 11), (true, 12), (false, 10)] ∧
      ((moves overtakingEvents).map Prod.snd).Perm
        ((accepted overtakingEvents).take (taken overtakingEvents)) := by
  obtain ⟨state, run, idle⟩ := overtaking_run
  exact ⟨by decide +kernel, (exactly_once run overtaking_timely).2.2 fun _ => idle _⟩

omit [DecidableEq Consumer] in
theorem claims_lt (events : List (Event Consumer T)) :
    ∀ claimed ∈ claims events, claimed.2 < taken events := by
  induction events using List.reverseRecOn with
  | nil =>
      intro claimed member
      cases member
  | append_singleton events event ih =>
      intro claimed member
      rw [claims_snoc] at member
      rcases List.mem_append.mp member with before | now
      · have below := ih claimed before
        cases event with
        | called thread request => rwa [taken_called]
        | ran thread output =>
            rw [taken_ran]
            exact Nat.lt_add_right _ below
      · cases event with
        | called thread request => cases now
        | ran thread output =>
            cases thread with
            | producer => cases now
            | consumer name =>
                obtain ⟨index, listed, rfl⟩ := List.mem_map.mp now
                rw [taken_ran]
                exact (List.mem_range'_1.mp listed).2

/-- What a consumer has moved and what is left of its claim. -/
theorem run_moves
    (run : ((program Consumer T maxSubqueueSize).machine (construct T allocated)).Run events state)
    (timely : Timely events) (consumer : Consumer) :
    ∃ left, select (fun other => decide (other = consumer)) (moves events) ++ left =
        pick (accepted events) (select (fun other => decide (other = consumer)) (claims events)) ∧
      (state.pc (.consumer consumer) = .idle → left = []) := by
  obtain ⟨ghost, sound, facts⟩ := run_sound run timely
  have ordered := run_taken_le run timely
  have shares := sound.trailed.shares consumer _ fun _ => decide_eq_true_iff
  refine ⟨pick (published events) (List.range' (ghost.claim consumer).index
    ((ghost.claim consumer).stop - (ghost.claim consumer).index)), ?_, fun idle => ?_⟩
  · rw [sound.moves_eq ordered, ← shares, run_accepted run]
    exact List.filterMap_append.symm
  · have mine := facts (.consumer consumer)
    rw [idle] at mine
    have done : (ghost.claim consumer).start = (ghost.claim consumer).stop := mine.stands
    have start := sound.owned.start_le consumer
    have stop := sound.owned.index_le consumer
    have nothing : (ghost.claim consumer).stop - (ghost.claim consumer).index = 0 := by omega
    rw [nothing]
    rfl

/-- What a consumer has moved and what it still has to move are the elements at the
indices it has claimed. When it is idle, it has moved as many as its calls have
returned. -/
theorem in_turn
    (run : ((program Consumer T maxSubqueueSize).machine (construct T allocated)).Run events state)
    (timely : Timely events) (consumer : Consumer) :
    ∃ left, select (fun other => decide (other = consumer)) (moves events) ++ left =
        pick (accepted events) (select (fun other => decide (other = consumer)) (claims events)) ∧
      (state.pc (.consumer consumer) = .idle → left = [] ∧
        (select (fun other => decide (other = consumer)) (answers events)).sum =
          (select (fun other => decide (other = consumer)) (moves events)).length) := by
  obtain ⟨ghost, _, facts⟩ := run_sound run timely
  have ordered := run_taken_le run timely
  obtain ⟨left, whole, done⟩ := run_moves run timely consumer
  refine ⟨left, whole, fun idle => ⟨done idle, ?_⟩⟩
  have pays := (run_pays run (.consumer consumer)).resolve_left (facts _).alive
  have settled := pays consumer _ rfl fun _ => decide_eq_true_iff
  rw [idle] at settled
  rw [done idle, List.append_nil] at whole
  rw [whole, pick_length fun index member => ?_, ← settled]
  · exact (Nat.zero_add _).symm
  · obtain ⟨claimed, listed, rfl⟩ := List.mem_map.mp member
    have below := claims_lt events claimed (List.mem_filter.mp listed).1
    rw [run_accepted run]
    omega

theorem in_turn_overtaking :
    answers overtakingEvents = [(true, 2), (false, 1)] ∧
      ∃ left, select (fun other => decide (other = true)) (moves overtakingEvents) ++ left =
        pick (accepted overtakingEvents)
          (select (fun other => decide (other = true)) (claims overtakingEvents)) ∧ left = [] := by
  obtain ⟨state, run, idle⟩ := overtaking_run
  obtain ⟨left, whole, done⟩ := in_turn run overtaking_timely true
  exact ⟨by decide +kernel, left, whole, (done (idle _)).1⟩

end DmLockFree.ConcurrentQueue.ImplicitProducer
