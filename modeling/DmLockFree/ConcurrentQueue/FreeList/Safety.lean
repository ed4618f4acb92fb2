import DmLockFree.ConcurrentQueue.FreeList.Run
import DmLockFree.Library.History

/-! Any number of threads on a `FreeList`: a node is in the hands of one caller or
on its way back into the list. -/

set_option autoImplicit false

namespace DmLockFree.ConcurrentQueue.FreeList

open Library Program

variable {Thread Node : Type} [DecidableEq Node]

abbrev Event (Thread Node : Type) := Threads.Event Thread (Call Node) (Output Node)

abbrev State (Thread Node : Type) := Threads Thread (FreeList Node) (Pc Node)

/-- Whether a node is in the hands of the callers, who may then add it. -/
def keep (held : Node → Bool) : Event Thread Node → Node → Bool
  | .called _ (.add node) => Function.update held node false
  | .called _ .tryGet => held
  | .ran _ output => fun node => held node || output.taken == some node

/-- A node is held until it is added, and again when `try_get` has returned it. -/
def held (events : List (Event Thread Node)) : Node → Bool :=
  events.foldl keep fun _ => true

/-- Only nodes that are held are added. -/
def Disciplined (events : List (Event Thread Node)) : Prop :=
  Along (fun earlier event => ∀ thread node, event = .called thread (.add node) →
    held earlier node = true) events

theorem Disciplined.of_check {events : List (Event Thread Node)}
    (checked : alongAfter (fun earlier event =>
      match event with
      | .called _ (.add node) => held earlier node
      | _ => true) [] events = true) : Disciplined events := by
  refine Along.of_check (fun earlier event mine => ?_) checked
  intro thread node same
  subst same
  exact mine

@[simp] theorem held_snoc (events : List (Event Thread Node)) (event : Event Thread Node) :
    held (events ++ [event]) = keep (held events) event := by
  simp [held]

theorem keep_ran {held : Node → Bool} {thread : Thread} {output : Output Node} {node : Node} :
    keep held (.ran thread output) node = true ↔
      held node = true ∨ output.taken = some node := by
  simp [keep]

section Run

variable [DecidableEq Thread] {events : List (Event Thread Node)} {state : State Thread Node}
  {ghost : Ghost Thread Node} {list after : FreeList Node} {thread : Thread} {pc next : Pc Node}
  {output : Output Node}

/-- The list of a history that keeps the discipline. -/
def Good (events : List (Event Thread Node)) (ghost : Ghost Thread Node)
    (list : FreeList Node) : Prop :=
  Disciplined events → Sound ghost list ∧ ∀ node, held events node = true ↔ ghost.place node = .held

def Knowing (thread : Thread) (events : List (Event Thread Node)) (ghost : Ghost Thread Node)
    (list : FreeList Node) (pc : Pc Node) : Prop :=
  Disciplined events → Facts thread ghost list pc

theorem advances_moves [Fintype Thread] (few : Fintype.card Thread + 1 < 2 ^ 31)
    (sound : Sound ghost list) (facts : Facts thread ghost list pc)
    (taken : Advances list pc after next output) :
    ∃ later, Moves thread ghost later list after next output.taken := by
  cases taken with
  | addLinks node last => exact Moves.addLinks sound facts last
  | addLeaves node used => exact Moves.addLeaves sound facts used
  | knowingLoadHead node resume => exact ⟨ghost, .stay sound facts rfl rfl trivial⟩
  | knowingStoreNext node head resume => exact Moves.knowingStoreNext sound facts
  | knowingStoreRefs node head resume => exact Moves.knowingStoreRefs sound facts
  | knowingLinks node resume =>
      rw [taken_continue]
      exact Moves.knowingLinks sound facts
  | knowingMisses node head resume changed => exact ⟨ghost, .stay sound facts rfl rfl trivial⟩
  | knowingRetries node head resume last => exact Moves.knowingRetries sound facts last
  | knowingLeaves node head resume used =>
      rw [taken_continue]
      exact Moves.knowingLeaves sound facts used
  | getLoadHead =>
      rw [taken_loop]
      exact ⟨ghost, .stay sound facts (loop_uses _) (loop_works _) (loop_knows _ _)⟩
  | getUnreferenced head zero => exact ⟨ghost, .stay sound facts rfl rfl trivial⟩
  | getLoadRefs head used => exact ⟨ghost, .stay sound facts rfl rfl used⟩
  | getRefers head => exact Moves.getRefers few sound facts
  | getMissesRefs head refs changed => exact ⟨ghost, .stay sound facts rfl rfl trivial⟩
  | getLoadNext head => exact ⟨ghost, .stay sound facts rfl rfl rfl⟩
  | getUnlinks head follower top => exact Moves.getUnlinks sound facts top
  | getMissesHead head follower changed => exact ⟨ghost, .stay sound facts rfl rfl trivial⟩
  | getAssert head clear => exact ⟨ghost, .stay sound facts rfl rfl trivial⟩
  | getAborts head flagged =>
      have counted := sound.busy (facts.place_eq rfl)
      exact absurd (counted.flag_eq.mpr rfl) flagged
  | getSubRefs head => exact Moves.getSubRefs sound facts
  | getLinks prevHead head last => exact Moves.getLinks sound facts last
  | getReleases prevHead head more =>
      rw [taken_loop]
      exact Moves.getReleases sound facts more

omit [DecidableEq Thread] in
/-- Without the discipline nothing is promised. -/
theorem preserves_of_disciplined {event : Event Thread Node}
    (kept : Disciplined (events ++ [event]) → ∃ later,
      Preserves Good Knowing thread events event ghost later list after pc) :
    ∃ later, Preserves Good Knowing thread events event ghost later list after pc := by
  by_cases disciplined : Disciplined (events ++ [event])
  · exact kept disciplined
  · exact ⟨ghost, fun broken => absurd broken disciplined, fun broken => absurd broken disciplined,
      fun _ _ _ _ broken => absurd broken disciplined⟩

omit [DecidableEq Thread] in
theorem call_preserves (good : Good events ghost list) (knowing : Knowing thread events ghost list pc)
    {request : Call Node} (entered : enter thread pc request = some next) :
    ∃ later, Preserves Good Knowing thread events (.called thread request) ghost later list list
      next := by
  apply preserves_of_disciplined
  intro disciplined
  obtain ⟨sound, hands⟩ := good disciplined.init
  have facts := knowing disciplined.init
  cases pc with
  | idle =>
      cases request with
      | tryGet =>
          cases entered
          refine ⟨ghost, fun _ => ⟨sound, ?_⟩, fun _ => ?_, fun other _ pc known _ => ?_⟩
          · rw [held_snoc]
            exact hands
          · exact ⟨facts.uses, facts.works, trivial⟩
          · exact known disciplined.init
      | add node =>
          cases entered
          have mine := (hands node).mp (disciplined.last thread node rfl)
          obtain ⟨kept, own, others⟩ := Moves.call sound facts mine
          refine ⟨_, fun _ => ⟨kept, fun other => ?_⟩, fun _ => own,
            fun other apart pc known _ => others other apart pc (known disciplined.init)⟩
          rw [held_snoc]
          by_cases same : other = node
          · subst same
            rw [put_place_self]
            simp [keep]
          · rw [put_place_of_ne same, ← hands]
            simp [keep, Function.update_of_ne same]
  | _ => cases request <;> cases entered

theorem advance_preserves [Fintype Thread] (few : Fintype.card Thread + 1 < 2 ^ 31)
    (good : Good events ghost list) (knowing : Knowing thread events ghost list pc)
    (taken : advance list pc = some (after, next, output)) :
    ∃ later, Preserves Good Knowing thread events (.ran thread output) ghost later list after
      next := by
  apply preserves_of_disciplined
  intro disciplined
  obtain ⟨sound, hands⟩ := good disciplined.init
  obtain ⟨later, moves⟩ := advances_moves few sound (knowing disciplined.init) (advances taken)
  refine ⟨later, fun _ => ⟨moves.sound, fun node => ?_⟩, fun _ => moves.own,
    fun other apart pc known _ => moves.others other apart pc (known disciplined.init)⟩
  rw [held_snoc, keep_ran, hands, moves.held]

theorem run_sound [Fintype Thread] (few : Fintype.card Thread + 1 < 2 ^ 31)
    (run : ((program Thread Node).machine (construct Node)).Run events state) :
    ∃ ghost, Good events ghost state.shared ∧
      ∀ thread, Knowing thread events ghost state.shared (state.pc thread) := by
  have start : Good [] (Ghost.start : Ghost Thread Node) (construct Node) :=
    fun _ => ⟨construct_sound, fun node => by simp [held, Ghost.start]⟩
  exact run_invariant Good Knowing start (fun thread _ => construct_facts thread)
    (fun _ good knowing entered => call_preserves good knowing entered)
    (fun _ good knowing taken => advance_preserves few good knowing taken) run

omit [DecidableEq Thread] in
theorem taken_works {node : Node} (taken : Advances list pc after next output)
    (hands : output.taken = some node) : pc.works = some (node, .taken) := by
  cases taken with
  | getSubRefs head =>
      cases hands
      rfl
  | knowingLinks | knowingLeaves =>
      rw [taken_continue] at hands
      cases hands
  | getLoadHead | getReleases =>
      rw [taken_loop] at hands
      cases hands
  | _ => cases hands

theorem taken_unheld [Fintype Thread] (few : Fintype.card Thread + 1 < 2 ^ 31)
    (run : ((program Thread Node).machine (construct Node)).Run events state)
    (disciplined : Disciplined events)
    (taken : advance state.shared (state.pc thread) = some (after, next, output)) {node : Node}
    (hands : output.taken = some node) : held events node = false := by
  obtain ⟨ghost, good, knowing⟩ := run_sound few run
  obtain ⟨_, places⟩ := good disciplined
  have works := taken_works (advances taken) hands
  have place := (knowing thread disciplined).place_eq works
  rw [← Bool.not_eq_true, places, place]
  exact nofun

/-- No thread fails the assertion of `try_get`, and a node that `try_get` returns is
in nobody's hands: it has been added since it was last handed out. -/
theorem handed_out_once [Fintype Thread] (few : Fintype.card Thread + 1 < 2 ^ 31)
    (run : ((program Thread Node).machine (construct Node)).Run events state)
    (disciplined : Disciplined events) :
    (∀ thread, state.pc thread ≠ .aborted) ∧
      Along (fun earlier event => ∀ node, event.output.bind Output.taken = some node →
        held earlier node = false) events := by
  constructor
  · intro thread aborted
    obtain ⟨ghost, _, knowing⟩ := run_sound few run
    have facts := knowing thread disciplined
    rw [aborted] at facts
    exact facts.knows
  · induction run with
    | refl => exact .nil
    | @snoc state after events label event path taken ih =>
        refine (ih disciplined.init).snoc fun node hands => ?_
        cases label with
        | call thread request =>
            obtain ⟨_, _, same⟩ := Option.map_eq_some_iff.mp taken
            cases same
            cases hands
        | run thread =>
            obtain ⟨⟨_, _, output⟩, advanced, same⟩ := Option.map_eq_some_iff.mp taken
            cases same
            exact taken_unheld few path disciplined.init advanced hands

/-- Two threads and one node. While the first still refers to the node, the second
takes it and adds it again; the first then links it in, and has itself nothing. -/
def handover : List (Threads.Label Bool (Call Bool)) :=
  .call false (.add false) :: List.replicate 5 (.run false) ++
  .call false .tryGet :: List.replicate 4 (.run false) ++
  .call true .tryGet :: List.replicate 7 (.run true) ++
  .call true (.add false) :: [.run true] ++ List.replicate 6 (.run false) ++
  .call true .tryGet :: List.replicate 7 (.run true)

def handoverEvents : List (Event Bool Bool) :=
  ((((program Bool Bool).machine (construct Bool)).exec
    ((program Bool Bool).machine (construct Bool)).start handover).map Prod.fst).getD []

theorem handover_run : ∃ state,
    ((program Bool Bool).machine (construct Bool)).Run handoverEvents state ∧
      ∀ thread, state.pc thread = .idle := by
  refine ⟨_, Machine.exec_run ((program Bool Bool).machine (construct Bool)) handover rfl, ?_⟩
  intro thread
  cases thread <;> rfl

theorem handover_disciplined : Disciplined handoverEvents :=
  .of_check (by decide +kernel)

theorem handed_out_once_handover :
    handoverEvents.filterMap (fun event => event.output.bind Output.taken) = [false, false] ∧
      Along (fun earlier event => ∀ node, event.output.bind Output.taken = some node →
        held earlier node = false) handoverEvents := by
  obtain ⟨state, run, _⟩ := handover_run
  exact ⟨by decide +kernel, (handed_out_once (by decide) run handover_disciplined).2⟩

/-- Between calls the list holds exactly the nodes that were added and not handed
out again, each of them once and referred to by the list alone. -/
theorem quiescent [Fintype Thread] (few : Fintype.card Thread + 1 < 2 ^ 31)
    (run : ((program Thread Node).machine (construct Node)).Run events state)
    (disciplined : Disciplined events) (idle : ∀ thread, state.pc thread = .idle) :
    ∃ nodes, Chained state.shared.freeListNext state.shared.freeListHead nodes ∧ nodes.Nodup ∧
      ∀ node, (node ∈ nodes ↔ held events node = false) ∧
        state.shared.freeListRefs node = if held events node then 0 else 1 := by
  obtain ⟨ghost, good, knowing⟩ := run_sound few run
  obtain ⟨sound, places⟩ := good disciplined
  refine ⟨ghost.stack, sound.chained, sound.nodup, fun node => ?_⟩
  have unused : ghost.users node = ∅ := by
    refine Finset.eq_empty_of_forall_notMem fun thread => ?_
    exact (knowing thread disciplined).unused (by rw [idle thread]; rfl)
  have counted := sound.counted node
  rw [← sound.listed]
  cases place : ghost.place node with
  | held =>
      rw [place, unused] at counted
      rw [(places node).mpr place]
      exact ⟨by simp, (counted.eq_iff .zero).mpr ⟨rfl, rfl⟩⟩
  | listed =>
      rw [place, unused] at counted
      have gone : held events node = false := by
        rw [← Bool.not_eq_true, places, place]
        exact nofun
      rw [gone]
      exact ⟨by simp, (counted.eq_iff .one).mpr ⟨rfl, rfl⟩⟩
  | pending => exact absurd unused (sound.pending node place)
  | busy thread phase =>
      have works := ((knowing thread disciplined).works node phase).mp place
      rw [idle thread] at works
      cases works

theorem quiescent_handover : ∃ state,
    ((program Bool Bool).machine (construct Bool)).Run handoverEvents state ∧
      ∃ nodes, Chained state.shared.freeListNext state.shared.freeListHead nodes ∧
        nodes.Nodup ∧ ∀ node, (node ∈ nodes ↔ held handoverEvents node = false) ∧
          state.shared.freeListRefs node = if held handoverEvents node then 0 else 1 := by
  obtain ⟨state, run, idle⟩ := handover_run
  exact ⟨state, run, quiescent (by decide) run handover_disciplined idle⟩

end Run

end DmLockFree.ConcurrentQueue.FreeList
