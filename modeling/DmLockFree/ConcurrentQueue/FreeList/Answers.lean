import DmLockFree.ConcurrentQueue.FreeList.Safety
import DmLockFree.Library.Solo

/-! What the answers of `try_get` mean, and calls that nobody interrupts. -/

set_option autoImplicit false

namespace DmLockFree.ConcurrentQueue.FreeList

open Library Program

variable {Thread Node : Type} [DecidableEq Node] [DecidableEq Thread]
  {events : List (Event Thread Node)} {event : Event Thread Node} {state after : State Thread Node}
  {label : Threads.Label Thread (Call Node)} {thread : Thread} {list later : FreeList Node}
  {pc next : Pc Node} {output : Output Node} {node : Node}

/-- The head with which the loop of `try_get` will go on. -/
def Pc.seen : Pc Node → Option (Option Node)
  | .knowingLoadHead _ (.getting head) | .knowingStoreNext _ _ (.getting head)
  | .knowingStoreRefs _ _ (.getting head) | .knowingExchange _ _ (.getting head)
  | .knowingGiveBack _ _ (.getting head) | .getRelease _ head => some head
  | _ => none

omit [DecidableEq Node] [DecidableEq Thread] in
theorem loop_seen (head : Option Node) : (loop head).1.seen = none := by cases head <;> rfl

omit [DecidableEq Node] [DecidableEq Thread] in
theorem continue_seen (resume : Resume Node) : resume.continue.1.seen = none := by
  cases resume with
  | adding => rfl
  | getting head => exact loop_seen head

omit [DecidableEq Thread] in
theorem seen_origin (taken : Advances list pc later next output) (seen : next.seen = some none) :
    pc.seen = some none ∨ list.freeListHead = none := by
  cases taken with
  | knowingLoadHead node resume | knowingStoreNext node head resume
  | knowingStoreRefs node head resume | knowingMisses node head resume
  | knowingRetries node head resume =>
      cases resume with
      | adding => cases seen
      | getting head => exact .inl seen
  | getLinks prevHead head last => exact .inl seen
  | getMissesHead head follower changed => exact .inr (Option.some.inj seen)
  | knowingLinks | knowingLeaves =>
      rw [continue_seen] at seen
      cases seen
  | getLoadHead | getReleases =>
      rw [loop_seen] at seen
      cases seen
  | _ => cases seen

omit [DecidableEq Node] [DecidableEq Thread] in
theorem loop_null {head : Option Node} (null : (loop head).2 = some (.got none)) : head = none := by
  cases head with
  | none => rfl
  | some node => cases null

omit [DecidableEq Thread] in
theorem null_origin (taken : Advances list pc later next output)
    (null : output.returned = some (.got none)) :
    pc.seen = some none ∨ list.freeListHead = none := by
  cases taken with
  | knowingLinks node resume | knowingLeaves node head resume =>
      cases resume with
      | adding => cases null
      | getting head =>
          rw [loop_null null]
          exact .inl rfl
  | getLoadHead => exact .inr (loop_null null)
  | getReleases prevHead head more =>
      rw [loop_null null]
      exact .inl rfl
  | _ => cases null

/-- Since its last call the thread has found the list empty. -/
def Emptied (thread : Thread) (events : List (Event Thread Node)) : Prop :=
  Witnessed (program Thread Node) (construct Node) thread
    (fun list _ => list.freeListHead = none) events

theorem run_seen (run : ((program Thread Node).machine (construct Node)).Run events state) :
    ∀ thread, (state.pc thread).seen = some none → Emptied thread events := by
  induction run with
  | refl => exact fun _ seen => nomatch seen
  | @snoc state after events label event path taken ih =>
      intro thread seen
      by_cases own : event.thread = thread
      · cases label with
        | call other request =>
            obtain ⟨pc, entered, same⟩ := Option.map_eq_some_iff.mp taken
            cases same
            have same : other = thread := own
            subst same
            rw [Threads.moved_pc_self] at seen
            cases point : state.pc other <;> cases request <;> rw [point] at entered <;>
              cases entered <;> cases seen
        | run other =>
            obtain ⟨⟨shared, pc, output⟩, advanced, same⟩ := Option.map_eq_some_iff.mp taken
            cases same
            have same : other = thread := own
            subst same
            rw [Threads.moved_pc_self] at seen
            rcases seen_origin (advances advanced) seen with before | now
            · exact (ih other before).snoc nofun
            · exact .now path now nofun
      · rw [step_pc_other taken own] at seen
        refine (ih thread seen).snoc fun request called => own ?_
        rw [called]
        rfl

/-- A node that no caller holds while the list is empty is in the hands of a running
call. -/
theorem missing_busy [Fintype Thread] (few : Fintype.card Thread + 1 < 2 ^ 31)
    (run : ((program Thread Node).machine (construct Node)).Run events state)
    (disciplined : Disciplined events) (empty : state.shared.freeListHead = none)
    (missing : held events node = false) :
    ∃ other, (state.pc other).uses = some node ∨
      ∃ phase, (state.pc other).works = some (node, phase) := by
  obtain ⟨ghost, good, knowing⟩ := run_sound few run
  obtain ⟨sound, places⟩ := good disciplined
  have chained := sound.chained
  rw [empty] at chained
  cases place : ghost.place node with
  | held =>
      rw [(places node).mpr place] at missing
      cases missing
  | listed =>
      rw [sound.listed, chained.eq_nil] at place
      cases place
  | pending =>
      obtain ⟨other, user⟩ := Finset.nonempty_iff_ne_empty.mpr (sound.pending node place)
      exact ⟨other, .inl (((knowing other disciplined).uses node).mp user)⟩
  | busy other phase =>
      exact ⟨other, .inr ⟨phase, ((knowing other disciplined).works node phase).mp place⟩⟩

/-- `try_get` returns null only if at some moment of the call the list was empty;
every node that nobody held then was in the hands of a running call. -/
theorem null_honest [Fintype Thread] (few : Fintype.card Thread + 1 < 2 ^ 31)
    (run : ((program Thread Node).machine (construct Node)).Run (events ++ [.ran thread output])
      state)
    (disciplined : Disciplined events) (null : output.returned = some (.got none)) :
    ∃ earlier event rest middle, events ++ [.ran thread output] = earlier ++ event :: rest ∧
      ((program Thread Node).machine (construct Node)).Run earlier middle ∧
      middle.shared.freeListHead = none ∧ (∀ request, .called thread request ∉ event :: rest) ∧
      ∀ node, held earlier node = false → ∃ other, (middle.pc other).uses = some node ∨
        ∃ phase, (middle.pc other).works = some (node, phase) := by
  obtain ⟨before, path, last⟩ := run.split
  have emptied : Emptied thread (events ++ [.ran thread output]) := by
    obtain ⟨label, taken⟩ := Machine.path_singleton last
    cases label with
    | call other request =>
        obtain ⟨_, _, same⟩ := Option.map_eq_some_iff.mp taken
        cases same
    | run other =>
        obtain ⟨⟨shared, pc, output⟩, advanced, same⟩ := Option.map_eq_some_iff.mp taken
        cases same
        rcases null_origin (advances advanced) null with before | now
        · exact (run_seen path thread before).snoc nofun
        · exact .now path now nofun
  obtain ⟨earlier, event, rest, middle, whole, reached, empty, silent⟩ := emptied
  have all : Disciplined (events ++ [.ran thread output]) := disciplined.snoc nofun
  rw [whole] at all
  exact ⟨earlier, event, rest, middle, whole, reached, empty, silent,
    fun node missing => missing_busy few reached all.before empty missing⟩

theorem null_honest_handover : ∃ events output state, output.returned = some (.got none) ∧
    ((program Bool Bool).machine (construct Bool)).Run (events ++ [.ran false output]) state ∧
      ∃ earlier event rest middle, events ++ [.ran false output] = earlier ++ event :: rest ∧
        ((program Bool Bool).machine (construct Bool)).Run earlier middle ∧
        middle.shared.freeListHead = none ∧ (∀ request, .called false request ∉ event :: rest) ∧
        ∀ node, held earlier node = false → ∃ other, (middle.pc other).uses = some node ∨
          ∃ phase, (middle.pc other).works = some (node, phase) := by
  obtain ⟨last, run, _⟩ := handover_run
  have split : handoverEvents = (handoverEvents.take 26 ++
      [.ran false ⟨.exchangeHead none true, some (.got none)⟩]) ++ handoverEvents.drop 27 := rfl
  have disciplined := handover_disciplined
  rw [split] at run disciplined
  obtain ⟨state, path, _⟩ := run.split
  exact ⟨_, _, state, rfl, path, null_honest (by decide) path disciplined.before.init rfl⟩

/-- What a call of a thread that runs alone does to the list. -/
structure Pops (nodes : List Node) (after : FreeList Node) (output : Output Node) : Prop where
  returned : output.returned = some (.got nodes.head?)
  chained : Chained after.freeListNext after.freeListHead nodes.tail

structure Pushes (nodes : List Node) (node : Node) (after : FreeList Node)
    (output : Output Node) : Prop where
  returned : output.returned = some .added
  chained : Chained after.freeListNext after.freeListHead (node :: nodes)

omit [DecidableEq Thread] in
theorem top_pops {rest : List Node} (top : list.freeListHead = some node)
    (linked : Chained list.freeListNext (list.freeListNext node) rest)
    (used : list.freeListRefs node &&& REFS_MASK ≠ 0)
    (clear : (list.freeListRefs node + 1) &&& SHOULD_BE_ON_FREELIST = 0) :
    (program Thread Node).EndsWithin (Pops (node :: rest)) 7 list .getLoadHead := by
  have first : advance list .getLoadHead =
      some (list, .getLoadRefs node, ⟨.loadHead (some node), none⟩) := by
    simp only [advance, top, loop]
  have second : advance list (.getLoadRefs node) =
      some (list, .getExchangeRefs node (list.freeListRefs node), ⟨.loadRefs node, none⟩) := by
    simp only [advance, if_neg used]
  let referred := list.setRefs node (list.freeListRefs node + 1)
  have third : advance list (.getExchangeRefs node (list.freeListRefs node)) =
      some (referred, .getLoadNext node, ⟨.exchangeRefs node true, none⟩) := by
    simp only [advance, if_true, referred]
  have fifth : advance referred (.getExchangeHead node (referred.freeListNext node)) =
      some (referred.setHead (referred.freeListNext node), .getAssert node,
        ⟨.exchangeHead (some node) true, none⟩) := if_pos top
  have sixth : advance (referred.setHead (referred.freeListNext node)) (.getAssert node) =
      some (referred.setHead (referred.freeListNext node), .getSubRefs node,
        ⟨.loadRefs node, none⟩) := by
    refine if_pos ?_
    simpa [referred, setHead, setRefs] using clear
  refine .step first (.step second (.step third (.step rfl (.step fifth (.step sixth
    (.last rfl ?_))))))
  exact ⟨rfl, linked⟩

/-- In a list that other threads may be at work on, a `try_get` that nobody
interrupts takes the node on top; it returns null only if there is none. -/
theorem tryGet_alone [Fintype Thread] (few : Fintype.card Thread + 2 < 2 ^ 31)
    (run : ((program Thread Node).machine (construct Node)).Run events state)
    (disciplined : Disciplined events) :
    ∃ nodes, Chained state.shared.freeListNext state.shared.freeListHead nodes ∧
      (program Thread Node).EndsWithin (Pops nodes) 7 state.shared .getLoadHead := by
  obtain ⟨ghost, good, _⟩ := run_sound (by omega) run
  obtain ⟨sound, _⟩ := good disciplined
  have chained := sound.chained
  refine ⟨ghost.stack, chained, ?_⟩
  cases top : state.shared.freeListHead with
  | none =>
      rw [top] at chained
      have first : advance state.shared .getLoadHead =
          some (state.shared, .idle, ⟨.loadHead none, some (.got none)⟩) := by
        simp only [advance, top, loop]
      refine .last first ?_
      rw [chained.eq_nil]
      exact ⟨rfl, by rw [top]; exact .nil⟩
  | some node =>
      rw [top] at chained
      obtain ⟨rest, stack, linked⟩ := chained.eq_cons
      have place : ghost.place node = .listed := by
        rw [sound.listed, stack]
        exact List.mem_cons_self
      have counted := sound.counted node
      rw [place] at counted
      have most := Finset.card_le_univ (ghost.users node)
      have own := (Place.listed : Place Thread).own_le
      rw [stack]
      apply top_pops top linked
      · intro zero
        have none := counted.mask.mp zero
        rw [Place.own] at none
        omega
      · exact (counted.up (by omega)).flag_eq.mpr rfl

theorem tryGet_alone_handover : ∃ state,
    ((program Bool Bool).machine (construct Bool)).Run handoverEvents state ∧
      ∃ nodes, Chained state.shared.freeListNext state.shared.freeListHead nodes ∧
        (program Bool Bool).EndsWithin (Pops nodes) 7 state.shared .getLoadHead := by
  obtain ⟨state, run, _⟩ := handover_run
  exact ⟨state, run, tryGet_alone (by decide) run handover_disciplined⟩

/-- The list once `add_knowing_refcount_is_zero` has linked the node. -/
def linked (list : FreeList Node) (node : Node) : FreeList Node :=
  ((list.setNext node list.freeListHead).setRefs node 1).setHead (some node)

omit [DecidableEq Thread] in
theorem linked_chained {nodes : List Node}
    (chained : Chained list.freeListNext list.freeListHead nodes) (unlisted : node ∉ nodes) :
    Chained (linked list node).freeListNext (linked list node).freeListHead (node :: nodes) :=
  Chained.push (chained.update unlisted _) (Function.update_self ..)

theorem knowingExchange_links (list : FreeList Node) (node : Node) (resume : Resume Node) :
    advance ((list.setNext node list.freeListHead).setRefs node 1)
      (.knowingExchange node list.freeListHead resume) =
        some (linked list node, resume.continue.1,
          ⟨.exchangeHead list.freeListHead true, resume.continue.2⟩) :=
  if_pos rfl

omit [DecidableEq Thread] in
theorem unused_pushes {nodes : List Node}
    (chained : Chained list.freeListNext list.freeListHead nodes) (unlisted : node ∉ nodes)
    (zero : list.freeListRefs node = 0) :
    (program Thread Node).EndsWithin (Pushes nodes node) 5 list (.addRefs node) := by
  let flagged := list.setRefs node (list.freeListRefs node + SHOULD_BE_ON_FREELIST)
  have first : advance list (.addRefs node) =
      some (flagged, .knowingLoadHead node .adding,
        ⟨.addRefs node SHOULD_BE_ON_FREELIST, none⟩) := by
    simp only [advance, if_pos zero, flagged]
  have second : advance flagged (.knowingLoadHead node .adding) =
      some (flagged, .knowingStoreNext node flagged.freeListHead .adding,
        ⟨.loadHead flagged.freeListHead, none⟩) := rfl
  have third : advance flagged (.knowingStoreNext node flagged.freeListHead .adding) =
      some (flagged.setNext node flagged.freeListHead,
        .knowingStoreRefs node flagged.freeListHead .adding, ⟨.storeNext node, none⟩) := rfl
  have fourth : advance (flagged.setNext node flagged.freeListHead)
      (.knowingStoreRefs node flagged.freeListHead .adding) =
      some ((flagged.setNext node flagged.freeListHead).setRefs node 1,
        .knowingExchange node flagged.freeListHead .adding, ⟨.storeRefs node, none⟩) := rfl
  have fifth := knowingExchange_links flagged node .adding
  have same : Chained flagged.freeListNext flagged.freeListHead nodes := chained
  refine .step first (.step second (.step third (.step fourth (.last fifth ?_))))
  exact ⟨rfl, linked_chained same unlisted⟩

/-- The threads at these points run one after the other, each until it no longer
refers to the node; the node is then on top of the list. -/
def LinksInTurn (Thread : Type) (nodes : List Node) (node : Node) :
    List (Pc Node) → FreeList Node → Prop
  | [], list => Chained list.freeListNext list.freeListHead (node :: nodes)
  | pc :: rest, list =>
      (program Thread Node).ComesTo (fun after next => next.uses = none ∧ next.works = none ∧
        LinksInTurn Thread nodes node rest after) 7 list pc

section Turns

variable {post : FreeList Node → Pc Node → Prop} {nodes : List Node} {head : Option Node}

omit [DecidableEq Thread] in
/-- Whoever refers to a node that is not on the list comes to give it up. -/
theorem comes_to_release (uses : pc.uses = some node) (works : pc.works = none)
    (knows : list.freeListHead ≠ some node)
    (rest : ∀ head, (program Thread Node).ComesTo post 5 list (.getRelease node head)) :
    (program Thread Node).ComesTo post 7 list pc := by
  have exchange : ∀ follower,
      (program Thread Node).ComesTo post 6 list (.getExchangeHead node follower) := by
    intro follower
    have taken : advance list (.getExchangeHead node follower) =
        some (list, .getRelease node list.freeListHead,
          ⟨.exchangeHead list.freeListHead false, none⟩) := if_neg knows
    exact .step taken (rest _)
  cases pc with
  | getLoadNext head =>
      cases uses
      exact .step rfl (exchange _)
  | getExchangeHead head follower =>
      cases uses
      exact (exchange follower).mono 1
  | getRelease prevHead head =>
      cases uses
      exact (rest head).mono 2
  | getAssert | getSubRefs => cases works
  | _ => cases uses

omit [DecidableEq Thread] in
theorem release_links (chained : Chained list.freeListNext list.freeListHead nodes)
    (unlisted : node ∉ nodes) (last : list.freeListRefs node = SHOULD_BE_ON_FREELIST + 1) :
    (program Thread Node).ComesTo (fun after next => next.uses = none ∧ next.works = none ∧
      Chained after.freeListNext after.freeListHead (node :: nodes)) 5 list
        (.getRelease node head) := by
  let released := list.setRefs node (list.freeListRefs node - 1)
  have first : advance list (.getRelease node head) =
      some (released, .knowingLoadHead node (.getting head), ⟨.subRefs node 1, none⟩) := by
    simp only [advance, if_pos last, released]
  have fifth := knowingExchange_links released node (.getting head)
  have same : Chained released.freeListNext released.freeListHead nodes := chained
  refine .step first (.step rfl (.step rfl (.step rfl (.step fifth (.here ?_)))))
  exact ⟨loop_uses head, loop_works head, linked_chained same unlisted⟩

omit [DecidableEq Thread] in
theorem release_leaves (more : list.freeListRefs node ≠ SHOULD_BE_ON_FREELIST + 1)
    (good : post (list.setRefs node (list.freeListRefs node - 1)) (loop head).1) :
    (program Thread Node).ComesTo post 5 list (.getRelease node head) := by
  have taken : advance list (.getRelease node head) =
      some (list.setRefs node (list.freeListRefs node - 1), (loop head).1,
        ⟨.subRefs node 1, (loop head).2⟩) := by
    simp only [advance, if_neg more]
  exact .step taken (.here good)

omit [DecidableEq Node] [DecidableEq Thread] in
theorem uses_works {other : Node} {phase : Phase} (uses : pc.uses = some node)
    (works : pc.works = some (other, phase)) : other = node := by
  cases pc with
  | getAssert head | getSubRefs head =>
      cases uses
      cases works
      rfl
  | getLoadNext | getExchangeHead | getRelease => cases works
  | _ => cases uses

omit [DecidableEq Thread] in
/-- The count falls with every thread that gives the node up, and the last one finds
the flag alone. -/
theorem links_in_turn {pcs : List (Pc Node)} (shared : pcs ≠ [])
    (users : ∀ pc ∈ pcs, pc.uses = some node ∧ pc.works = none)
    (chained : Chained list.freeListNext list.freeListHead nodes) (unlisted : node ∉ nodes)
    (counted : Counted (list.freeListRefs node) true pcs.length) :
    LinksInTurn Thread nodes node pcs list := by
  induction pcs generalizing list with
  | nil => exact absurd rfl shared
  | cons pc rest ih =>
      obtain ⟨uses, works⟩ := users pc List.mem_cons_self
      have off : list.freeListHead ≠ some node := by
        intro top
        rw [top] at chained
        obtain ⟨below, rfl, _⟩ := chained.eq_cons
        exact unlisted List.mem_cons_self
      refine comes_to_release uses works off fun head => ?_
      cases rest with
      | nil =>
          have last := (counted.eq_iff Counted.one.raise).mpr ⟨rfl, rfl⟩
          exact release_links chained unlisted last
      | cons second others =>
          have more : list.freeListRefs node ≠ SHOULD_BE_ON_FREELIST + 1 := by
            intro last
            have one := ((counted.eq_iff Counted.one.raise).mp last).2
            simp at one
          refine release_leaves more ⟨loop_uses head, loop_works head, ?_⟩
          refine ih (List.cons_ne_nil second others)
            (fun other member => users other (List.mem_cons_of_mem pc member)) chained ?_
          rw [setRefs_freeListRefs]
          exact counted.down

end Turns

/-- The threads that refer to the node. -/
def referrers [Fintype Thread] (state : State Thread Node) (node : Node) : Finset Thread :=
  Finset.univ.filter fun thread => (state.pc thread).uses = some node

/-- The call of `add` ends, with the flag above the count of the threads that refer to
the node. If these run on, in whatever order, the last of them links the node. -/
structure Leaves [Fintype Thread] (state : State Thread Node) (nodes : List Node) (node : Node)
    (after : FreeList Node) (output : Output Node) : Prop where
  returned : output.returned = some .added
  chained : Chained after.freeListNext after.freeListHead nodes
  flagged : after.freeListRefs node =
    UInt32.ofNat (referrers state node).card + SHOULD_BE_ON_FREELIST
  turns : ∀ order : List Thread, order.Nodup →
    (∀ thread, thread ∈ order ↔ thread ∈ referrers state node) →
      LinksInTurn Thread nodes node (order.map state.pc) after

/-- An `add` that nobody interrupts puts the node on top of the list, or leaves that
to the threads that still refer to it. -/
theorem add_alone [Fintype Thread] (few : Fintype.card Thread + 1 < 2 ^ 31)
    (run : ((program Thread Node).machine (construct Node)).Run events state)
    (disciplined : Disciplined events) (mine : held events node = true) :
    ∃ nodes, Chained state.shared.freeListNext state.shared.freeListHead nodes ∧ node ∉ nodes ∧
      (referrers state node = ∅ →
        (program Thread Node).EndsWithin (Pushes nodes node) 5 state.shared (.addRefs node)) ∧
      (referrers state node ≠ ∅ →
        (program Thread Node).EndsWithin (Leaves state nodes node) 1 state.shared
          (.addRefs node)) := by
  obtain ⟨ghost, good, knowing⟩ := run_sound few run
  obtain ⟨sound, places⟩ := good disciplined
  have place := (places node).mp mine
  have unlisted : node ∉ ghost.stack := by
    rw [← sound.listed, place]
    exact nofun
  have users : ghost.users node = referrers state node := by
    ext thread
    rw [(knowing thread disciplined).uses, referrers, Finset.mem_filter, and_iff_right]
    exact Finset.mem_univ thread
  have whole := sound.counted node
  rw [place, users] at whole
  have counted : Counted (state.shared.freeListRefs node) false (referrers state node).card := by
    simpa [Place.flagged, Place.own] using whole
  refine ⟨ghost.stack, sound.chained, unlisted, ?_, ?_⟩
  · intro alone
    rw [alone] at counted
    have zero : state.shared.freeListRefs node = 0 := (counted.eq_iff .zero).mpr ⟨rfl, rfl⟩
    exact unused_pushes sound.chained unlisted zero
  · intro shared
    have used : state.shared.freeListRefs node ≠ 0 := by
      intro zero
      exact shared (Finset.card_eq_zero.mp ((counted.eq_iff .zero).mp zero).2)
    have taken : advance state.shared (.addRefs node) =
        some (state.shared.setRefs node (state.shared.freeListRefs node + SHOULD_BE_ON_FREELIST),
          .idle, ⟨.addRefs node SHOULD_BE_ON_FREELIST, some .added⟩) := by
      simp only [advance, if_neg used]
    have word := (counted.eq_iff (.ofNat counted.small)).mpr ⟨rfl, rfl⟩
    refine .last taken ⟨rfl, sound.chained, ?_, fun order nodup all => ?_⟩
    · rw [setRefs_freeListRefs, word]
    · have members : order.toFinset = referrers state node := by
        ext thread
        rw [List.mem_toFinset, all]
      have many : (order.map state.pc).length = (referrers state node).card := by
        rw [List.length_map, ← members, List.toFinset_card_of_nodup nodup]
      refine links_in_turn ?_ ?_ sound.chained unlisted ?_
      · intro none
        rw [none] at many
        exact shared (Finset.card_eq_zero.mp many.symm)
      · intro pc member
        obtain ⟨thread, among, rfl⟩ := List.mem_map.mp member
        have uses := (Finset.mem_filter.mp ((all thread).mp among)).2
        refine ⟨uses, ?_⟩
        cases works : (state.pc thread).works with
        | none => rfl
        | some work =>
            obtain ⟨other, phase⟩ := work
            have busy := (knowing thread disciplined).place_eq works
            rw [uses_works uses works, place] at busy
            cases busy
      · rw [many, setRefs_freeListRefs]
        exact counted.raise

/-- After 19 events of `handover` the second thread has taken the node to which the
first still refers; nobody refers to the other node. -/
theorem handover_referred : ∃ state,
    ((program Bool Bool).machine (construct Bool)).Run (handoverEvents.take 19) state ∧
      referrers state false ≠ ∅ ∧ referrers state true = ∅ := by
  refine ⟨_, Machine.exec_run ((program Bool Bool).machine (construct Bool)) (handover.take 19) rfl,
    Finset.ne_empty_of_mem (Finset.mem_filter.mpr ⟨Finset.mem_univ false, rfl⟩), ?_⟩
  refine Finset.filter_eq_empty_iff.mpr fun thread _ uses => ?_
  cases thread <;> cases uses

theorem add_alone_handover : ∃ state,
    ((program Bool Bool).machine (construct Bool)).Run (handoverEvents.take 19) state ∧
      referrers state false ≠ ∅ ∧
      (∃ nodes, (program Bool Bool).EndsWithin (Leaves state nodes false) 1 state.shared
        (.addRefs false)) ∧
      ∃ nodes, (program Bool Bool).EndsWithin (Pushes nodes true) 5 state.shared
        (.addRefs true) := by
  obtain ⟨state, run, referred, unreferred⟩ := handover_referred
  have split : handoverEvents = handoverEvents.take 19 ++ handoverEvents.drop 19 := rfl
  have disciplined := handover_disciplined
  rw [split] at disciplined
  have hands : ∀ node, held (handoverEvents.take 19) node = true := by decide +kernel
  obtain ⟨nodes, _, _, _, leaves⟩ := add_alone (by decide) run disciplined.before (hands false)
  obtain ⟨others, _, _, pushes, _⟩ := add_alone (by decide) run disciplined.before (hands true)
  exact ⟨state, run, referred, ⟨nodes, leaves referred⟩, ⟨others, pushes unreferred⟩⟩

end DmLockFree.ConcurrentQueue.FreeList
