import DmLockFree.CAtomicQueue.Safety

/-! One producer and any number of consumers. The exchange decides which pop gets
a pointer, but `head` is stored from a snapshot: the order is kept as long as no
pop exchanges a filled cell that is not the one at `head`. -/

set_option autoImplicit false

namespace DmLockFree.CAtomicQueue

open Library Program

variable {Consumer T : Type}

/-- The cell that a pop is about to exchange is empty, or it is the first of a
queue that is not empty. -/
def TakesOldest (state : State Consumer T) :
    Threads.Label (Thread Consumer) (Call T) → Prop
  | .run (.consumer name) =>
      match state.pc (.consumer name) with
      | .popExchange currentHead =>
          state.shared.cell currentHead = some none ∨
            currentHead = state.shared.head ∧ state.shared.head ≠ state.shared.tail
      | _ => True
  | _ => True

instance (state : State Consumer T) (label : Threads.Label (Thread Consumer) (Call T)) :
    Decidable (TakesOldest state label) := by
  unfold TakesOldest
  cases label with
  | call => exact instDecidableTrue
  | run thread =>
      cases thread with
      | producer => exact instDecidableTrue
      | consumer name =>
          dsimp only
          split <;> infer_instance

/-- Besides the cells: the pointers taken out and not deleted yet, and the pop
between its exchange and its store of `head`. -/
structure Crowd (Consumer T : Type) where
  ghost : Ghost T
  removing : List (Consumer × Nat)
  window : Option Consumer

def Crowd.others (crowd : Crowd Consumer T) : List Nat := crowd.removing.map Prod.snd

structure CrowdSound (size : Nat) (events : List (Event Consumer T)) (crowd : Crowd Consumer T)
    (queue : CAtomicQueue T) : Prop where
  sound : Sound size crowd.ghost.contents queue
  window : crowd.ghost.contents.hollow = crowd.window.isSome
  owns : Owns (crowd.others ++ crowd.ghost.rest) queue.heap
  balance : (pushed events ++ crowd.ghost.publishing).map some =
    popped events ++ crowd.ghost.contents.remaining.map queue.heap

/-- What one of the consumers knows. -/
def PopFacts (size : Nat) (name : Consumer) (crowd : Crowd Consumer T) (queue : CAtomicQueue T) :
    Pc T → Prop
  | .popStoreHead currentHead pointer =>
      crowd.window = some name ∧ currentHead = queue.head ∧ (name, pointer) ∈ crowd.removing
  | .popDelete pointer => crowd.window ≠ some name ∧ (name, pointer) ∈ crowd.removing
  | .popLoadTail currentHead | .popExchange currentHead | .frontLoadTail currentHead
  | .frontLoadCell currentHead => crowd.window ≠ some name ∧ currentHead.toNat < size
  | .idle | .popLoadHead | .popCountDown | .frontLoadHead | .emptyFirst _ | .emptySecond _ _ =>
      crowd.window ≠ some name
  | _ => False

def CrowdFacts (size : Nat) (thread : Thread Consumer) (_ : List (Event Consumer T))
    (crowd : Crowd Consumer T) (queue : CAtomicQueue T) : Pc T → Prop :=
  match thread with
  | .producer => ProducerFacts size crowd.ghost queue
  | .consumer name => PopFacts size name crowd queue

section Steps

variable {size : Nat} {name : Consumer} {crowd later : Crowd Consumer T}
  {queue after : CAtomicQueue T} {pc next : Pc T} {output : Output T}

/-- Steps of others leave a pop its pointer and its window. -/
theorem PopFacts.kept (facts : PopFacts size name crowd queue pc)
    (window : later.window = some name ↔ crowd.window = some name)
    (head : crowd.window = some name → after.head = queue.head)
    (removing : ∀ pointer, (name, pointer) ∈ crowd.removing → (name, pointer) ∈ later.removing) :
    PopFacts size name later after pc := by
  cases pc with
  | popStoreHead currentHead pointer =>
      obtain ⟨mine, same, member⟩ := facts
      exact ⟨window.mpr mine, same.trans (head mine).symm, removing pointer member⟩
  | popDelete pointer =>
      obtain ⟨outside, member⟩ := facts
      exact ⟨fun mine => outside (window.mp mine), removing pointer member⟩
  | popLoadTail | popExchange | frontLoadTail | frontLoadCell =>
      obtain ⟨outside, inside⟩ := facts
      exact ⟨fun mine => outside (window.mp mine), inside⟩
  | idle | popLoadHead | popCountDown | frontLoadHead | emptyFirst | emptySecond =>
      exact fun mine => facts (window.mp mine)
  | _ => exact facts

structure PopKeeps (size : Nat) (name : Consumer) (crowd : Crowd Consumer T)
    (queue : CAtomicQueue T) (later : Crowd Consumer T) (after : CAtomicQueue T) (next : Pc T)
    (output : Output T) : Prop where
  sound : Sound size later.ghost.contents after
  hollow : later.ghost.contents.hollow = later.window.isSome
  owns : Owns (later.others ++ later.ghost.rest) after.heap
  facts : PopFacts size name later after next
  ahead : later.ghost.contents.ahead = crowd.ghost.contents.ahead
  fresh : later.ghost.fresh = crowd.ghost.fresh
  publishing : later.ghost.publishing = crowd.ghost.publishing
  fewer : later.ghost.contents.stored.length ≤ crowd.ghost.contents.stored.length
  tail : after.tail = queue.tail
  next : after.next = queue.next
  heap : ∀ pointer, pointer ∈ crowd.ghost.contents.ahead.toList ++ crowd.ghost.fresh.toList →
    after.heap pointer = queue.heap pointer
  remaining : crowd.ghost.contents.remaining.map queue.heap =
    output.access.popped ++ later.ghost.contents.remaining.map after.heap
  adds : output.pushed = []
  window : ∀ other, other ≠ name → (later.window = some other ↔ crowd.window = some other)
  head : ∀ other, other ≠ name → crowd.window = some other → after.head = queue.head
  removing : ∀ other, other ≠ name → ∀ pointer, (other, pointer) ∈ crowd.removing →
    (other, pointer) ∈ later.removing

theorem cell_unchanged {index : UInt64} {pointer : Option Nat}
    (found : queue.cell index = some pointer) : queue.setCell index pointer = queue := by
  have inside := (List.getElem?_eq_some_iff.mp found).1
  have same : queue.buffer[index.toNat] = pointer := (List.getElem?_eq_some_iff.mp found).2
  unfold setCell
  rw [← same, List.set_getElem_self]

section Moves

variable {events : List (Event Consumer T)}

theorem PopKeeps.quiet (good : CrowdSound size events crowd queue)
    (facts : PopFacts size name crowd queue next) (pushed : output.pushed = [])
    (popped : output.access.popped = []) :
    PopKeeps size name crowd queue crowd queue next output := by
  constructor
  case sound => exact good.sound
  case hollow => exact good.window
  case owns => exact good.owns
  case facts => exact facts
  case remaining => rw [popped, List.nil_append]
  case adds => exact pushed
  case fewer => exact le_rfl
  case heap => exact fun _ _ => rfl
  case window => exact fun _ _ => Iff.rfl
  case head => exact fun _ _ _ => rfl
  case removing => exact fun _ _ _ member => member
  all_goals rfl

/-- The exchange of the oldest cell takes its pointer, unless another pop has it. -/
theorem PopKeeps.exchange (good : CrowdSound size events crowd queue)
    (apart : queue.head ≠ queue.tail) {pointer : Nat}
    (found : queue.cell queue.head = some (some pointer)) :
    ∃ later, PopKeeps size name crowd queue later (queue.setCell queue.head none)
      (.popStoreHead queue.head pointer)
      ⟨.exchange queue.head (some pointer) (queue.heap pointer), none⟩ := by
  have sound := good.sound
  rw [Ne, sound.empty_iff le_rfl sound.tail, List.length_eq_zero_iff] at apart
  obtain ⟨first, rest, stored⟩ := List.exists_cons_of_ne_nil apart
  have cell := sound.cell_head stored
  rw [found] at cell
  have solid : crowd.ghost.contents.hollow = false := by
    cases hollow : crowd.ghost.contents.hollow with
    | false => rfl
    | true => rw [hollow] at cell; simp at cell
  rw [solid] at cell
  cases cell
  have free : crowd.window = none := by
    rw [good.window] at solid
    simpa using solid
  refine ⟨{
    ghost := { crowd.ghost with contents := { crowd.ghost.contents with hollow := true } }
    removing := (name, pointer) :: crowd.removing
    window := some name }, ?_⟩
  constructor
  case sound => exact sound.exchange apart
  case hollow => rfl
  case owns =>
      apply good.owns.perm
      simp only [Crowd.others, Ghost.rest, Contents.remaining, solid, stored, List.map_cons,
        if_true]
      exact List.perm_middle
  case facts => exact ⟨rfl, rfl, List.mem_cons_self ..⟩
  case fewer => exact le_rfl
  case heap => exact fun _ _ => rfl
  case remaining => simp [Contents.remaining, Access.popped, solid, stored, setCell]
  case window =>
      intro other apart
      simp [free, Ne.symm apart]
  case head =>
      intro other _ theirs
      rw [free] at theirs
      cases theirs
  case removing => exact fun _ _ _ member => List.mem_cons_of_mem _ member
  all_goals rfl

theorem PopKeeps.storeHead (good : CrowdSound size events crowd queue) {pointer : Nat}
    (mine : crowd.window = some name) (member : (name, pointer) ∈ crowd.removing) :
    ∃ later, PopKeeps size name crowd queue later { queue with head := queue.next queue.head }
      (.popDelete pointer) ⟨.storeHead, none⟩ := by
  have sound := good.sound
  have hollow : crowd.ghost.contents.hollow = true := by rw [good.window, mine]; rfl
  obtain ⟨first, rest, stored⟩ := List.exists_cons_of_ne_nil (sound.ring.hollow hollow)
  have same : Contents.remaining { crowd.ghost.contents with stored := rest, hollow := false } =
      crowd.ghost.contents.remaining := by
    simp [Contents.remaining, hollow, stored]
  refine ⟨{ crowd with
    ghost := { crowd.ghost with
      contents := { crowd.ghost.contents with stored := rest, hollow := false } }
    window := none }, ?_⟩
  constructor
  case sound => exact sound.storeHead stored hollow
  case hollow => rfl
  case owns =>
      simp only [Crowd.others, Ghost.rest, same]
      exact good.owns
  case facts =>
      refine ⟨?_, member⟩
      intro inside
      cases inside
  case fewer => simp [stored]
  case heap => exact fun _ _ => rfl
  case remaining =>
      simp only [same]
      rfl
  case window =>
      intro other apart
      simp [mine, Ne.symm apart]
  case head =>
      intro other apart theirs
      rw [mine] at theirs
      exact absurd (Option.some.inj theirs).symm apart
  case removing => exact fun _ _ _ kept => kept
  all_goals rfl

theorem PopKeeps.delete [DecidableEq Consumer] (good : CrowdSound size events crowd queue)
    {pointer : Nat} (outside : crowd.window ≠ some name)
    (member : (name, pointer) ∈ crowd.removing) :
    ∃ later, PopKeeps size name crowd queue later (queue.setHeap pointer none) .popCountDown
      ⟨.delete pointer (queue.heap pointer), none⟩ := by
  have owned := good.owns.perm
    (((List.perm_cons_erase member).map Prod.snd).append_right crowd.ghost.rest)
  rw [List.map_cons, List.cons_append] at owned
  have apart := (List.nodup_cons.mp owned.nodup).1
  rw [List.mem_append, not_or, Ghost.rest, List.mem_append, not_or] at apart
  refine ⟨{ crowd with removing := crowd.removing.erase (name, pointer) }, ?_⟩
  constructor
  case sound => exact good.sound.setHeap pointer none
  case hollow => exact good.window
  case owns => exact owned.free
  case facts => exact outside
  case fewer => exact le_rfl
  case heap =>
      intro other among
      apply Function.update_of_ne
      intro same
      subst same
      exact apart.2.2 among
  case remaining => exact (Owns.map_update apart.2.1 none).symm
  case window => exact fun _ _ => Iff.rfl
  case head => exact fun _ _ _ => rfl
  case removing =>
      intro other different kept theirs
      rw [List.mem_erase_of_ne]
      · exact theirs
      · intro same
        exact different (congrArg Prod.fst same)
  all_goals rfl

theorem PopKeeps.countDown (good : CrowdSound size events crowd queue)
    (outside : crowd.window ≠ some name) :
    PopKeeps size name crowd queue crowd { queue with size := queue.size - 1 } .idle
      ⟨.countDown, some (.popped true)⟩ := by
  constructor
  case sound => exact good.sound.setSize _
  case hollow => exact good.window
  case owns => exact good.owns
  case facts => exact outside
  case fewer => exact le_rfl
  case heap => exact fun _ _ => rfl
  case window => exact fun _ _ => Iff.rfl
  case head => exact fun _ _ _ => rfl
  case removing => exact fun _ _ _ member => member
  all_goals rfl

end Moves

theorem pop_advance [DecidableEq Consumer] {events : List (Event Consumer T)}
    (good : CrowdSound size events crowd queue) (facts : PopFacts size name crowd queue pc)
    (oldest : ∀ currentHead, pc = .popExchange currentHead →
      queue.cell currentHead = some none ∨ currentHead = queue.head ∧ queue.head ≠ queue.tail)
    (taken : advance queue pc = some (after, next, output)) :
    ∃ later, PopKeeps size name crowd queue later after next output := by
  cases advances taken with
  | popLoadHead | frontLoadHead => exact ⟨crowd, .quiet good ⟨facts, good.sound.head⟩ rfl rfl⟩
  | popRefuses | frontNull | frontLoadCell => exact ⟨crowd, .quiet good facts.1 rfl rfl⟩
  | popLoadTail | frontLoadTail | emptyHead | emptyTail | emptyTailSecond | emptyHeadSecond =>
      exact ⟨crowd, .quiet good facts rfl rfl⟩
  | popNull currentHead found =>
      rw [cell_unchanged found]
      exact ⟨crowd, .quiet good facts.1 rfl rfl⟩
  | popExchange currentHead pointer found =>
      rcases oldest currentHead rfl with empty | ⟨rfl, apart⟩
      · rw [found] at empty
        cases empty
      · exact PopKeeps.exchange good apart found
  | popStoreHead =>
      obtain ⟨mine, rfl, member⟩ := facts
      exact PopKeeps.storeHead good mine member
  | popDelete =>
      obtain ⟨outside, member⟩ := facts
      exact PopKeeps.delete good outside member
  | popCountDown => exact ⟨crowd, .countDown good facts⟩
  | _ => exact facts.elim

end Steps

section Runs

variable {size : Nat} {capacity : UInt64} {crowd : Crowd Consumer T} {queue : CAtomicQueue T}
  {events : List (Event Consumer T)} {state : State Consumer T} {thread : Thread Consumer}

theorem crowd_call (good : CrowdSound size events crowd queue) {before after : Pc T} {call : Call T}
    (facts : CrowdFacts size thread events crowd queue before)
    (entered : enter thread before call = some after) :
    Preserves (CrowdSound size) (CrowdFacts size) thread events (.called thread call) crowd crowd
      queue queue after := by
  constructor
  case sound =>
      constructor
      case sound => exact good.sound
      case window => exact good.window
      case owns => exact good.owns
      case balance =>
          rw [pushed_snoc, popped_snoc]
          simpa [Threads.Event.output] using good.balance
  case own =>
      cases thread with
      | producer =>
          cases before <;> cases call <;> cases entered
          exact facts
      | consumer name =>
          cases before with
          | idle => cases call <;> cases entered <;> exact facts
          | _ => cases call <;> cases entered
  case others => exact fun _ _ _ theirs => theirs

variable [DecidableEq Consumer]

theorem crowd_advance (good : CrowdSound size events crowd queue) {before pc : Pc T}
    {after : CAtomicQueue T} {output : Output T}
    (facts : CrowdFacts size thread events crowd queue before)
    (oldest : ∀ name, thread = .consumer name → ∀ currentHead, before = .popExchange currentHead →
      queue.cell currentHead = some none ∨ currentHead = queue.head ∧ queue.head ≠ queue.tail)
    (taken : advance queue before = some (after, pc, output)) :
    ∃ later, Preserves (CrowdSound size) (CrowdFacts size) thread events (.ran thread output) crowd
      later queue after pc := by
  cases thread with
  | producer =>
      obtain ⟨ghost, pointers, moved⟩ :=
        producer_moves crowd.others good.sound good.owns facts taken
      refine ⟨{ crowd with ghost }, ?_⟩
      constructor
      case sound =>
          constructor
          case sound => exact moved.sound
          case window => exact moved.hollow.trans good.window
          case owns => exact moved.owns
          case balance =>
              have more :=
                Contents.remaining_append moved.stored moved.hollow good.sound.ring.hollow
              rw [pushed_snoc, popped_snoc, more]
              change (pushed events ++ output.pushed ++ ghost.publishing).map some =
                popped events ++ output.access.popped ++ _
              rw [List.append_assoc, List.map_append, moved.adds, moved.takes, List.map_append,
                moved.heap, ← List.append_assoc, ← List.map_append, good.balance]
              simp
      case own => exact moved.facts
      case others =>
          intro other apart pc theirs
          cases other with
          | producer => exact absurd rfl apart
          | consumer name =>
              exact PopFacts.kept theirs Iff.rfl (fun _ => moved.head) fun _ member => member
  | consumer name =>
      obtain ⟨later, moved⟩ := pop_advance good facts (oldest name rfl) taken
      refine ⟨later, ?_⟩
      constructor
      case sound =>
          constructor
          case sound => exact moved.sound
          case window => exact moved.hollow
          case owns => exact moved.owns
          case balance =>
              rw [pushed_snoc, popped_snoc, moved.publishing]
              change (pushed events ++ output.pushed ++ crowd.ghost.publishing).map some =
                popped events ++ output.access.popped ++ _
              rw [moved.adds, List.append_nil, good.balance, moved.remaining, List.append_assoc]
      case own => exact moved.facts
      case others =>
          intro other apart pc theirs
          cases other with
          | producer =>
              exact ProducerFacts.taken theirs moved.ahead moved.fresh moved.publishing moved.fewer
                moved.tail moved.next moved.heap
          | consumer second =>
              have different : second ≠ name := by
                intro same
                subst same
                exact apart rfl
              exact PopFacts.kept theirs (moved.window second different)
                (moved.head second different) (moved.removing second different)

theorem crowd_invariant (positive : 1 ≤ capacity.toNat)
    (run : (((program Consumer T).machine (construct T capacity)).restrict TakesOldest).Run
      events state) :
    ∃ crowd, CrowdSound capacity.toNat events crowd state.shared ∧
      ∀ thread, CrowdFacts capacity.toNat thread events crowd state.shared (state.pc thread) := by
  have start : CrowdSound capacity.toNat ([] : List (Event Consumer T))
      ⟨⟨⟨[], none, false⟩, none, none, []⟩, [], none⟩ (construct T capacity) := by
    constructor
    case sound => exact construct_sound positive
    case window => rfl
    case owns => exact .nil
    case balance => rfl
  refine Program.restricted_invariant (CrowdSound capacity.toNat) (CrowdFacts capacity.toNat) start
    ?_ (fun _ _ good facts entered => ⟨_, crowd_call good facts entered⟩) ?_ run
  · intro thread
    cases thread with
    | producer => exact ⟨rfl, rfl, rfl⟩
    | consumer name => exact nofun
  · intro events crowd state thread after pc output path allowed good facts taken
    apply crowd_advance good facts ?_ taken
    rintro name rfl currentHead point
    simp only [TakesOldest, point] at allowed
    exact allowed

end Runs

/-- A push has stored its cell and not yet `tail`. -/
def Pc.storesTail : Pc T → Bool
  | .pushStoreTail _ _ => true
  | _ => false

theorem ProducerFacts.ahead {size : Nat} {ghost : Ghost T} {queue : CAtomicQueue T} {pc : Pc T}
    (facts : ProducerFacts size ghost queue pc) (filled : ghost.contents.ahead ≠ none) :
    pc.storesTail = true := by
  cases pc with
  | idle | pushLoadTail | pushCountUp => exact (filled (Offers.ahead facts)).elim
  | pushLoadHead | pushAllocate | pushStoreCell => exact (filled (Offers.ahead facts.1)).elim
  | pushStoreTail => rfl
  | _ => exact facts.elim

theorem PopFacts.inWindow {size : Nat} {name : Consumer} {crowd : Crowd Consumer T}
    {queue : CAtomicQueue T} {pc : Pc T} (facts : PopFacts size name crowd queue pc)
    (mine : crowd.window = some name) : ∃ pointer, pc = .popStoreHead queue.head pointer := by
  cases pc with
  | popStoreHead currentHead pointer =>
      obtain ⟨_, rfl, _⟩ := facts
      exact ⟨pointer, rfl⟩
  | popDelete | popLoadTail | popExchange | frontLoadTail | frontLoadCell =>
      exact (facts.1 mine).elim
  | idle | popLoadHead | popCountDown | frontLoadHead | emptyFirst | emptySecond =>
      exact (facts mine).elim
  | _ => exact facts.elim

section Successes

/-- A pop that has taken a pointer and will return true. -/
def Pc.succeeding : Pc T → Nat
  | .popStoreHead _ _ | .popDelete _ | .popCountDown => 1
  | _ => 0

def Output.succeeded : Output T → Nat
  | ⟨_, some (.popped true)⟩ => 1
  | _ => 0

variable [DecidableEq Consumer]

def Event.removals (name : Consumer) : Event Consumer T → Nat
  | .ran (.consumer other) output => if other = name then output.access.popped.length else 0
  | _ => 0

def Event.successes (name : Consumer) : Event Consumer T → Nat
  | .ran (.consumer other) output => if other = name then output.succeeded else 0
  | _ => 0

/-- The pointers that one consumer has taken out of their cells. -/
def removals (name : Consumer) (events : List (Event Consumer T)) : Nat :=
  (events.map (Event.removals name)).sum

/-- The pops of one consumer that have returned true. -/
def successes (name : Consumer) (events : List (Event Consumer T)) : Nat :=
  (events.map (Event.successes name)).sum

theorem advance_succeeds {queue after : CAtomicQueue T} {pc next : Pc T} {output : Output T}
    (taken : advance queue pc = some (after, next, output)) :
    output.access.popped.length + pc.succeeding = output.succeeded + next.succeeding := by
  cases pc with
  | idle => cases taken
  | pushLoadHead | popLoadTail | frontLoadTail | pushAllocate =>
      simp only [advance] at taken
      split at taken <;> cases taken <;> rfl
  | pushStoreCell | frontLoadCell =>
      unfold advance at taken
      obtain ⟨_, _, same⟩ := Option.map_eq_some_iff.mp taken
      cases same
      rfl
  | popExchange currentHead =>
      unfold advance at taken
      obtain ⟨pointer, _, same⟩ := Option.map_eq_some_iff.mp taken
      cases pointer <;> cases same <;> rfl
  | emptyFirst order | emptySecond order => cases order <;> cases taken <;> rfl
  | _ =>
      cases taken
      rfl

/-- Every pop that returns true has taken one pointer, and the others none. -/
theorem run_succeeds {start : CAtomicQueue T} {events : List (Event Consumer T)}
    {state : State Consumer T} (run : ((program Consumer T).machine start).Run events state)
    (name : Consumer) :
    removals name events = successes name events + (state.pc (.consumer name)).succeeding := by
  induction run with
  | refl => rfl
  | @snoc state after events label event path taken ih =>
      simp only [removals, successes, List.map_append, List.sum_append, List.map_singleton,
        List.sum_singleton] at ih ⊢
      cases label with
      | call thread request =>
          obtain ⟨pc, entered, same⟩ := Option.map_eq_some_iff.mp taken
          cases same
          simp only [Event.removals, Event.successes, Threads.moved]
          by_cases mine : thread = .consumer name
          · subst mine
            have between : (state.pc (.consumer name)).succeeding = pc.succeeding := by
              have entered : enter (.consumer name) (state.pc (.consumer name)) request = some pc :=
                entered
              cases point : state.pc (.consumer name) with
              | idle => rw [point] at entered; cases request <;> cases entered <;> rfl
              | _ => rw [point] at entered; cases request <;> cases entered
            rw [Function.update_self, ← between]
            exact ih
          · rw [Function.update_of_ne (Ne.symm mine)]
            exact ih
      | run thread =>
          obtain ⟨⟨queue, pc, output⟩, advanced, same⟩ := Option.map_eq_some_iff.mp taken
          cases same
          have moved := advance_succeeds advanced
          simp only [Threads.moved]
          by_cases mine : thread = .consumer name
          · subst mine
            rw [Function.update_self]
            simp only [Event.removals, Event.successes, if_true]
            omega
          · rw [Function.update_of_ne (Ne.symm mine)]
            cases thread with
            | producer => exact ih
            | consumer other =>
                have apart : other ≠ name := fun same => mine (congrArg Thread.consumer same)
                simp only [Event.removals, Event.successes, if_neg apart]
                exact ih

end Successes

variable [DecidableEq Consumer] {capacity : UInt64} {events : List (Event Consumer T)}
  {state : State Consumer T}

/-- Any number of consumers, when no pop exchanges a filled cell that is not the
oldest one: values are removed in push order, each by one pop that returns true.
The filled cells are the ones from `head` to `tail`, so none is out of reach; one
pop at a time is about to move `head` over the cell it has emptied. A value counts as
pushed from the store of `tail` on, before `++size` and the return. -/
theorem consumers_take_in_order (atLeast : 2 ≤ capacity.toNat)
    (run : (((program Consumer T).machine (construct T capacity)).restrict TakesOldest).Run
      events state) :
    popped events <+: (pushed events ++ (state.pc .producer).publishing).map some ∧
    (∀ name, removals name events =
      successes name events + (state.pc (.consumer name)).succeeding) ∧
    (∀ position, position < capacity.toNat → state.shared.ringCell position ≠ none →
      state.shared.inRange position ∨
        position = state.shared.tail.toNat ∧ (state.pc .producer).storesTail = true) ∧
    (∀ position, position < capacity.toNat → state.shared.inRange position →
      state.shared.ringCell position ≠ none ∨ position = state.shared.head.toNat ∧
        ∃ name pointer, state.pc (.consumer name) = .popStoreHead state.shared.head pointer) ∧
    ∀ first second index pointer index' pointer',
      state.pc (.consumer first) = .popStoreHead index pointer →
      state.pc (.consumer second) = .popStoreHead index' pointer' → first = second := by
  obtain ⟨crowd, good, facts⟩ := crowd_invariant (by omega) run
  have sound := good.sound
  have producer : ProducerFacts capacity.toNat crowd.ghost state.shared (state.pc .producer) :=
    facts .producer
  have consumer : ∀ name, PopFacts capacity.toNat name crowd state.shared
      (state.pc (.consumer name)) := fun name => facts (.consumer name)
  have range : ∀ offset, offset < capacity.toNat →
      (state.shared.inRange ((state.shared.head.toNat + offset) % capacity.toNat) ↔
        offset < crowd.ghost.contents.stored.length) := by
    intro offset close
    rw [inRange, sound.capacity, sound.tail, Ring.offset_of_position sound.head close,
      Ring.offset_of_position sound.head sound.ring.room]
  refine ⟨?_, run_succeeds (Machine.restrict_path run), ?_, ?_, ?_⟩
  · have balance := good.balance
    rw [producer.publishing] at balance
    exact ⟨_, balance.symm⟩
  · intro position inside filled
    obtain ⟨offset, close, rfl⟩ := Ring.exists_offset state.shared.head.toNat inside
    rw [range offset close]
    rcases sound.ring.of_filled close filled with stored | ⟨rfl, written⟩
    · exact .inl stored
    · exact .inr ⟨sound.tail.symm, producer.ahead written⟩
  · intro position inside between
    obtain ⟨offset, close, rfl⟩ := Ring.exists_offset state.shared.head.toNat inside
    rw [range offset close] at between
    rcases sound.ring.filled_of_stored between with filled | ⟨rfl, hollow⟩
    · exact .inl filled
    · rw [good.window, Option.isSome_iff_exists] at hollow
      obtain ⟨name, mine⟩ := hollow
      obtain ⟨pointer, point⟩ := (consumer name).inWindow mine
      exact .inr ⟨Nat.mod_eq_of_lt sound.head, name, pointer, point⟩
  · intro first second index pointer index' pointer' point point'
    have mine := consumer first
    have theirs := consumer second
    rw [point] at mine
    rw [point'] at theirs
    exact Option.some.inj (mine.1.symm.trans theirs.1)

/-- Consumer `false` loads `head` while `true` is in its pop, gets nothing, and
then pops the second value. -/
def takingTurns : List (Threads.Label (Thread Bool) (Call Nat)) :=
  [.call .producer (.tryPush 7 100), .run .producer, .run .producer, .run .producer,
    .run .producer, .run .producer, .run .producer, .call .producer (.tryPush 8 200),
    .run .producer, .run .producer, .run .producer, .run .producer, .run .producer, .run .producer,
    .call (.consumer true) .pop, .run (.consumer true), .run (.consumer true),
    .call (.consumer false) .pop, .run (.consumer false), .run (.consumer false),
    .run (.consumer true), .run (.consumer false), .run (.consumer true),
    .call (.consumer false) .pop, .run (.consumer false), .run (.consumer false),
    .run (.consumer false), .run (.consumer true), .run (.consumer false)]

theorem consumers_take_in_order_takingTurns :
    ∃ (events : List (Event Bool Nat)) (state : State Bool Nat),
      (((program Bool Nat).machine (construct Nat 3)).restrict TakesOldest).Run events state ∧
      pushed events = [7, 8] ∧ popped events = [some 7, some 8] ∧
      removals true events = successes true events +
        (state.pc (.consumer true)).succeeding := by
  have run := Machine.exec_run (((program Bool Nat).machine (construct Nat 3)).restrict TakesOldest)
    takingTurns rfl
  exact ⟨_, _, run, rfl, rfl, (consumers_take_in_order (by decide) run).2.1 true⟩

/-- Consumer `true` loads `head` and `tail` and stalls while the ring wraps; its
exchange then meets the newest value. -/
def overtakenByTheRing : List (Threads.Label (Thread Bool) (Call Nat)) :=
  let push (value pointer : Nat) : List (Threads.Label (Thread Bool) (Call Nat)) :=
    [.call .producer (.tryPush value pointer), .run .producer, .run .producer, .run .producer,
      .run .producer, .run .producer, .run .producer]
  let pop : List (Threads.Label (Thread Bool) (Call Nat)) :=
    [.call (.consumer false) .pop, .run (.consumer false), .run (.consumer false),
      .run (.consumer false), .run (.consumer false), .run (.consumer false),
      .run (.consumer false)]
  push 1 100 ++ [.call (.consumer true) .pop, .run (.consumer true), .run (.consumer true)] ++
    pop ++ push 2 200 ++ push 3 300 ++ pop ++ push 4 400 ++
    [.run (.consumer true), .run (.consumer true), .run (.consumer true), .run (.consumer true)]

/-- The last value comes out before the third, which is out of reach afterwards:
`head` has gone back to `tail` and its cell is behind both. -/
theorem stalled_pop_strands :
    ∃ (events : List (Event Bool Nat)) (state : State Bool Nat),
      ((program Bool Nat).machine (construct Nat 3)).Run events state ∧
      (∀ thread, state.pc thread = .idle) ∧
      pushed events = [1, 2, 3, 4] ∧ popped events = [some 1, some 2, some 4] ∧
      ¬popped events <+: (pushed events ++ (state.pc .producer).publishing).map some ∧
      state.shared.head = state.shared.tail ∧ state.shared.ringCell 2 = some 300 := by
  have run := Machine.exec_run ((program Bool Nat).machine (construct Nat 3)) overtakenByTheRing rfl
  refine ⟨_, _, run, ?_, rfl, rfl, ?_, rfl, rfl⟩
  · intro thread
    cases thread with
    | producer => rfl
    | consumer name => cases name <;> rfl
  · decide

end DmLockFree.CAtomicQueue
