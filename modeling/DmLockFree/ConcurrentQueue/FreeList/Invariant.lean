import DmLockFree.ConcurrentQueue.FreeList.Steps
import DmLockFree.Library.Chain
import DmLockFree.Library.RefCount
import Mathlib.Data.Fintype.Card

/-! Where every node of a `FreeList` is, and which threads refer to it. The count
of a node is that of its users, and one more while the list refers to it. -/

set_option autoImplicit false

namespace DmLockFree.ConcurrentQueue.FreeList

open Library

variable {Thread Node : Type}

/-- What a thread does with a node that nobody else may add or hand out. -/
inductive Phase where
  | given
  | adding
  | offered
  | taken
  deriving DecidableEq, Repr

/-- `pending` is an added node that its last user will link in. -/
inductive Place (Thread : Type) where
  | held
  | pending
  | listed
  | busy (thread : Thread) (phase : Phase)

namespace Place

def flagged : Place Thread → Bool
  | .pending | .busy _ .adding => true
  | _ => false

/-- The reference of the list itself. -/
def own : Place Thread → Nat
  | .listed | .busy _ .offered | .busy _ .taken => 1
  | _ => 0

theorem own_le (place : Place Thread) : place.own ≤ 1 := by
  unfold own
  split <;> decide

end Place

structure Ghost (Thread Node : Type) where
  stack : List Node
  place : Node → Place Thread
  users : Node → Finset Thread

/-- The node that the thread refers to. -/
def Pc.uses : Pc Node → Option Node
  | .getLoadNext head | .getExchangeHead head _ | .getAssert head | .getSubRefs head => some head
  | .getRelease prevHead _ => some prevHead
  | _ => none

def Pc.works : Pc Node → Option (Node × Phase)
  | .addRefs node => some (node, .given)
  | .knowingLoadHead node _ | .knowingStoreNext node _ _ | .knowingStoreRefs node _ _ =>
      some (node, .adding)
  | .knowingExchange node _ _ | .knowingGiveBack node _ _ => some (node, .offered)
  | .getAssert head | .getSubRefs head => some (head, .taken)
  | _ => none

/-- What a thread has read and what stays true of it. -/
def Pc.Knows (list : FreeList Node) : Pc Node → Prop
  | .knowingStoreRefs node head _ | .knowingExchange node head _ => list.freeListNext node = head
  | .getExchangeRefs _ refs => refs &&& REFS_MASK ≠ 0
  | .getExchangeHead head next => list.freeListNext head = next
  | .aborted => False
  | _ => True

section Loop

variable (head : Option Node) (resume : Resume Node)

@[simp] theorem loop_uses : (loop head).1.uses = none := by cases head <;> rfl

@[simp] theorem loop_works : (loop head).1.works = none := by cases head <;> rfl

@[simp] theorem loop_knows (list : FreeList Node) : (loop head).1.Knows list := by
  cases head <;> trivial

@[simp] theorem continue_uses : resume.continue.1.uses = none := by
  cases resume with
  | adding => rfl
  | getting head => exact loop_uses head

@[simp] theorem continue_works : resume.continue.1.works = none := by
  cases resume with
  | adding => rfl
  | getting head => exact loop_works head

@[simp] theorem continue_knows (list : FreeList Node) : resume.continue.1.Knows list := by
  cases resume with
  | adding => trivial
  | getting head => exact loop_knows head list

end Loop

structure Sound (ghost : Ghost Thread Node) (list : FreeList Node) : Prop where
  counted : ∀ node, Counted (list.freeListRefs node) (ghost.place node).flagged
    ((ghost.place node).own + (ghost.users node).card)
  adding : ∀ node thread, ghost.place node = .busy thread .adding → ghost.users node = ∅
  pending : ∀ node, ghost.place node = .pending → ghost.users node ≠ ∅
  chained : Chained list.freeListNext list.freeListHead ghost.stack
  nodup : ghost.stack.Nodup
  listed : ∀ node, ghost.place node = .listed ↔ node ∈ ghost.stack

structure Facts (thread : Thread) (ghost : Ghost Thread Node) (list : FreeList Node)
    (pc : Pc Node) : Prop where
  uses : ∀ node, thread ∈ ghost.users node ↔ pc.uses = some node
  works : ∀ node phase, ghost.place node = .busy thread phase ↔ pc.works = some (node, phase)
  knows : pc.Knows list

/-- The list of a new queue; all nodes are in the hands of the callers. -/
def Ghost.start : Ghost Thread Node := ⟨[], fun _ => .held, fun _ => ∅⟩

theorem construct_sound : Sound (Ghost.start : Ghost Thread Node) (construct Node) := by
  refine ⟨fun _ => .zero, ?_, ?_, .nil, List.nodup_nil, fun node => ?_⟩
  · intro node thread busy
    cases busy
  · intro node pending
    cases pending
  · simp [Ghost.start]

theorem construct_facts (thread : Thread) :
    Facts thread (Ghost.start : Ghost Thread Node) (construct Node) .idle := by
  refine ⟨fun node => ?_, fun node phase => ?_, trivial⟩
  · simp [Ghost.start, Pc.uses]
  · simp [Ghost.start, Pc.works]

section Moves

variable [DecidableEq Node] {ghost : Ghost Thread Node} {list after : FreeList Node}
  {thread other : Thread} {node : Node} {place : Place Thread} {users : Finset Thread}
  {pc next : Pc Node} {refs : UInt32}

def Ghost.put (ghost : Ghost Thread Node) (node : Node) (place : Place Thread)
    (users : Finset Thread) : Ghost Thread Node :=
  { ghost with
    place := Function.update ghost.place node place
    users := Function.update ghost.users node users }

@[simp] theorem put_stack : (ghost.put node place users).stack = ghost.stack := rfl

@[simp] theorem put_place_self : (ghost.put node place users).place node = place :=
  Function.update_self ..

@[simp] theorem put_users_self : (ghost.put node place users).users node = users :=
  Function.update_self ..

theorem put_place_of_ne {other : Node} (apart : other ≠ node) :
    (ghost.put node place users).place other = ghost.place other :=
  Function.update_of_ne apart ..

theorem put_users_of_ne {other : Node} (apart : other ≠ node) :
    (ghost.put node place users).users other = ghost.users other :=
  Function.update_of_ne apart ..

theorem setRefs_self (list : FreeList Node) (node : Node) :
    list.setRefs node (list.freeListRefs node) = list := by
  simp only [setRefs, Function.update_eq_self]

/-- One node changes its place, its users and its count. -/
theorem Sound.put (sound : Sound ghost list)
    (counted : Counted refs place.flagged (place.own + users.card))
    (adding : ∀ thread, place = .busy thread .adding → users = ∅)
    (pending : place = .pending → users ≠ ∅)
    (listed : place = .listed ↔ ghost.place node = .listed) :
    Sound (ghost.put node place users) (list.setRefs node refs) := by
  refine ⟨fun other => ?_, fun other => ?_, fun other => ?_, sound.chained, sound.nodup,
    fun other => ?_⟩
  all_goals by_cases same : other = node
  · subst same
    simp only [setRefs, Function.update_self, put_place_self, put_users_self]
    exact counted
  · simp only [setRefs, Function.update_of_ne same, put_place_of_ne same, put_users_of_ne same]
    exact sound.counted other
  · subst same
    simpa only [put_place_self, put_users_self] using adding
  · simpa only [put_place_of_ne same, put_users_of_ne same] using sound.adding other
  · subst same
    simpa only [put_place_self, put_users_self] using pending
  · simpa only [put_place_of_ne same, put_users_of_ne same] using sound.pending other
  · subst same
    rw [put_place_self, put_stack, listed, sound.listed]
  · rw [put_place_of_ne same, put_stack, sound.listed]

/-- The turn of a thread changes the part that it has in one node: whether it is one
of its users. -/
structure Turn.Users (thread : Thread) (node : Node) (before users : Finset Thread)
    (pc next : Pc Node) : Prop where
  others : ∀ other, other ≠ thread → (other ∈ users ↔ other ∈ before)
  own : ∀ other, next.uses = some other ↔
    if other = node then thread ∈ users else pc.uses = some other

/-- And what it does with it. -/
structure Turn.Work (thread : Thread) (node : Node) (before place : Place Thread)
    (pc next : Pc Node) : Prop where
  others : ∀ other phase, other ≠ thread →
    (place = .busy other phase ↔ before = .busy other phase)
  own : ∀ other phase, next.works = some (other, phase) ↔
    if other = node then place = .busy thread phase else pc.works = some (other, phase)

structure Turn (thread : Thread) (ghost : Ghost Thread Node) (node : Node) (place : Place Thread)
    (users : Finset Thread) (pc next : Pc Node) : Prop where
  users : Turn.Users thread node (ghost.users node) users pc next
  work : Turn.Work thread node (ghost.place node) place pc next

theorem Turn.own (turn : Turn thread ghost node place users pc next)
    (facts : Facts thread ghost list pc) (knows : next.Knows after) :
    Facts thread (ghost.put node place users) after next := by
  refine ⟨fun other => ?_, fun other phase => ?_, knows⟩
  · rw [turn.users.own]
    split
    case isTrue same => rw [same, put_users_self]
    case isFalse apart => rw [put_users_of_ne apart, facts.uses]
  · rw [turn.work.own]
    split
    case isTrue same => rw [same, put_place_self]
    case isFalse apart => rw [put_place_of_ne apart, facts.works]

theorem Turn.others (turn : Turn thread ghost node place users pc next) (apart : other ≠ thread)
    {point : Pc Node} (facts : Facts other ghost list point) (knows : point.Knows after) :
    Facts other (ghost.put node place users) after point := by
  refine ⟨fun third => ?_, fun third phase => ?_, knows⟩
  · by_cases same : third = node
    · subst same
      rw [put_users_self, turn.users.others other apart, facts.uses]
    · rw [put_users_of_ne same, facts.uses]
  · by_cases same : third = node
    · subst same
      rw [put_place_self, turn.work.others other phase apart, facts.works]
    · rw [put_place_of_ne same, facts.works]

omit [DecidableEq Node] in
/-- What a thread knows concerns the links of its own nodes only. -/
theorem Facts.keeps (facts : Facts thread ghost list pc)
    (same : ∀ node, thread ∈ ghost.users node ∨
      (∃ phase, ghost.place node = .busy thread phase) →
      after.freeListNext node = list.freeListNext node) : pc.Knows after := by
  have knows := facts.knows
  cases pc with
  | knowingStoreRefs node head resume =>
      exact (same node (.inr ⟨.adding, (facts.works _ _).mpr rfl⟩)).trans knows
  | knowingExchange node head resume =>
      exact (same node (.inr ⟨.offered, (facts.works _ _).mpr rfl⟩)).trans knows
  | getExchangeHead head next =>
      exact (same head (.inl ((facts.uses _).mpr rfl))).trans knows
  | getExchangeRefs head refs => exact knows
  | aborted => exact knows
  | _ => trivial

end Moves

end DmLockFree.ConcurrentQueue.FreeList
