import DmLockFree.RapidPool.Client
import Mathlib.Logic.Function.Basic

/-!
# `DMNew` and `DMDelete`

Every thread has a pool of its own, and both functions use the pool of the thread
that calls them. A pointer does not tell whose pool its object came from.
-/

set_option autoImplicit false

namespace DmLockFree.DMPool

open Library CDynamicRapidPool

variable {Id : Type} [DecidableEq Id] {S I : Nat}

abbrev Pools (Id : Type) (S I : Nat) := Id → CDynamicRapidPool S I

/-- A slot of the pool of the thread `owner`. -/
structure Object (Id : Type) where
  owner : Id
  slot : Slot
  deriving DecidableEq, Repr

def dmNew (asserts : Bool) (pools : Pools Id S I) (thread : Id) :
    Except Stop (Option (Object Id) × Pools Id S I) := do
  let (slot, pool) ← (pools thread).fetchObj asserts
  return (slot.map (Object.mk thread), Function.update pools thread pool)

/-- `distance` is what the pointer subtraction yields for a slot outside the chunk. -/
def dmDelete (asserts : Bool) (distance : Id → Nat → Object Id → UInt16)
    (pools : Pools Id S I) (thread : Id) : Option (Object Id) →
    Except Stop (Pools Id S I)
  | none => .ok pools
  | some ⟨owner, slot⟩ => do
      let some p := (pools owner).getRapidData slot | .error .undefined
      let (pool, p) ← (pools thread).releaseHeader asserts p fun chunk =>
        if thread = owner ∧ chunk = slot.chunk then .slot slot.index
        else .elsewhere (distance thread chunk ⟨owner, slot⟩)
      let pools := Function.update pools thread pool
      return Function.update pools owner ((pools owner).setRapidData slot p)

/-- `live` has the slots of the live objects of each pool. -/
structure World (Id : Type) (S I : Nat) where
  pools : Pools Id S I
  live : Id → List Slot

inductive Label (Id : Type) where
  | new (thread : Id)
  | delete (thread : Id) (object : Option (Object Id))
  deriving DecidableEq, Repr

inductive Event (Id : Type) where
  | created (thread : Id) (object : Option (Object Id))
  | deleted (thread : Id) (object : Option (Object Id))
  | stopped (stop : Stop)
  deriving DecidableEq, Repr

def World.created (world : World Id S I) (pools : Pools Id S I) :
    Option (Object Id) → World Id S I
  | none => { world with pools }
  | some ⟨owner, slot⟩ =>
      ⟨pools, Function.update world.live owner (slot :: world.live owner)⟩

def World.deleted (world : World Id S I) (pools : Pools Id S I) :
    Option (Object Id) → World Id S I
  | none => { world with pools }
  | some ⟨owner, slot⟩ =>
      ⟨pools, Function.update world.live owner ((world.live owner).erase slot)⟩

def World.holds (world : World Id S I) (object : Option (Object Id)) : Prop :=
  ∀ owner slot, object = some ⟨owner, slot⟩ → slot ∈ world.live owner

instance (world : World Id S I) (object : Option (Object Id)) :
    Decidable (world.holds object) :=
  match object with
  | none => .isTrue nofun
  | some ⟨owner, slot⟩ => decidable_of_iff (slot ∈ world.live owner)
      ⟨fun member _ _ same => by cases same; exact member, fun holds => holds owner slot rfl⟩

/-- Threads that pass live objects around and delete each of them once, in a build
without assertions. -/
def machine (Id : Type) [DecidableEq Id] (S I : Nat) (distance : Id → Nat → Object Id → UInt16) :
    Machine (World Id S I) (Label Id) (Event Id) where
  start := ⟨fun _ => .construct S I, fun _ => []⟩
  step world
    | .new thread =>
        match dmNew false world.pools thread with
        | .ok (object, pools) => some (world.created pools object, .created thread object)
        | .error stop => some (world, .stopped stop)
    | .delete thread object =>
        if world.holds object then
          match dmDelete false distance world.pools thread object with
          | .ok pools => some (world.deleted pools object, .deleted thread object)
          | .error stop => some (world, .stopped stop)
        else none

/-- Whoever deletes an object has created it. -/
def OwnDelete (_ : World Id S I) : Label Id → Prop
  | .new _ => True
  | .delete thread object => ∀ owner slot, object = some ⟨owner, slot⟩ → thread = owner

instance (world : World Id S I) (label : Label Id) : Decidable (OwnDelete world label) :=
  match label with
  | .new _ => .isTrue trivial
  | .delete _ none => .isTrue nofun
  | .delete thread (some ⟨owner, _⟩) => decidable_of_iff (thread = owner)
      ⟨fun equal _ _ same => by cases same; exact equal, fun own => own owner _ rfl⟩

/-- On its own object a thread does what `ReleaseObj` of its pool does. -/
theorem dmDelete_own (asserts : Bool) (distance : Id → Nat → Object Id → UInt16)
    (pools : Pools Id S I) (thread : Id) (slot : Slot) :
    dmDelete asserts distance pools thread (some ⟨thread, slot⟩) =
      ((pools thread).releaseObj asserts (fun chunk slot => distance thread chunk ⟨thread, slot⟩)
        (some slot)).map
        (Function.update pools thread) := by
  simp only [dmDelete, releaseObj, true_and]
  cases (pools thread).getRapidData slot with
  | none => rfl
  | some p =>
      simp only [bind, Except.bind]
      split
      · rfl
      · simp only [Function.update_self, Function.update_idem, pure, Except.pure, Except.map]

/-- On an object of another thread it changes its own pool and the header in the
pool of the other. -/
theorem dmDelete_foreign (asserts : Bool) (distance : Id → Nat → Object Id → UInt16)
    {pools : Pools Id S I} {thread owner : Id} {slot : Slot} {p : SRapidData}
    (foreign : thread ≠ owner) (read : (pools owner).getRapidData slot = some p) :
    dmDelete asserts distance pools thread (some ⟨owner, slot⟩) =
      ((pools thread).releaseHeader asserts p
        (fun chunk => .elsewhere (distance thread chunk ⟨owner, slot⟩))).map fun (pool, q) =>
          Function.update (Function.update pools thread pool) owner
            ((pools owner).setRapidData slot q) := by
  simp only [dmDelete, read, foreign, false_and, if_false, bind, Except.bind, pure, Except.pure,
    Function.update_of_ne foreign.symm]
  split
  · simp only [*, Except.map]
  · simp only [*, Except.map]

/-- Every chunk of every pool has legal links and counts its unused slots. -/
structure Intact (world : World Id S I) : Prop where
  links : ∀ thread number chunk, (world.pools thread).chunk number = some chunk →
    chunk.wFirstFlag.toNat ≤ S ∧ ∀ p, p ∈ chunk.stRapidData → p.dwFlag.toNat ≤ S
  counts : ∀ thread number chunk, (world.pools thread).chunk number = some chunk →
    chunk.qwFreeCount.toNat ≤ S ∧
      chunk.qwFreeCount.toNat = chunk.stRapidData.countP fun p => !p.dwUse
  apart : ∀ thread, (world.live thread).Nodup

/-- What one call may do. -/
structure Correct (distance : Id → Nat → Object Id → UInt16) (before : World Id S I)
    (event : Event Id) (after : World Id S I) : Prop where
  returns : ∀ stop, event ≠ .stopped stop
  created : ∀ thread owner slot, event = .created thread (some ⟨owner, slot⟩) →
    thread = owner ∧ slot ∉ before.live owner
  deleted : ∀ thread owner slot, event = .deleted thread (some ⟨owner, slot⟩) →
    Returned slot (before.pools owner) (after.pools owner) ∧
      ∀ other, other ≠ owner → after.pools other = before.pools other
  asserted : ∀ thread object, event = .deleted thread object →
    dmDelete true distance before.pools thread object = .ok after.pools

section Runs

variable {distance : Id → Nat → Object Id → UInt16} {world after : World Id S I}
  {events : List (Event Id)} {label : Label Id} {event : Event Id}

omit [DecidableEq Id] in
theorem intact (sound : ∀ thread, Sound (world.live thread) (world.pools thread)) :
    Intact world := by
  refine ⟨fun thread number chunk found => ?_, fun thread number chunk found => ?_,
    fun thread => (sound thread).nodup⟩
  · obtain ⟨free, stack⟩ := (sound thread).chunk found
    refine ⟨stack.first_le, fun p member => ?_⟩
    obtain ⟨slot, header⟩ := List.mem_iff_getElem?.mp member
    exact (stack.headers slot p header).2.1
  · obtain ⟨free, stack⟩ := (sound thread).chunk found
    rw [stack.count, stack.countP_unused]
    exact ⟨stack.length_le, rfl⟩

theorem sound_update (sound : ∀ thread, Sound (world.live thread) (world.pools thread))
    {thread : Id} {live : List Slot} {pool : CDynamicRapidPool S I} (next : Sound live pool)
    (other : Id) : Sound (Function.update world.live thread live other)
      (Function.update world.pools thread pool other) := by
  by_cases same : other = thread
  · subst same
    rwa [Function.update_self, Function.update_self]
  · rw [Function.update_of_ne same, Function.update_of_ne same]
    exact sound other

theorem step_delete {thread : Id} {object : Option (Object Id)} {pools : Pools Id S I}
    (holds : world.holds object)
    (result : dmDelete false distance world.pools thread object = .ok pools) :
    (machine Id S I distance).step world (.delete thread object) =
      some (world.deleted pools object, .deleted thread object) := by
  simp only [machine, if_pos holds, result]

theorem step_correct (bounds : Bounds S I)
    (sound : ∀ thread, Sound (world.live thread) (world.pools thread))
    (own : OwnDelete world label)
    (taken : (machine Id S I distance).step world label = some (after, event)) :
    Correct distance world event after ∧
      ∀ thread, Sound (after.live thread) (after.pools thread) := by
  cases label with
  | new thread =>
      rcases (sound thread).fetchObj bounds with ⟨slot, pool, fetched, fresh, -, next⟩ | ⟨full, -⟩
      · have created : dmNew false world.pools thread =
            .ok (some ⟨thread, slot⟩, Function.update world.pools thread pool) := by
          rw [dmNew, fetched]
          rfl
        simp only [machine, created] at taken
        cases taken
        refine ⟨⟨nofun, ?_, nofun, nofun⟩, sound_update sound next⟩
        intro _ _ _ same
        cases same
        exact ⟨rfl, fresh⟩
      · have created : dmNew false world.pools thread = .ok (none, world.pools) := by
          rw [dmNew, full]
          simp [bind, Except.bind, pure, Except.pure]
        simp only [machine, created] at taken
        cases taken
        exact ⟨⟨nofun, nofun, nofun, nofun⟩, sound⟩
  | delete thread object =>
      simp only [machine] at taken
      split at taken
      case isFalse => cases taken
      case isTrue holds =>
          cases object with
          | none =>
              cases taken
              refine ⟨⟨nofun, nofun, nofun, ?_⟩, sound⟩
              intro _ _ same
              cases same
              rfl
          | some object =>
              obtain ⟨owner, slot⟩ := object
              obtain rfl := own owner slot rfl
              obtain ⟨pool, released, returned, next⟩ :=
                (sound thread).releaseObj bounds (holds thread slot rfl)
              have deleted : ∀ asserts, dmDelete asserts distance world.pools thread
                  (some ⟨thread, slot⟩) = .ok (Function.update world.pools thread pool) := by
                intro asserts
                rw [dmDelete_own, released]
                rfl
              simp only [deleted] at taken
              cases taken
              refine ⟨⟨nofun, nofun, ?_, ?_⟩, sound_update sound next⟩
              · intro _ _ _ same
                cases same
                refine ⟨?_, fun other apart => Function.update_of_ne apart _ _⟩
                simp only [World.deleted, Function.update_self]
                exact returned
              · intro _ _ same
                cases same
                exact deleted true

theorem run_sound (bounds : Bounds S I)
    (run : ((machine Id S I distance).restrict OwnDelete).Run events world) :
    ∀ thread, Sound (world.live thread) (world.pools thread) :=
  run.invariant (fun _ world => ∀ thread, Sound (world.live thread) (world.pools thread))
    (fun _ => .construct bounds)
    fun sound taken => (step_correct bounds sound (Machine.restrict_step taken).1
      (Machine.restrict_step taken).2).2

theorem releaseObj_unused {chunk later : CDMRapidPool S} {p q : SRapidData} {place : Target}
    (released : chunk.releaseObj false p place = .ok (later, q)) : q.dwUse = false := by
  cases used : p.dwUse with
  | false =>
      rw [CDMRapidPool.releaseObj_abort used] at released
      cases released
  | true =>
      simp only [CDMRapidPool.releaseObj, used, check_false, bind, Except.bind, pure,
        Except.pure] at released
      cases released
      rfl

theorem releaseHeader_unused {pool later : CDynamicRapidPool S I} {p q : SRapidData}
    {target : Nat → Target} (released : pool.releaseHeader false p target = .ok (later, q)) :
    q.dwUse = false := by
  simp only [releaseHeader, check_false, bind, Except.bind, pure, Except.pure] at released
  split at released
  case isTrue =>
      split at released
      case h_1 => cases released
      case h_2 result same =>
          cases released
          exact releaseObj_unused same
  case isFalse =>
      split at released
      case h_2 => cases released
      case h_1 =>
          split at released
          case h_2 => cases released
          case h_1 =>
              split at released
              case h_1 => cases released
              case h_2 result same =>
                  cases released
                  exact releaseObj_unused same

/-- The slot of a foreign object becomes unused without being counted by its chunk. -/
theorem foreign_delete_breaks (sound : ∀ thread, Sound (world.live thread) (world.pools thread))
    {thread owner : Id} {slot : Slot} (foreign : thread ≠ owner)
    (taken : (machine Id S I distance).step world (.delete thread (some ⟨owner, slot⟩)) =
      some (after, event)) : (∃ stop, event = .stopped stop) ∨ ¬ Intact after := by
  simp only [machine] at taken
  split at taken
  case isFalse => cases taken
  case isTrue holds =>
      obtain ⟨chunk, p, free, found, header, stack, used⟩ :=
        (sound owner).header (holds owner slot rfl)
      have read : (world.pools owner).getRapidData slot = some p := by
        rw [getRapidData, found]
        exact header
      rw [dmDelete_foreign false distance foreign read] at taken
      cases released : (world.pools thread).releaseHeader false p
          fun chunk => .elsewhere (distance thread chunk ⟨owner, slot⟩) with
      | error stop =>
          rw [released] at taken
          cases taken
          exact .inl ⟨stop, rfl⟩
      | ok result =>
          obtain ⟨pool, q⟩ := result
          have unused := releaseHeader_unused released
          rw [released] at taken
          cases taken
          refine .inr fun whole => ?_
          have counted := whole.counts owner slot.chunk (chunk.setHeader slot.index q) ?_
          · have inside := (List.getElem?_eq_some_iff.mp header).1
            have entry := (List.getElem?_eq_some_iff.mp header).2
            have inUse : p.dwUse = true := by
              rw [← Bool.not_eq_false, (stack.headers _ p header).2.2]
              exact used
            have total := stack.countP_unused
            have same := counted.2
            simp only [CDMRapidPool.setHeader, stack.count] at same
            rw [List.countP_set inside, total, entry] at same
            simp [inUse, unused] at same
          · simp only [World.deleted, Function.update_self]
            exact setRapidData_chunk found q

theorem fetchObj_construct (bounds : Bounds S I) : ∃ chunk p,
    (∀ asserts, (CDynamicRapidPool.construct S I).fetchObj asserts =
      .ok (some ⟨0, 0⟩, (CDynamicRapidPool.construct S I).setChunk 0 chunk)) ∧
    chunk.stRapidData[0]? = some p ∧ p.dwIndex.toNat = 0 ∧ p.dwUse = true := by
  have taken : FreeSlots.take S (I + 1) [List.range S] =
      some (⟨0, 0⟩, [FreeSlots.opened S]) := by
    rw [range_eq_cons bounds.positive]
    rfl
  have start : Represents [List.range S] (CDynamicRapidPool.construct S I) := .construct bounds
  obtain ⟨chunk, fetched, represents⟩ := start.fetchObj bounds taken
  obtain ⟨free, more, same, stack, -⟩ := represents.chunks
  cases same
  obtain ⟨p, header⟩ := stack.header bounds.positive
  obtain ⟨index, -, unused⟩ := stack.headers 0 p header
  refine ⟨chunk, p, fetched, header, index, ?_⟩
  rw [← Bool.not_eq_false, unused, FreeSlots.mem_opened bounds.positive]
  omega

/-- A new pool takes any header with index 0 for one of its own. -/
theorem releaseHeader_construct {p : SRapidData} (distance : Nat → UInt16)
    (index : p.dwIndex.toNat = 0) (used : p.dwUse = true) :
    (CDynamicRapidPool.construct S I).releaseHeader true p
        (fun chunk => .elsewhere (distance chunk)) = .error .assertion ∧
    ∃ pool q, (CDynamicRapidPool.construct S I).releaseHeader false p
        (fun chunk => .elsewhere (distance chunk)) = .ok (pool, q) ∧
      pool.oDefaultRapidPool.qwFreeCount = UInt64.ofNat S + 1 := by
  have own : (CDMRapidPool.construct S 0).ownIndex p = true := by
    rw [CDMRapidPool.ownIndex, index]
    rfl
  constructor
  · simp [releaseHeader, index, CDynamicRapidPool.construct, CDMRapidPool.releaseObj, used, own,
      Target.isInside, check, bind, Except.bind]
  · simp only [releaseHeader, index, if_true, CDynamicRapidPool.construct,
      CDMRapidPool.releaseObj, used, check_false, bind, Except.bind, pure, Except.pure]
    exact ⟨_, _, rfl, rfl⟩

theorem first_foreign_delete (bounds : Bounds S I) {thread owner : Id} (foreign : thread ≠ owner) :
    ∃ middle world : World Id S I,
      (machine Id S I distance).Run [.created owner (some ⟨owner, ⟨0, 0⟩⟩)] middle ∧
      dmDelete true distance middle.pools thread (some ⟨owner, ⟨0, 0⟩⟩) = .error .assertion ∧
      (machine Id S I distance).Run
        [.created owner (some ⟨owner, ⟨0, 0⟩⟩), .deleted thread (some ⟨owner, ⟨0, 0⟩⟩)] world ∧
      (world.pools thread).oDefaultRapidPool.qwFreeCount = UInt64.ofNat S + 1 := by
  obtain ⟨chunk, p, fetched, header, index, used⟩ := @fetchObj_construct S I bounds
  obtain ⟨stops, pool, q, released, overfull⟩ := @releaseHeader_construct S I p
    (fun chunk => distance thread chunk ⟨owner, ⟨0, 0⟩⟩) index used
  let middle : World Id S I :=
    ⟨Function.update (fun _ => .construct S I) owner
        ((CDynamicRapidPool.construct S I).setChunk 0 chunk),
      Function.update (fun _ => []) owner [⟨0, 0⟩]⟩
  have created : (machine Id S I distance).step (machine Id S I distance).start (.new owner) =
      some (middle, .created owner (some ⟨owner, ⟨0, 0⟩⟩)) := by
    simp only [machine, dmNew, fetched]
    rfl
  have read : (middle.pools owner).getRapidData ⟨0, 0⟩ = some p := by
    simp only [middle, Function.update_self]
    exact header
  have untouched : middle.pools thread = .construct S I := by
    simp only [middle, Function.update_of_ne foreign]
  have deletes := fun asserts => dmDelete_foreign asserts distance foreign read
  rw [untouched] at deletes
  have holds : middle.holds (some ⟨owner, ⟨0, 0⟩⟩) := by
    intro _ _ same
    cases same
    simp [middle]
  have result : dmDelete false distance middle.pools thread (some ⟨owner, ⟨0, 0⟩⟩) =
      .ok (Function.update (Function.update middle.pools thread pool) owner
        ((middle.pools owner).setRapidData ⟨0, 0⟩ q)) := by
    rw [deletes, released]
    rfl
  refine ⟨middle, _, .snoc .refl created, ?_, .snoc (.snoc .refl created)
    (step_delete holds result), ?_⟩
  · rw [deletes, stops]
    rfl
  · simp only [World.deleted, Function.update_of_ne foreign, Function.update_self]
    exact overfull

end Runs

/-- As long as every object is deleted by the thread that created it, all pools
stay intact, and each call does to the right chunk what it should. The first
delete by another thread does not leave them intact. -/
theorem own_deletes_keep_pools {Id : Type} [DecidableEq Id] {S I : Nat}
    {distance : Id → Nat → Object Id → UInt16} {events : List (Event Id)} {world : World Id S I}
    (slots : 1 ≤ S) (size : S < 65535) (index : I < 32767)
    (run : ((machine Id S I distance).restrict OwnDelete).Run events world) :
    Intact world ∧
    (∀ label after event,
      ((machine Id S I distance).restrict OwnDelete).step world label = some (after, event) →
        Correct distance world event after) ∧
    ∀ thread owner slot after event, thread ≠ owner →
      (machine Id S I distance).step world (.delete thread (some ⟨owner, slot⟩)) =
        some (after, event) → (∃ stop, event = .stopped stop) ∨ ¬ Intact after := by
  have bounds : Bounds S I := ⟨slots, size, index⟩
  have sound := run_sound bounds run
  refine ⟨intact sound, fun label after event taken => ?_,
    fun thread owner slot after event foreign taken => foreign_delete_breaks sound foreign taken⟩
  obtain ⟨own, taken⟩ := Machine.restrict_step taken
  exact (step_correct bounds sound own taken).1

/-- Two threads that use their own pools, one object at a time. -/
def ownPools : List (Label Bool) :=
  [.new false, .new true, .delete false (some ⟨false, ⟨0, 0⟩⟩), .new false, .new false,
    .delete true (some ⟨true, ⟨0, 0⟩⟩), .delete false none]

theorem own_deletes_keep_pools_interleaved :
    ∃ (events : List (Event Bool)) (world : World Bool 2 1),
      ((machine Bool 2 1 fun _ _ _ => 0).restrict OwnDelete).Run events world ∧
      world.live false = [⟨0, 1⟩, ⟨0, 0⟩] ∧ world.live true = [] ∧ Intact world := by
  have run := Machine.exec_run ((machine Bool 2 1 fun _ _ _ => 0).restrict OwnDelete) ownPools rfl
  exact ⟨_, _, run, rfl, rfl, (own_deletes_keep_pools (by decide) (by decide) (by decide) run).1⟩

/-- One thread creates an object and another one deletes it: the pool of the
second then counts a free slot more than it has. -/
theorem foreign_delete_overfills :
    ∃ middle world : World Bool 10000 1000,
      (machine Bool 10000 1000 fun _ _ _ => 0).Run
        [.created false (some ⟨false, ⟨0, 0⟩⟩)] middle ∧
      dmDelete true (fun _ _ _ => 0) middle.pools true (some ⟨false, ⟨0, 0⟩⟩) =
        .error .assertion ∧
      (machine Bool 10000 1000 fun _ _ _ => 0).Run
        [.created false (some ⟨false, ⟨0, 0⟩⟩), .deleted true (some ⟨false, ⟨0, 0⟩⟩)] world ∧
      (world.pools true).oDefaultRapidPool.qwFreeCount = 10001 ∧ ¬ Intact world := by
  obtain ⟨middle, world, created, stops, deleted, overfull⟩ :=
    @first_foreign_delete Bool _ 10000 1000 (fun _ _ _ => 0) ⟨by decide, by decide, by decide⟩
      true false (by decide)
  refine ⟨middle, world, created, stops, deleted, overfull, fun whole => ?_⟩
  have fits := (whole.counts true 0 _ rfl).1
  rw [overfull] at fits
  exact absurd fits (by decide)

end DmLockFree.DMPool
