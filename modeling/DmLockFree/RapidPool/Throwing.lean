import DmLockFree.RapidPool.Client

/-! Constructors that throw. `FetchObj` has unlinked and counted the slot before
it runs the constructor, and nothing puts it back when the exception leaves. -/

set_option autoImplicit false

namespace DmLockFree.CDynamicRapidPool.Throwing

open Library

variable {S I : Nat}

inductive Request where
  | fetch (throws : Bool)
  | release (slot : Option Slot)
  deriving DecidableEq, Repr

inductive Event where
  | fetched (slot : Option Slot)
  | threw (slot : Slot)
  | released (slot : Option Slot)
  | stopped (stop : Stop)
  deriving DecidableEq, Repr

/-- All calls on one pool; the environment says which constructors throw. -/
def machine (S I : Nat) (distance : Nat → Slot → UInt16) : Machine (Client S I) Request Event where
  start := ⟨.construct S I, []⟩
  step client
    | .fetch throws =>
        match client.pool.fetchObj false with
        | .ok (none, pool) => some (⟨pool, client.live⟩, .fetched none)
        | .ok (some slot, pool) =>
            if throws then some (⟨pool, client.live⟩, .threw slot)
            else some (⟨pool, slot :: client.live⟩, .fetched (some slot))
        | .error stop => some (client, .stopped stop)
    | .release slot =>
        if ∀ object, slot = some object → object ∈ client.live then
          match client.pool.releaseObj false distance slot with
          | .ok pool => some (⟨pool, slot.elim client.live client.live.erase⟩, .released slot)
          | .error stop => some (client, .stopped stop)
        else none

/-- The slots in which a constructor has thrown. -/
def lost (events : List Event) : List Slot :=
  events.filterMap fun event => match event with
    | .threw slot => some slot
    | _ => none

theorem lost_threw (events : List Event) (slot : Slot) :
    lost (events ++ [.threw slot]) = lost events ++ [slot] := by
  simp [lost]

/-- A later `FetchObj` can return the slot. -/
def Obtainable (distance : Nat → Slot → UInt16) (client : Client S I) (slot : Slot) : Prop :=
  ∃ events later, (machine S I distance).Path client events later ∧ .fetched (some slot) ∈ events

/-- A failed construction that consumes nothing. -/
structure Unharmed (distance : Nat → Slot → UInt16) (before after : Client S I) : Prop where
  live : after.live.length = before.live.length
  counts : after.pool.getMallocCount - after.pool.getFreeCount =
    before.pool.getMallocCount - before.pool.getFreeCount
  slots : ∀ slot, Obtainable distance before slot → Obtainable distance after slot

variable {distance : Nat → Slot → UInt16} {client after : Client S I} {events : List Event}
  {request : Request} {event : Event} {slot : Slot}

/-- What a fetch finds is neither live nor lost. -/
theorem step_sound (bounds : Bounds S I) (sound : Sound (client.live ++ lost events) client.pool)
    (taken : (machine S I distance).step client request = some (after, event)) :
    Sound (after.live ++ lost (events ++ [event])) after.pool ∧
      ∀ slot, event = .fetched (some slot) → slot ∉ lost events := by
  cases request with
  | fetch throws =>
      rcases sound.fetchObj bounds with ⟨slot, pool, fetched, fresh, _, next⟩ | ⟨fetched, _⟩
      · simp only [machine, fetched] at taken
        cases throws with
        | true =>
            cases taken
            constructor
            · apply next.perm
              rw [lost_threw, ← List.append_assoc]
              exact (List.perm_append_singleton slot _).symm
            · nofun
        | false =>
            cases taken
            constructor
            · simpa [lost] using next
            · rintro _ ⟨⟩ member
              exact fresh (List.mem_append_right _ member)
      · simp only [machine, fetched] at taken
        cases taken
        exact ⟨by simpa [lost] using sound, nofun⟩
  | release slot =>
      simp only [machine] at taken
      split at taken
      case isFalse => cases taken
      case isTrue held =>
          cases slot with
          | none =>
              cases taken
              exact ⟨by simpa [lost] using sound, nofun⟩
          | some slot =>
              have alive := held slot rfl
              obtain ⟨pool, released, _, next⟩ :=
                sound.releaseObj bounds (List.mem_append_left _ alive)
              rw [released] at taken
              cases taken
              rw [List.erase_append_left _ alive] at next
              exact ⟨by simpa [lost] using next, nofun⟩

theorem run_sound (bounds : Bounds S I) (run : (machine S I distance).Run events client) :
    Sound (client.live ++ lost events) client.pool := by
  induction run with
  | refl => exact .construct bounds
  | snoc _ taken ih => exact (step_sound bounds ih taken).1

/-- A lost slot is lost for all later fetches. -/
theorem never_fetched (bounds : Bounds S I) (run : (machine S I distance).Run events client)
    (gone : slot ∈ lost events) : ¬Obtainable distance client slot := by
  rintro ⟨rest, later, path, fetched⟩
  induction path with
  | refl => cases fetched
  | @snoc middle later rest label event path taken ih =>
      rcases List.mem_append.mp fetched with before | last
      · exact ih before
      · have sound := run_sound bounds (run.trans path)
        have apart := (step_sound bounds sound taken).2 slot (List.mem_singleton.mp last).symm
        apply apart
        rw [lost, List.filterMap_append]
        exact List.mem_append_left _ gone

theorem counts_eq (bounds : Bounds S I) (run : (machine S I distance).Run events client) :
    (client.pool.getMallocCount - client.pool.getFreeCount).toNat =
      client.live.length + (lost events).length := by
  rw [(run_sound bounds run).counts bounds, List.length_append]

/-- No constructor that throws leaves the pool as it was: the counters have one
slot more in use, with no more live objects, and no later `FetchObj` returns the
slot, which it could before. So every throw costs one object of the capacity. -/
theorem failed_construction_leaks {S I : Nat} {distance : Nat → Slot → UInt16} {client : Client S I}
    {events : List Event} (slots : 1 ≤ S) (size : S < 65535) (index : I < 32767)
    (run : (machine S I distance).Run events client) :
    (∀ after slot, (machine S I distance).step client (.fetch true) = some (after, .threw slot) →
      ¬Unharmed distance client after ∧ after.live = client.live ∧
      (after.pool.getMallocCount - after.pool.getFreeCount).toNat =
        (client.pool.getMallocCount - client.pool.getFreeCount).toNat + 1 ∧
      Obtainable distance client slot ∧ ¬Obtainable distance after slot) ∧
    client.live.length + (lost events).length ≤ S * (I + 1) := by
  have bounds : Bounds S I := ⟨slots, size, index⟩
  constructor
  · intro after slot taken
    have next := run.snoc taken
    have same : after.live = client.live ∧ Obtainable distance client slot := by
      rcases (run_sound bounds run).fetchObj bounds with ⟨found, pool, fetched, _⟩ | ⟨fetched, _⟩
      · simp only [machine, fetched, if_true] at taken
        cases taken
        have again : (machine S I distance).step client (.fetch false) =
            some (⟨pool, slot :: client.live⟩, .fetched (some slot)) := by
          simp [machine, fetched]
        exact ⟨rfl, _, _, Machine.Path.refl.snoc again, List.mem_singleton_self _⟩
      · simp [machine, fetched] at taken
    have gone : slot ∈ lost (events ++ [.threw slot]) := by simp [lost_threw]
    have counts : (after.pool.getMallocCount - after.pool.getFreeCount).toNat =
        (client.pool.getMallocCount - client.pool.getFreeCount).toNat + 1 := by
      rw [counts_eq bounds next, counts_eq bounds run, same.1, lost_threw, List.length_append,
        List.length_singleton, Nat.add_assoc]
    refine ⟨?_, same.1, counts, same.2, never_fetched bounds next gone⟩
    intro unharmed
    rw [unharmed.counts] at counts
    omega
  · have fits := (run_sound bounds run).length_le
    rwa [List.length_append] at fits

/-- One object is live when a second constructor throws. -/
def throwOnce : List Request := [.fetch false, .fetch true, .release (some ⟨0, 0⟩)]

theorem failed_construction_leaks_once :
    ∃ (events : List Event) (client : Client 2 1),
      (machine 2 1 fun _ _ => 0).Run events client ∧
      events = [.fetched (some ⟨0, 0⟩), .threw ⟨0, 1⟩, .released (some ⟨0, 0⟩)] ∧
      client.live.length + (lost events).length ≤ 2 * (1 + 1) := by
  have run := Machine.exec_run (machine 2 1 fun _ _ => 0) throwOnce rfl
  exact ⟨_, _, run, rfl,
    (failed_construction_leaks (by decide) (by decide) (by decide) run).2⟩

/-- A throw in a new pool, and after as many throws as there are slots the pool
refuses without a single live object. -/
theorem throws_exhaust :
    (∃ after, (machine 1 1 fun _ _ => 0).step (machine 1 1 fun _ _ => 0).start (.fetch true) =
        some (after, .threw ⟨0, 0⟩) ∧
      ¬Unharmed (fun _ _ => 0) (machine 1 1 fun _ _ => 0).start after) ∧
    ∃ (events : List Event) (client : Client 1 1),
      (machine 1 1 fun _ _ => 0).Run events client ∧
      events = [.threw ⟨0, 0⟩, .threw ⟨1, 0⟩, .fetched none] ∧ client.live = [] ∧
      client.pool.getMallocCount - client.pool.getFreeCount = 2 := by
  constructor
  · refine ⟨_, rfl, ?_⟩
    intro unharmed
    exact absurd unharmed.counts (by decide)
  · have run := Machine.exec_run (machine 1 1 fun _ _ => 0)
      [.fetch true, .fetch true, .fetch false] rfl
    exact ⟨_, _, run, rfl, rfl, rfl⟩

end DmLockFree.CDynamicRapidPool.Throwing
