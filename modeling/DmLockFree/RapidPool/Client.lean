import DmLockFree.Library.Machine
import DmLockFree.RapidPool.Dynamic

/-! A client of one pool that releases only objects it holds. -/

set_option autoImplicit false

namespace DmLockFree.CDynamicRapidPool

open Library CDMRapidPool FreeSlots

variable {S I : Nat} {live : List Slot} {slot : Slot} {pool after : CDynamicRapidPool S I}

/-- The slots of the live objects are exactly those that no free list has. -/
def Sound (live : List Slot) (pool : CDynamicRapidPool S I) : Prop :=
  ∃ frees, Represents frees pool ∧ Accounts S (I + 1) frees live

/-- `slot` is the first free one of its own chunk again, and no other chunk changed. -/
structure Returned (slot : Slot) (before after : CDynamicRapidPool S I) : Prop where
  first : ∃ chunk chunk', before.chunk slot.chunk = some chunk ∧
    after.chunk slot.chunk = some chunk' ∧ chunk'.wFirstFlag.toNat = slot.index ∧
    chunk'.qwFreeCount.toNat = chunk.qwFreeCount.toNat + 1
  unused : ∃ p, after.getRapidData slot = some p ∧ p.dwUse = false
  others : ∀ number, number ≠ slot.chunk → after.chunk number = before.chunk number

namespace Sound

theorem construct (bounds : Bounds S I) : Sound [] (CDynamicRapidPool.construct S I) :=
  ⟨_, .construct bounds, .start⟩

theorem fetchObj (sound : Sound live pool) (bounds : Bounds S I) :
    (∃ slot after, (∀ asserts, pool.fetchObj asserts = .ok (some slot, after)) ∧
      slot ∉ live ∧ live.length ≠ S * (I + 1) ∧ Sound (slot :: live) after) ∨
    (pool.fetchObj false = .ok (none, pool) ∧ live.length = S * (I + 1)) := by
  obtain ⟨frees, represents, accounts⟩ := sound
  have full := accounts.take_eq_none_iff bounds.positive
  cases taken : take S (I + 1) frees with
  | none => exact .inr ⟨represents.fetchObj_none taken, full.mp taken⟩
  | some result =>
      obtain ⟨slot, later⟩ := result
      obtain ⟨fresh, next⟩ := accounts.take bounds.positive taken
      obtain ⟨chunk, fetched, represents⟩ := represents.fetchObj bounds taken
      refine .inl ⟨slot, _, fetched, fresh, fun all => ?_, later, represents, next⟩
      rw [full.mpr all] at taken
      cases taken

theorem releaseObj (sound : Sound live pool) (bounds : Bounds S I) (alive : slot ∈ live) :
    ∃ after, (∀ asserts distance, pool.releaseObj asserts distance (some slot) = .ok after) ∧
      Returned slot pool after ∧ Sound (live.erase slot) after := by
  obtain ⟨frees, represents, accounts⟩ := sound
  obtain ⟨free, present, inside, used⟩ := (accounts.live_iff slot).mp alive
  obtain ⟨former, found, before⟩ := represents.get present
  obtain ⟨chunk, released, stack⟩ := represents.releaseObj bounds present inside used
  have below := (List.getElem?_eq_some_iff.mp present).1
  have next := represents.setChunk below stack
  obtain ⟨put, entry, pushed⟩ := next.get (List.getElem?_set_self below)
  refine ⟨_, released, ⟨⟨former, put, found, entry, pushed.linked.1, ?_⟩, ?_, fun number apart =>
    chunk_setChunk_ne apart chunk⟩, FreeSlots.put frees slot, ?_, accounts.put alive⟩
  · rw [pushed.count, before.count, List.length_cons]
  · obtain ⟨p, header⟩ := pushed.header inside
    refine ⟨p, by rw [getRapidData, entry]; exact header, ?_⟩
    exact (pushed.headers _ p header).2.2.mpr List.mem_cons_self
  · rw [put_eq present]
    exact next

theorem counts (sound : Sound live pool) (bounds : Bounds S I) :
    (pool.getMallocCount - pool.getFreeCount).toNat = live.length := by
  obtain ⟨frees, represents, accounts⟩ := sound
  obtain ⟨free, more, rfl, stack, grown⟩ := represents.chunks
  have own : pool.oDefaultRapidPool.getFreeCount = UInt64.ofNat free.length := by
    rw [CDMRapidPool.getFreeCount, ← stack.count, UInt64.ofNat_toNat]
  have total := accounts.total
  have few : live.length < 2 ^ 64 := by
    have slots := Nat.mul_le_mul bounds.size.le (Nat.le_trans accounts.fits bounds.index)
    omega
  simp only [List.map_cons, List.sum_cons, List.length_cons, Nat.mul_succ] at total
  have split : pool.getMallocCount = pool.getFreeCount + UInt64.ofNat live.length := by
    rw [CDynamicRapidPool.getMallocCount, CDynamicRapidPool.getFreeCount, grown.mallocCountFrom,
      grown.freeCountFrom, own, CDMRapidPool.getMallocCount, ← UInt64.ofNat_add,
      ← UInt64.ofNat_add, ← UInt64.ofNat_add, total]
    congr 1
    omega
  rw [split, add_sub_cancel_left]
  exact UInt64.toNat_ofNat_of_lt' few

theorem earlier_chunk (sound : Sound live pool) {i j : Nat} {chunk : CDMRapidPool S}
    (ordered : i ≤ j) (present : pool.arrGrowRapidPool[j]? = some (some chunk)) :
    ∃ earlier, pool.arrGrowRapidPool[i]? = some (some earlier) := by
  obtain ⟨frees, represents, -⟩ := sound
  obtain ⟨free, more, rfl, stack, grown⟩ := represents.chunks
  have below : i < more.length := lt_of_le_of_lt ordered (grown.lt_length present)
  obtain ⟨earlier, entry, -⟩ := grown.get (List.getElem?_eq_getElem below)
  exact ⟨earlier, entry⟩

theorem chunk (sound : Sound live pool) {number : Nat} {chunk : CDMRapidPool S}
    (found : pool.chunk number = some chunk) : ∃ free, FreeStack S number free chunk := by
  obtain ⟨frees, represents, -⟩ := sound
  exact represents.chunk found

theorem header (sound : Sound live pool) (alive : slot ∈ live) :
    ∃ chunk p free, pool.chunk slot.chunk = some chunk ∧
      chunk.stRapidData[slot.index]? = some p ∧ FreeStack S slot.chunk free chunk ∧
      slot.index ∉ free := by
  obtain ⟨frees, represents, accounts⟩ := sound
  obtain ⟨free, present, inside, used⟩ := (accounts.live_iff slot).mp alive
  obtain ⟨chunk, found, stack⟩ := represents.get present
  obtain ⟨p, header⟩ := stack.header inside
  exact ⟨chunk, p, free, found, header, stack, used⟩

theorem nodup (sound : Sound live pool) : live.Nodup := by
  obtain ⟨_, _, accounts⟩ := sound
  exact accounts.nodup

theorem length_le (sound : Sound live pool) : live.length ≤ S * (I + 1) := by
  obtain ⟨frees, _, accounts⟩ := sound
  have total := accounts.total
  have slots := Nat.mul_le_mul_left S accounts.fits
  omega

theorem perm {other : List Slot} (sound : Sound live pool) (same : live.Perm other) :
    Sound other pool := by
  obtain ⟨frees, represents, accounts⟩ := sound
  exact ⟨frees, represents, accounts.perm same⟩

end Sound

structure Client (S I : Nat) where
  pool : CDynamicRapidPool S I
  live : List Slot

inductive Request where
  | fetch
  | release (slot : Option Slot)
  deriving DecidableEq, Repr

inductive Event where
  | fetched (slot : Option Slot)
  | released (slot : Option Slot)
  | stopped (stop : Stop)
  deriving DecidableEq, Repr

/-- A call that does not return. -/
def Client.halt (client : Client S I) (stop : Stop) : Client S I × Event := (client, .stopped stop)

/-- All calls on one pool, in a build without assertions. -/
def machine (S I : Nat) (distance : Nat → Slot → UInt16) : Machine (Client S I) Request Event where
  start := ⟨.construct S I, []⟩
  step client
    | .fetch =>
        match client.pool.fetchObj false with
        | .ok (slot, pool) => some (⟨pool, slot.toList ++ client.live⟩, .fetched slot)
        | .error stop => some (client.halt stop)
    | .release slot =>
        if ∀ object, slot = some object → object ∈ client.live then
          match client.pool.releaseObj false distance slot with
          | .ok pool => some (⟨pool, slot.elim client.live client.live.erase⟩, .released slot)
          | .error stop => some (client.halt stop)
        else none

/-- What one call may do. -/
structure Correct (before : Client S I) (event : Event) (after : Client S I) : Prop where
  returns : ∀ stop, event ≠ .stopped stop
  fetched : ∀ slot, event = .fetched (some slot) →
    slot ∉ before.live ∧ before.live.length ≠ S * (I + 1) ∧ after.live = slot :: before.live
  full : event = .fetched none → before.live.length = S * (I + 1) ∧ after = before
  released : ∀ slot, event = .released (some slot) →
    Returned slot before.pool after.pool ∧ after.live = before.live.erase slot
  ignored : event = .released none → after = before

section Runs

variable {distance : Nat → Slot → UInt16} {client later : Client S I} {events : List Event}
  {request : Request} {event : Event}

theorem step_correct (bounds : Bounds S I) (sound : Sound client.live client.pool)
    (taken : (machine S I distance).step client request = some (later, event)) :
    Correct client event later ∧ Sound later.live later.pool := by
  cases request with
  | fetch =>
      rcases sound.fetchObj bounds with ⟨slot, pool, fetched, fresh, room, next⟩ | ⟨fetched, full⟩
      · simp only [machine, fetched] at taken
        cases taken
        refine ⟨⟨nofun, ?_, nofun, nofun, nofun⟩, next⟩
        intro _ same
        cases same
        exact ⟨fresh, room, rfl⟩
      · simp only [machine, fetched] at taken
        cases taken
        exact ⟨⟨nofun, nofun, fun _ => ⟨full, rfl⟩, nofun, nofun⟩, sound⟩
  | release slot =>
      simp only [machine] at taken
      split at taken
      case isFalse => cases taken
      case isTrue held =>
          cases slot with
          | none =>
              cases taken
              exact ⟨⟨nofun, nofun, nofun, nofun, fun _ => rfl⟩, sound⟩
          | some slot =>
              obtain ⟨pool, released, returned, next⟩ := sound.releaseObj bounds (held slot rfl)
              rw [released] at taken
              cases taken
              refine ⟨⟨nofun, nofun, nofun, ?_, nofun⟩, next⟩
              intro _ same
              cases same
              exact ⟨returned, rfl⟩

theorem run_sound (bounds : Bounds S I) (run : (machine S I distance).Run events client) :
    Sound client.live client.pool :=
  run.invariant (fun _ client => Sound client.live client.pool) (.construct bounds)
    fun sound taken => (step_correct bounds sound taken).2

end Runs

/-- Every call on a pool in every run: it returns; a fetch yields a slot without a
live object, or nothing when all `S * (I + 1)` slots are live; a release returns
the slot to its own chunk; grown chunks are in front of null entries; and the
counters differ by the number of live objects. -/
theorem allocates_and_releases {S I : Nat} {distance : Nat → Slot → UInt16} {client : Client S I}
    {events : List Event} (slots : 1 ≤ S) (size : S < 65535) (index : I < 32767)
    (run : (machine S I distance).Run events client) :
    (∀ request after event,
      (machine S I distance).step client request = some (after, event) →
        Correct client event after) ∧
    client.live.Nodup ∧
    (∀ (i j : Nat) (chunk : CDMRapidPool S), i ≤ j → client.pool.arrGrowRapidPool[j]? = some (some chunk) →
      ∃ earlier, client.pool.arrGrowRapidPool[i]? = some (some earlier)) ∧
    (client.pool.getMallocCount - client.pool.getFreeCount).toNat = client.live.length := by
  have bounds : Bounds S I := ⟨slots, size, index⟩
  have sound := run_sound bounds run
  exact ⟨fun request after event taken => (step_correct bounds sound taken).1, sound.nodup,
    fun i j chunk ordered present => sound.earlier_chunk ordered present, sound.counts bounds⟩

/-- A pool of four slots is filled, refuses, and gets a slot of each chunk back. -/
def fillAndReturn : List Request :=
  [.fetch, .fetch, .fetch, .fetch, .fetch, .release (some ⟨1, 0⟩), .release none,
    .release (some ⟨0, 1⟩), .fetch]

theorem allocates_and_releases_filled :
    ∃ (events : List Event) (client : Client 2 1),
      (machine 2 1 fun _ _ => 0).Run events client ∧
      events = [.fetched (some ⟨0, 0⟩), .fetched (some ⟨0, 1⟩), .fetched (some ⟨1, 0⟩),
        .fetched (some ⟨1, 1⟩), .fetched none, .released (some ⟨1, 0⟩), .released none,
        .released (some ⟨0, 1⟩), .fetched (some ⟨0, 1⟩)] ∧
      client.live = [⟨0, 1⟩, ⟨1, 1⟩, ⟨0, 0⟩] ∧
      (client.pool.getMallocCount - client.pool.getFreeCount).toNat = client.live.length := by
  have run := Machine.exec_run (machine 2 1 fun _ _ => 0) fillAndReturn rfl
  exact ⟨_, _, run, rfl, rfl,
    (allocates_and_releases (by decide) (by decide) (by decide) run).2.2.2⟩

end DmLockFree.CDynamicRapidPool
