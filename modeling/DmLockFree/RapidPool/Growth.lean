import DmLockFree.Library.Peak
import DmLockFree.RapidPool.Client

/-! A pool opens a chunk only when all slots of its chunks are live, so the number
of its chunks follows the peak of the live objects. -/

set_option autoImplicit false

namespace DmLockFree.CDynamicRapidPool

open Library CDMRapidPool FreeSlots

variable {S I : Nat} {live : List Slot} {pool : CDynamicRapidPool S I} {top : Nat}

/-- The number of live objects after a call. -/
def Event.count (before : Nat) : Event → Nat
  | .fetched (some _) => before + 1
  | .released (some _) => before - 1
  | _ => before

/-- The number of live objects after a history. -/
def alive (events : List Event) : Nat := events.foldl Event.count 0

/-- The free slots and the live ones, in no more chunks than `top` live objects need. -/
def Peaked (top : Nat) (live : List Slot) (pool : CDynamicRapidPool S I) : Prop :=
  ∃ frees, Represents frees pool ∧ Accounts S (I + 1) frees live ∧ Needed S top frees.length

theorem Accounts.length_le {frees : FreeSlots} (accounts : Accounts S (I + 1) frees live) :
    live.length ≤ S * frees.length := by
  have total := accounts.total
  omega

namespace Peaked

theorem construct (bounds : Bounds S I) : Peaked 0 [] (CDynamicRapidPool.construct S I) :=
  ⟨_, .construct bounds, .start, Nat.zero_le _, .inl rfl⟩

theorem fetchObj (peaked : Peaked top live pool) (bounds : Bounds S I) :
    (∃ slot after, pool.fetchObj false = .ok (some slot, after) ∧
      Peaked (max top (live.length + 1)) (slot :: live) after) ∨
    pool.fetchObj false = .ok (none, pool) := by
  obtain ⟨frees, represents, accounts, needed⟩ := peaked
  cases taken : take S (I + 1) frees with
  | none => exact .inr (represents.fetchObj_none taken)
  | some result =>
      obtain ⟨slot, later⟩ := result
      obtain ⟨_, next⟩ := accounts.take bounds.positive taken
      obtain ⟨chunk, fetched, represents⟩ := represents.fetchObj bounds taken
      refine .inl ⟨slot, _, fetched false, later, represents, next, ?_⟩
      rcases take_cases taken with ⟨free, _, rfl⟩ | ⟨_, full, _, rfl⟩
      · -- A slot of an open chunk: the live objects still fit into the chunks.
        have fits := Accounts.length_le next
        rw [List.length_set] at fits ⊢
        exact needed.rise fits
      · -- A new chunk: the others are full.
        have empty : (frees.map List.length).sum = 0 := by
          apply List.sum_eq_zero
          intro count member
          obtain ⟨free, inside, rfl⟩ := List.mem_map.mp member
          rw [full free inside, List.length_nil]
        have total := accounts.total
        rw [empty, Nat.zero_add] at total
        rw [total, List.length_append]
        exact needed.grow bounds.positive

theorem releaseObj (peaked : Peaked top live pool) (bounds : Bounds S I) {slot : Slot}
    (member : slot ∈ live) :
    ∃ after, (∀ distance, pool.releaseObj false distance (some slot) = .ok after) ∧
      Peaked top (live.erase slot) after := by
  obtain ⟨frees, represents, accounts, needed⟩ := peaked
  obtain ⟨free, present, inside, used⟩ := (accounts.live_iff slot).mp member
  obtain ⟨chunk, released, stack⟩ := represents.releaseObj bounds present inside used
  have below := (List.getElem?_eq_some_iff.mp present).1
  refine ⟨_, released false, FreeSlots.put frees slot, ?_, accounts.put member, ?_⟩
  · rw [put_eq present]
    exact represents.setChunk below stack
  · rw [put_eq present, List.length_set]
    exact needed

theorem getMallocCount (peaked : Peaked top live pool) (bounds : Bounds S I) :
    pool.getMallocCount.toNat = S * max 1 (top ⌈/⌉ S) := by
  obtain ⟨frees, represents, accounts, needed⟩ := peaked
  have chunks := needed.eq bounds.positive accounts.positive
  obtain ⟨free, more, rfl, _, grown⟩ := represents.chunks
  have few : S * (free :: more).length < 2 ^ 64 := by
    have slots := Nat.mul_le_mul bounds.size.le (Nat.le_trans accounts.fits bounds.index)
    omega
  have counted : pool.getMallocCount = UInt64.ofNat (S * (free :: more).length) := by
    rw [CDynamicRapidPool.getMallocCount, grown.mallocCountFrom, CDMRapidPool.getMallocCount,
      ← UInt64.ofNat_add, List.length_cons, Nat.mul_succ, Nat.add_comm]
  rw [counted, UInt64.toNat_ofNat_of_lt' few, chunks]

end Peaked

section Runs

variable {distance : Nat → Slot → UInt16} {client later : Client S I} {events : List Event}
  {request : Request} {event : Event}

theorem step_peaked (bounds : Bounds S I) (peaked : Peaked top client.live client.pool)
    (highest : client.live.length ≤ top)
    (taken : (machine S I distance).step client request = some (later, event)) :
    later.live.length = event.count client.live.length ∧
      Peaked (max top later.live.length) later.live later.pool := by
  cases request with
  | fetch =>
      rcases peaked.fetchObj bounds with ⟨slot, pool, fetched, next⟩ | fetched
      · simp only [machine, fetched] at taken
        cases taken
        exact ⟨rfl, next⟩
      · simp only [machine, fetched] at taken
        cases taken
        exact ⟨rfl, by rwa [Option.toList_none, List.nil_append, max_eq_left highest]⟩
  | release slot =>
      simp only [machine] at taken
      split at taken
      case isFalse => cases taken
      case isTrue held =>
          cases slot with
          | none =>
              cases taken
              exact ⟨rfl, by rwa [Option.elim_none, max_eq_left highest]⟩
          | some slot =>
              have member := held slot rfl
              obtain ⟨pool, released, next⟩ := peaked.releaseObj bounds member
              rw [released] at taken
              cases taken
              have fewer : (client.live.erase slot).length = client.live.length - 1 :=
                List.length_erase_of_mem member
              refine ⟨fewer, ?_⟩
              rw [Option.elim_some, fewer, max_eq_left (Nat.le_trans (Nat.sub_le ..) highest)]
              exact next

theorem run_peaked (bounds : Bounds S I) (run : (machine S I distance).Run events client) :
    client.live.length = alive events ∧ Peaked (peak alive events) client.live client.pool := by
  have start : Peaked (peak alive []) [] (CDynamicRapidPool.construct S I) := .construct bounds
  refine run.invariant (fun events (client : Client S I) => client.live.length = alive events ∧
    Peaked (peak alive events) client.live client.pool) ⟨rfl, start⟩ ?_
  intro events client later request event before taken
  obtain ⟨length, peaked⟩ := before
  have highest : alive events ≤ peak alive events :=
    (peak_isGreatest alive events).2 ⟨events, List.prefix_rfl, rfl⟩
  obtain ⟨counted, next⟩ := step_peaked bounds peaked (length.le.trans highest) taken
  have now : later.live.length = alive (events ++ [event]) := by
    rw [counted, length, alive, alive, List.foldl_append]
    rfl
  rw [now] at next
  rw [peak_snoc]
  exact ⟨now, next⟩

end Runs

/-- In every run the slots of a pool are those of the fewest chunks that hold the
most objects that were ever live at the same time. -/
theorem mallocCount_of_peak {S I : Nat} {distance : Nat → Slot → UInt16} {client : Client S I}
    {events : List Event} (slots : 1 ≤ S) (size : S < 65535) (index : I < 32767)
    (run : (machine S I distance).Run events client) :
    client.pool.getMallocCount.toNat = S * max 1 (peak alive events ⌈/⌉ S) := by
  have bounds : Bounds S I := ⟨slots, size, index⟩
  exact (run_peaked bounds run).2.getMallocCount bounds

/-- Three of four slots were live at a time; one is left. -/
theorem mallocCount_of_peak_returned :
    ∃ (events : List Event) (client : Client 2 2),
      (machine 2 2 fun _ _ => 0).Run events client ∧ alive events = 1 ∧
        peak alive events = 3 ∧ client.pool.getMallocCount.toNat = 4 := by
  have run := Machine.exec_run (machine 2 2 fun _ _ => 0)
    [.fetch, .fetch, .fetch, .release (some ⟨0, 1⟩), .release (some ⟨1, 0⟩)] rfl
  exact ⟨_, _, run, rfl, rfl, mallocCount_of_peak (by decide) (by decide) (by decide) run⟩

end DmLockFree.CDynamicRapidPool
