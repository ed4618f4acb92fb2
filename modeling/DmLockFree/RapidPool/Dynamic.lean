import DmLockFree.RapidPool.Chunk
import DmLockFree.RapidPool.FreeSlots

/-! `CDynamicRapidPool` refines the free slots of its chunks. -/

set_option autoImplicit false

namespace DmLockFree.CDynamicRapidPool

open CDMRapidPool FreeSlots

variable {S I : Nat} {asserts : Bool} {frees after : FreeSlots} {free : List Nat} {slot : Slot}
  {pool : CDynamicRapidPool S I}

/-- The entries of `m_arrGrowRapidPool` from `i` on: chunks with the given free
slots, then null pointers. -/
inductive Grown (S : Nat) : Nat → FreeSlots → List (Option (CDMRapidPool S)) → Prop where
  | unused (i count : Nat) : Grown S i [] (List.replicate count none)
  | chunk {i : Nat} {free : List Nat} {frees : FreeSlots} {pool : CDMRapidPool S}
      {entries : List (Option (CDMRapidPool S))} (stack : FreeStack S (i + 1) free pool)
      (more : Grown S (i + 1) frees entries) : Grown S i (free :: frees) (some pool :: entries)

structure Represents (frees : FreeSlots) (pool : CDynamicRapidPool S I) : Prop where
  length : pool.arrGrowRapidPool.length = I
  chunks : ∃ free more, frees = free :: more ∧ FreeStack S 0 free pool.oDefaultRapidPool ∧
    Grown S 0 more pool.arrGrowRapidPool

/-- The bounds of the `static_assert`, for pools that have slots to give. -/
structure Bounds (S I : Nat) : Prop where
  positive : 1 ≤ S
  size : S < 65535
  index : I < 32767

section Entries

variable {i k : Nat} {entries : List (Option (CDMRapidPool S))} {chunk : CDMRapidPool S}

theorem range_eq_cons (positive : 1 ≤ S) : List.range S = 0 :: opened S := by
  obtain ⟨size, rfl⟩ := Nat.exists_eq_succ_of_ne_zero (Nat.one_le_iff_ne_zero.mp positive)
  rw [List.range_eq_range', opened, Nat.succ_sub_one]
  rfl

theorem Grown.get (grown : Grown S i frees entries) (present : frees[k]? = some free) :
    ∃ chunk, entries[k]? = some (some chunk) ∧ FreeStack S (i + k + 1) free chunk := by
  induction grown generalizing k with
  | unused => cases present
  | @chunk i first frees chunk entries stack more ih =>
      cases k with
      | zero =>
          cases present
          exact ⟨chunk, rfl, stack⟩
      | succ k =>
          obtain ⟨found, entry, stack⟩ := ih (by simpa using present)
          refine ⟨found, by rw [List.getElem?_cons_succ, entry], ?_⟩
          rwa [show i + (k + 1) + 1 = i + 1 + k + 1 by omega]

theorem Grown.set (grown : Grown S i frees entries) (inside : k < frees.length)
    (stack : FreeStack S (i + k + 1) free chunk) :
    Grown S i (frees.set k free) (entries.set k (some chunk)) := by
  induction grown generalizing k with
  | unused => cases inside
  | @chunk i first frees head entries own more ih =>
      cases k with
      | zero => exact .chunk stack more
      | succ k =>
          refine .chunk own (ih (Nat.lt_of_succ_lt_succ inside) ?_)
          rwa [show i + 1 + k + 1 = i + (k + 1) + 1 by omega]

theorem fetchGrown_filled {entry : Option (CDMRapidPool S)} {index : Nat}
    (filled : (entry.getD (.construct S (UInt16.ofNat (i + 1)))).empty = false)
    (fetched : (entry.getD (.construct S (UInt16.ofNat (i + 1)))).fetchObj asserts =
      .ok (some index, chunk)) :
    fetchGrown asserts i (entry :: entries) = .ok (some ⟨i + 1, index⟩, some chunk :: entries) := by
  simp only [fetchGrown, filled, fetched]
  rfl

theorem fetchGrown_spent {later : List (Option (CDMRapidPool S))} {found : Option Slot}
    (spent : chunk.empty = true)
    (fetched : fetchGrown asserts (i + 1) entries = .ok (found, later)) :
    fetchGrown asserts i (some chunk :: entries) = .ok (found, some chunk :: later) := by
  simp only [fetchGrown, Option.getD_some, spent, fetched]
  rfl

/-- The loop of `FetchObj` takes what the free slots offer first. -/
theorem Grown.fetch (grown : Grown S i frees entries) (positive : 1 ≤ S) (size : S < 65535)
    (index : i + entries.length < 32767)
    (taken : take S entries.length frees = some (slot, after)) :
    ∃ chunk, (∀ asserts, fetchGrown asserts i entries =
        .ok (some ⟨i + slot.chunk + 1, slot.index⟩, entries.set slot.chunk (some chunk))) ∧
      slot.chunk < entries.length ∧ Grown S i after (entries.set slot.chunk (some chunk)) := by
  induction grown generalizing slot after with
  | unused i count =>
      cases count with
      | zero => cases taken
      | succ count =>
          rw [List.length_replicate] at index
          have fresh := @FreeStack.construct S (i + 1) size (by omega)
          rw [range_eq_cons positive] at fresh
          obtain ⟨chunk, fetched, stack⟩ := fresh.fetchObj
          simp only [take, takeFirst, List.length_replicate, List.length_nil,
            if_pos (Nat.succ_pos count), Option.some.injEq, Prod.mk.injEq] at taken
          obtain ⟨rfl, rfl⟩ := taken
          exact ⟨chunk, fun asserts => fetchGrown_filled fresh.not_empty (fetched asserts), by simp,
            .chunk stack (.unused _ _)⟩
  | @chunk i free frees head entries stack more ih =>
      cases free with
      | nil =>
          rw [List.length_cons, take_cons_nil, Option.map_eq_some_iff] at taken
          obtain ⟨⟨found, rest⟩, taken, same⟩ := taken
          cases same
          rw [List.length_cons] at index
          obtain ⟨chunk, fetched, inside, later⟩ := ih (by omega) taken
          rw [show i + 1 + found.chunk + 1 = i + (found.chunk + 1) + 1 by omega] at fetched
          exact ⟨chunk, fun asserts => fetchGrown_spent (stack.empty_iff.mpr rfl) (fetched asserts),
            Nat.succ_lt_succ inside, .chunk stack later⟩
      | cons first rest =>
          obtain ⟨chunk, fetched, popped⟩ := stack.fetchObj
          cases taken
          exact ⟨chunk, fun asserts => fetchGrown_filled stack.not_empty (fetched asserts),
            Nat.succ_pos _, .chunk popped more⟩

theorem Grown.fetch_none (grown : Grown S i frees entries)
    (taken : take S entries.length frees = none) :
    fetchGrown false i entries = .ok (none, entries) := by
  induction grown with
  | unused i count =>
      cases count with
      | zero => rfl
      | succ count =>
          rw [FreeSlots.take_eq_none_iff] at taken
          simp at taken
  | @chunk i free frees head entries stack more ih =>
      cases free with
      | nil =>
          rw [List.length_cons, take_cons_nil, Option.map_eq_none_iff] at taken
          exact fetchGrown_spent (stack.empty_iff.mpr rfl) (ih taken)
      | cons first rest => cases taken

theorem Grown.lt_length (grown : Grown S i frees entries)
    (present : entries[k]? = some (some chunk)) :
    k < frees.length := by
  induction grown generalizing k with
  | unused i count =>
      rw [List.getElem?_replicate] at present
      split at present <;> cases present
  | chunk stack more ih =>
      cases k with
      | zero => exact Nat.succ_pos _
      | succ k => exact Nat.succ_lt_succ (ih (by simpa using present))

theorem Grown.freeCountFrom (grown : Grown S i frees entries) (count : UInt64) :
    freeCountFrom count entries = count + UInt64.ofNat (frees.map List.length).sum := by
  induction grown generalizing count with
  | unused i unused =>
      cases unused <;> simp [CDynamicRapidPool.freeCountFrom, List.replicate_succ]
  | @chunk i free frees head entries stack more ih =>
      have own : head.getFreeCount = UInt64.ofNat free.length := by
        rw [CDMRapidPool.getFreeCount, ← stack.count, UInt64.ofNat_toNat]
      rw [CDynamicRapidPool.freeCountFrom, ih, own, List.map_cons, List.sum_cons,
        UInt64.ofNat_add, UInt64.add_assoc]

theorem Grown.mallocCountFrom (grown : Grown S i frees entries) (count : UInt64) :
    mallocCountFrom count entries = count + UInt64.ofNat (S * frees.length) := by
  induction grown generalizing count with
  | unused i unused =>
      cases unused <;> simp [CDynamicRapidPool.mallocCountFrom, List.replicate_succ]
  | chunk stack more ih =>
      rw [CDynamicRapidPool.mallocCountFrom, ih, CDMRapidPool.getMallocCount, List.length_cons,
        Nat.mul_succ, Nat.add_comm, UInt64.ofNat_add, UInt64.add_assoc]

end Entries

/-- Chunk `number` is put in place, whether it was there or not. -/
def setChunk (pool : CDynamicRapidPool S I) (number : Nat) (chunk : CDMRapidPool S) :
    CDynamicRapidPool S I :=
  match number with
  | 0 => { pool with oDefaultRapidPool := chunk }
  | i + 1 => { pool with arrGrowRapidPool := pool.arrGrowRapidPool.set i (some chunk) }

theorem chunk_setChunk_ne {number other : Nat} (apart : other ≠ number)
    (chunk : CDMRapidPool S) : (pool.setChunk number chunk).chunk other = pool.chunk other := by
  cases other with
  | zero =>
      cases number with
      | zero => exact absurd rfl apart
      | succ i => rfl
  | succ k =>
      cases number with
      | zero => rfl
      | succ i =>
          have different : i ≠ k := fun same => apart (by rw [same])
          simp only [CDynamicRapidPool.chunk, setChunk, List.getElem?_set_ne different]

theorem setRapidData_chunk {chunk : CDMRapidPool S} (found : pool.chunk slot.chunk = some chunk)
    (p : SRapidData) :
    (pool.setRapidData slot p).chunk slot.chunk = some (chunk.setHeader slot.index p) := by
  obtain ⟨place, index⟩ := slot
  cases place with
  | zero =>
      cases found
      rfl
  | succ i =>
      have entry : pool.arrGrowRapidPool[i]? = some (some chunk) := Option.join_eq_some_iff.mp found
      simp only [setRapidData, CDynamicRapidPool.chunk, List.getElem?_modify_eq, entry]
      rfl

namespace Represents

variable {number : Nat}

theorem construct (bounds : Bounds S I) :
    Represents [List.range S] (CDynamicRapidPool.construct S I) :=
  ⟨List.length_replicate, _, _, rfl, .construct bounds.size (by omega), .unused 0 I⟩

theorem get (represents : Represents frees pool) (present : frees[number]? = some free) :
    ∃ chunk, pool.chunk number = some chunk ∧ FreeStack S number free chunk := by
  obtain ⟨first, more, rfl, stack, grown⟩ := represents.chunks
  cases number with
  | zero =>
      cases present
      exact ⟨_, rfl, stack⟩
  | succ i =>
      obtain ⟨chunk, entry, stack⟩ := grown.get (by simpa using present)
      rw [Nat.zero_add] at stack
      exact ⟨chunk, by rw [CDynamicRapidPool.chunk, entry]; rfl, stack⟩

theorem chunk (represents : Represents frees pool) {chunk : CDMRapidPool S}
    (found : pool.chunk number = some chunk) : ∃ free, FreeStack S number free chunk := by
  have inside : number < frees.length := by
    obtain ⟨first, more, rfl, stack, grown⟩ := represents.chunks
    cases number with
    | zero => exact Nat.succ_pos _
    | succ i => exact Nat.succ_lt_succ (grown.lt_length (Option.join_eq_some_iff.mp found))
  obtain ⟨same, entry, stack⟩ := represents.get (List.getElem?_eq_getElem inside)
  rw [found] at entry
  cases entry
  exact ⟨_, stack⟩

theorem setChunk {chunk : CDMRapidPool S} (represents : Represents frees pool)
    (inside : number < frees.length) (stack : FreeStack S number free chunk) :
    Represents (frees.set number free) (pool.setChunk number chunk) := by
  obtain ⟨first, more, rfl, own, grown⟩ := represents.chunks
  cases number with
  | zero => exact ⟨represents.length, free, more, rfl, stack, grown⟩
  | succ i =>
      refine ⟨List.length_set.trans represents.length, first, _, rfl, own,
        grown.set (Nat.lt_of_succ_lt_succ inside) ?_⟩
      rwa [Nat.zero_add]

theorem fetchObj (represents : Represents frees pool) (bounds : Bounds S I)
    (taken : take S (I + 1) frees = some (slot, after)) :
    ∃ chunk, (∀ asserts, pool.fetchObj asserts =
        .ok (some slot, pool.setChunk slot.chunk chunk)) ∧
      Represents after (pool.setChunk slot.chunk chunk) := by
  obtain ⟨first, more, rfl, stack, grown⟩ := represents.chunks
  have length := represents.length
  cases first with
  | nil =>
      have spent : pool.oDefaultRapidPool.empty = true := stack.empty_iff.mpr rfl
      rw [take_cons_nil, Option.map_eq_some_iff] at taken
      obtain ⟨⟨found, rest⟩, taken, same⟩ := taken
      cases same
      rw [← length] at taken
      have index := bounds.index
      obtain ⟨chunk, fetched, inside, later⟩ :=
        grown.fetch bounds.positive bounds.size (by omega) taken
      simp only [Nat.zero_add] at fetched
      refine ⟨chunk, fun asserts => ?_, List.length_set.trans length, [], rest, rfl, stack, later⟩
      simp only [CDynamicRapidPool.fetchObj, spent, fetched]
      rfl
  | cons index rest =>
      obtain ⟨chunk, fetched, popped⟩ := stack.fetchObj
      cases taken
      refine ⟨chunk, fun asserts => ?_, length, rest, more, rfl, popped, grown⟩
      simp only [CDynamicRapidPool.fetchObj, stack.not_empty, fetched]
      rfl

theorem fetchObj_none (represents : Represents frees pool)
    (taken : take S (I + 1) frees = none) : pool.fetchObj false = .ok (none, pool) := by
  obtain ⟨first, more, rfl, stack, grown⟩ := represents.chunks
  cases first with
  | nil =>
      have spent : pool.oDefaultRapidPool.empty = true := stack.empty_iff.mpr rfl
      rw [take_cons_nil, Option.map_eq_none_iff, ← represents.length] at taken
      simp only [CDynamicRapidPool.fetchObj, spent, grown.fetch_none taken]
      rfl
  | cons index rest => cases taken

theorem releaseObj (represents : Represents frees pool) (bounds : Bounds S I)
    (present : frees[slot.chunk]? = some free) (inside : slot.index < S)
    (used : slot.index ∉ free) :
    ∃ chunk, (∀ asserts distance, pool.releaseObj asserts distance (some slot) =
        .ok (pool.setChunk slot.chunk chunk)) ∧
      FreeStack S slot.chunk (slot.index :: free) chunk := by
  obtain ⟨chunk, found, stack⟩ := represents.get present
  obtain ⟨p, header⟩ := stack.header inside
  obtain ⟨after, q, released, pushed⟩ := stack.releaseObj bounds.size header used
  have number := (stack.headers _ p header).1
  have read : pool.getRapidData slot = some p := by rw [getRapidData, found]; exact header
  refine ⟨after.setHeader slot.index q, fun asserts distance => ?_, pushed⟩
  obtain ⟨place, index⟩ := slot
  cases place with
  | zero =>
      cases found
      simp only [CDynamicRapidPool.releaseObj, read, releaseHeader, number, if_pos, released]
      rfl
  | succ i =>
      have entry : pool.arrGrowRapidPool[i]? = some (some chunk) := by
        rw [CDynamicRapidPool.chunk] at found
        exact Option.join_eq_some_iff.mp found
      have below := (List.getElem?_eq_some_iff.mp entry).1
      have written : (pool.arrGrowRapidPool.set i (some after)).modify i
          (Option.map fun chunk => chunk.setHeader index q) =
            pool.arrGrowRapidPool.set i (some (after.setHeader index q)) := by
        rw [List.modify_eq_set_getElem?, List.getElem?_set_self below]
        exact List.set_set _
      rw [represents.length] at below
      simp [CDynamicRapidPool.releaseObj, read, releaseHeader, number, released, entry, below,
        setRapidData, CDynamicRapidPool.setChunk, written, bind, Except.bind, pure, Except.pure]

end Represents

end DmLockFree.CDynamicRapidPool
