import DmLockFree.RapidPool.Chunk

/-! Without assertions the number of a chunk does not matter, not even one that
the 15 bits of `dwIndex` cannot hold. -/

set_option autoImplicit false

namespace DmLockFree

/-- The header in chunk 0. -/
def SRapidData.renumber (p : SRapidData) : SRapidData := { p with dwIndex := 0 }

namespace CDMRapidPool

open Library

variable {S slot : Nat} {free rest : List Nat} {pool after : CDMRapidPool S} {p : SRapidData}
  {wIndex : UInt16} {asserts : Bool}

/-- The same chunk as chunk 0. -/
def renumber (pool : CDMRapidPool S) : CDMRapidPool S :=
  { pool with wIndex := 0, stRapidData := pool.stRapidData.map .renumber }

/-- `ReleaseObj` for a slot of this chunk. -/
def releaseSlot (asserts : Bool) (pool : CDMRapidPool S) (slot : Nat) :
    Except Stop (CDMRapidPool S) := do
  let some p := pool.stRapidData[slot]? | .error .undefined
  let (pool, p) ← pool.releaseObj asserts p (.slot slot)
  return pool.setHeader slot p

theorem renumber_construct : (construct S wIndex).renumber = construct S 0 := by
  simp only [renumber, construct, List.map_map]
  rfl

theorem renumber_getElem? : pool.renumber.stRapidData[slot]? =
    pool.stRapidData[slot]?.map SRapidData.renumber := List.getElem?_map

theorem renumber_link : pool.renumber.link = pool.link := by
  funext slot
  rw [link, renumber_getElem?, link, Option.map_map]
  rfl

theorem renumber_fetchObj : pool.renumber.fetchObj false =
    (pool.fetchObj false).map fun (slot, after) => (slot, after.renumber) := by
  have empty : pool.renumber.empty = pool.empty := rfl
  have first : pool.renumber.wFirstFlag = pool.wFirstFlag := rfl
  simp only [fetchObj, empty, first, check_false, renumber_getElem?]
  cases pool.empty with
  | true => rfl
  | false =>
      cases found : pool.stRapidData[pool.wFirstFlag.toNat]? with
      | none => rfl
      | some p =>
          obtain ⟨use, index, flag⟩ := p
          cases use with
          | true => rfl
          | false =>
              simp [renumber, SRapidData.renumber, List.map_set, bind, Except.bind, pure,
                Except.pure, Except.map]

theorem renumber_releaseSlot : pool.renumber.releaseSlot false slot =
    (pool.releaseSlot false slot).map renumber := by
  simp only [releaseSlot, renumber_getElem?]
  cases found : pool.stRapidData[slot]? with
  | none => rfl
  | some p =>
      obtain ⟨use, index, flag⟩ := p
      cases use with
      | false => rfl
      | true =>
          simp [releaseObj, renumber, SRapidData.renumber, setHeader, List.map_set, bind,
            Except.bind, pure, Except.pure, Except.map]

theorem FreeStack.releaseSlot {number : Nat} (stack : FreeStack S number free pool)
    (small : S < 65535) (inside : slot < S) (used : slot ∉ free) :
    ∃ after, (∀ asserts, pool.releaseSlot asserts slot = .ok after) ∧
      FreeStack S number (slot :: free) after := by
  obtain ⟨p, found⟩ := stack.header inside
  obtain ⟨after, q, released, pushed⟩ := stack.releaseObj small found used
  refine ⟨_, ?_, pushed⟩
  intro asserts
  simp only [CDMRapidPool.releaseSlot, found, released]
  rfl

def indices (pool : CDMRapidPool S) : List (BitVec 15) := pool.stRapidData.map SRapidData.dwIndex

theorem indices_set {q : SRapidData} (found : pool.stRapidData[slot]? = some p)
    (same : q.dwIndex = p.dwIndex) :
    (pool.stRapidData.set slot q).map SRapidData.dwIndex = pool.indices := by
  have kept : pool.indices[slot]? = some q.dwIndex := by
    rw [indices, List.getElem?_map, found, Option.map_some, same]
  rw [List.map_set]
  obtain ⟨inside, entry⟩ := List.getElem?_eq_some_iff.mp kept
  rw [← entry]
  exact List.set_getElem_self inside

theorem fetchObj_indices {found : Option Nat} (fetched : pool.fetchObj false = .ok (found, after)) :
    after.wIndex = pool.wIndex ∧ after.indices = pool.indices := by
  simp only [fetchObj, check_false] at fetched
  cases empty : pool.empty with
  | true =>
      simp only [empty] at fetched
      cases fetched
      exact ⟨rfl, rfl⟩
  | false =>
      simp only [empty] at fetched
      cases header : pool.stRapidData[pool.wFirstFlag.toNat]? with
      | none =>
          simp only [header] at fetched
          cases fetched
      | some p =>
          simp only [header] at fetched
          obtain ⟨use, index, flag⟩ := p
          cases use with
          | true => cases fetched
          | false =>
              cases fetched
              exact ⟨rfl, indices_set header rfl⟩

theorem releaseSlot_indices (released : pool.releaseSlot false slot = .ok after) :
    after.wIndex = pool.wIndex ∧ after.indices = pool.indices := by
  unfold releaseSlot at released
  cases header : pool.stRapidData[slot]? with
  | none =>
      simp only [header] at released
      cases released
  | some p =>
      simp only [header] at released
      obtain ⟨use, index, flag⟩ := p
      cases use with
      | false => cases released
      | true =>
          cases released
          exact ⟨rfl, indices_set header rfl⟩

/-- A chunk with any number: the stack of its free slots, and the same truncated
number in every header. -/
structure Stacked (wIndex : UInt16) (free : List Nat) (pool : CDMRapidPool S) : Prop where
  stack : FreeStack S 0 free pool.renumber
  number : pool.wIndex = wIndex
  indices : pool.indices = List.replicate S (wIndex.toBitVec.setWidth 15)

namespace Stacked

theorem construct (small : S < 65535) : Stacked wIndex (List.range S) (.construct S wIndex) where
  stack := by
    rw [renumber_construct]
    exact .construct small (Nat.zero_lt_succ _)
  number := rfl
  indices := by
    rw [List.eq_replicate_iff]
    constructor
    · simp only [CDMRapidPool.indices, CDMRapidPool.construct, List.length_map, List.length_range]
    · intro index member
      simp only [CDMRapidPool.indices, CDMRapidPool.construct, List.map_map, List.mem_map] at member
      obtain ⟨_, _, rfl⟩ := member
      rfl

theorem header (stacked : Stacked wIndex free pool) (inside : slot < S) :
    ∃ p, pool.stRapidData[slot]? = some p ∧ (p.dwUse = false ↔ slot ∈ free) := by
  obtain ⟨q, found⟩ := stacked.stack.header inside
  have unused := (stacked.stack.headers slot q found).2.2
  rw [renumber_getElem?] at found
  obtain ⟨p, entry, rfl⟩ := Option.map_eq_some_iff.mp found
  exact ⟨p, entry, unused⟩

/-- A number that fits the headers. -/
theorem numbered (stacked : Stacked wIndex free pool) (low : wIndex.toNat < 2 ^ 15) :
    FreeStack S wIndex.toNat free pool := by
  have stack := stacked.stack
  constructor
  case length =>
      have length : (pool.stRapidData.map SRapidData.renumber).length = S := stack.length
      rwa [List.length_map] at length
  case wIndex => rw [stacked.number]
  case headers =>
      intro slot p found
      have other : pool.renumber.stRapidData[slot]? = some p.renumber := by
        rw [renumber_getElem?, found]
        rfl
      obtain ⟨_, flag, unused⟩ := stack.headers slot _ other
      have index : pool.indices[slot]? = some p.dwIndex := by
        rw [CDMRapidPool.indices, List.getElem?_map, found]
        rfl
      rw [stacked.indices] at index
      have own := List.eq_of_mem_replicate (List.mem_of_getElem? index)
      refine ⟨?_, flag, unused⟩
      rw [own, BitVec.toNat_setWidth, UInt16.toNat_toBitVec, Nat.mod_eq_of_lt low]
  case linked =>
      have linked := stack.linked
      rw [renumber_link] at linked
      exact linked
  case nodup => exact stack.nodup
  case inside => exact stack.inside
  case count => exact stack.count

theorem fetchObj (stacked : Stacked wIndex (slot :: rest) pool)
    (low : asserts = true → wIndex.toNat < 2 ^ 15) :
    ∃ after, pool.fetchObj asserts = .ok (some slot, after) ∧ Stacked wIndex rest after := by
  obtain ⟨other, fetched, stack⟩ := stacked.stack.fetchObj
  have plain := fetched false
  rw [renumber_fetchObj] at plain
  cases result : pool.fetchObj false with
  | error stop =>
      rw [result] at plain
      cases plain
  | ok pair =>
      obtain ⟨found, after⟩ := pair
      rw [result] at plain
      cases plain
      obtain ⟨number, indices⟩ := fetchObj_indices result
      refine ⟨after, ?_, stack, number.trans stacked.number, indices.trans stacked.indices⟩
      cases asserts with
      | false => exact result
      | true =>
          obtain ⟨same, all, _⟩ := (stacked.numbered (low rfl)).fetchObj
          rw [all, ← result, all]

theorem fetchObj_none (stacked : Stacked wIndex [] pool) :
    pool.fetchObj asserts = .ok (none, pool) := by
  have empty : pool.empty = true := stacked.stack.empty_iff.mpr rfl
  simp only [CDMRapidPool.fetchObj, empty]
  rfl

theorem releaseSlot (stacked : Stacked wIndex free pool) (small : S < 65535)
    (low : asserts = true → wIndex.toNat < 2 ^ 15) (inside : slot < S) (used : slot ∉ free) :
    ∃ after, pool.releaseSlot asserts slot = .ok after ∧ Stacked wIndex (slot :: free) after := by
  obtain ⟨other, released, stack⟩ := stacked.stack.releaseSlot small inside used
  have plain := released false
  rw [renumber_releaseSlot] at plain
  cases result : pool.releaseSlot false slot with
  | error stop =>
      rw [result] at plain
      cases plain
  | ok after =>
      rw [result] at plain
      cases plain
      obtain ⟨number, indices⟩ := releaseSlot_indices result
      refine ⟨after, ?_, stack, number.trans stacked.number, indices.trans stacked.indices⟩
      cases asserts with
      | false => exact result
      | true =>
          obtain ⟨same, all, _⟩ := (stacked.numbered (low rfl)).releaseSlot small inside used
          rw [all, ← result, all]

theorem releaseSlot_abort (stacked : Stacked wIndex free pool) (unused : slot ∈ free) :
    pool.releaseSlot asserts slot = .error .abort := by
  obtain ⟨p, found, inUse⟩ := stacked.header (stacked.stack.inside slot unused)
  simp only [CDMRapidPool.releaseSlot, found, releaseObj_abort (inUse.mpr unused)]
  rfl

end Stacked

end CDMRapidPool

end DmLockFree
