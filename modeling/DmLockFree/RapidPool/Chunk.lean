import DmLockFree.Library.FreeList
import DmLockFree.RapidPool.Basic

/-! The free slots of one chunk as a stack: a fetch pops it, a release pushes. -/

set_option autoImplicit false

namespace DmLockFree

@[simp] theorem check_true (asserts : Bool) : check asserts true = .ok () := by
  simp [check]

@[simp] theorem check_false (condition : Bool) : check false condition = .ok () := rfl

namespace CDMRapidPool

open Library

variable {S number slot : Nat} {free rest : List Nat} {pool : CDMRapidPool S}
  {p : SRapidData}

/-- The link in the header of a slot. -/
def link (pool : CDMRapidPool S) (slot : Nat) : Nat :=
  (pool.stRapidData[slot]?.map fun p => p.dwFlag.toNat).getD 0

/-- Chunk `number` with the free slots `free`, the next one to be fetched first. -/
structure FreeStack (S number : Nat) (free : List Nat) (pool : CDMRapidPool S) : Prop where
  length : pool.stRapidData.length = S
  wIndex : pool.wIndex.toNat = number
  headers : ∀ slot p, pool.stRapidData[slot]? = some p →
    p.dwIndex.toNat = number ∧ p.dwFlag.toNat ≤ S ∧ (p.dwUse = false ↔ slot ∈ free)
  linked : Linked pool.link S pool.wFirstFlag.toNat free
  nodup : free.Nodup
  inside : ∀ slot, slot ∈ free → slot < S
  count : pool.qwFreeCount.toNat = free.length

/-- A second release of a slot stops in `abort`, in every build. -/
theorem releaseObj_abort (free : p.dwUse = false) {target : Target} {asserts : Bool} :
    pool.releaseObj asserts p target = .error .abort := by
  simp [releaseObj, free, bind, Except.bind]

namespace FreeStack

theorem header (stack : FreeStack S number free pool) (inside : slot < S) :
    ∃ p, pool.stRapidData[slot]? = some p := by
  rw [← stack.length] at inside
  exact ⟨_, List.getElem?_eq_getElem inside⟩

theorem slot_lt (stack : FreeStack S number free pool)
    (found : pool.stRapidData[slot]? = some p) : slot < S := by
  rw [← stack.length]
  exact (List.getElem?_eq_some_iff.mp found).1

theorem length_le (stack : FreeStack S number free pool) : free.length ≤ S := by
  have within : free ⊆ List.range S := fun slot member =>
    List.mem_range.mpr (stack.inside slot member)
  simpa using (List.subperm_of_subset stack.nodup within).length_le

theorem countP_unused (stack : FreeStack S number free pool) :
    pool.stRapidData.countP (fun p => !p.dwUse) = free.length := by
  have counted : ∀ headers : List SRapidData, headers.countP (fun p => !p.dwUse) =
      (List.range headers.length).countP fun slot => headers[slot]?.any fun p => !p.dwUse := by
    intro headers
    induction headers using List.reverseRecOn with
    | nil => rfl
    | append_singleton headers last ih =>
        have earlier : (List.range headers.length).countP
            (fun slot => (headers ++ [last])[slot]?.any fun p => !p.dwUse) =
              headers.countP fun p => !p.dwUse := by
          rw [ih]
          refine List.countP_congr fun slot member => ?_
          rw [List.getElem?_append_left (List.mem_range.mp member)]
        rw [List.countP_append, List.length_append, List.length_singleton, List.range_succ,
          List.countP_append, earlier]
        simp
  have same : free.Perm ((List.range S).filter fun slot =>
      pool.stRapidData[slot]?.any fun p => !p.dwUse) := by
    refine (List.perm_ext_iff_of_nodup stack.nodup (List.nodup_range.filter _)).mpr fun slot => ?_
    rw [List.mem_filter, List.mem_range]
    constructor
    · intro member
      obtain ⟨p, found⟩ := stack.header (stack.inside slot member)
      have unused := (stack.headers slot p found).2.2.mpr member
      exact ⟨stack.inside slot member, by simp [found, unused]⟩
    · rintro ⟨inside, unused⟩
      obtain ⟨p, found⟩ := stack.header inside
      rw [found] at unused
      exact (stack.headers slot p found).2.2.mp (by simpa using unused)
  rw [counted, stack.length, List.countP_eq_length_filter, same.length_eq]

theorem ownIndex (stack : FreeStack S number free pool)
    (found : pool.stRapidData[slot]? = some p) : pool.ownIndex p = true := by
  rw [CDMRapidPool.ownIndex, (stack.headers slot p found).1, stack.wIndex, beq_self_eq_true]

theorem first_le (stack : FreeStack S number free pool) : pool.wFirstFlag.toNat ≤ S := by
  cases free with
  | nil => exact le_of_eq stack.linked
  | cons slot rest =>
      rw [stack.linked.1]
      exact (stack.inside slot List.mem_cons_self).le

theorem empty_iff (stack : FreeStack S number free pool) : pool.empty = true ↔ free = [] := by
  rw [empty, beq_iff_eq, ← UInt64.toNat_inj, stack.count, UInt64.toNat_zero, eq_comm,
    List.length_eq_zero_iff]

theorem construct (small : S < 65535) (low : number < 32768) :
    FreeStack S number (List.range S) (.construct S (UInt16.ofNat number)) := by
  have found : ∀ slot, slot < S →
      (CDMRapidPool.construct S (UInt16.ofNat number)).stRapidData[slot]? =
        some ⟨false, (UInt16.ofNat number).toBitVec.setWidth 15, BitVec.ofNat 16 (slot + 1)⟩ := by
    intro slot inside
    simp [CDMRapidPool.construct, List.getElem?_range inside]
  have flag : ∀ slot, slot < S → (BitVec.ofNat 16 (slot + 1)).toNat = slot + 1 := by
    intro slot inside
    rw [BitVec.toNat_ofNat, Nat.mod_eq_of_lt (by omega)]
  have index : (UInt16.ofNat number).toNat = number :=
    UInt16.toNat_ofNat_of_lt' (show number < 2 ^ 16 by omega)
  refine ⟨by simp [CDMRapidPool.construct], index, ?_, ?_, List.nodup_range,
    fun slot => List.mem_range.mp, ?_⟩
  · intro slot p header
    have inside : slot < S := by
      have below := (List.getElem?_eq_some_iff.mp header).1
      simpa [CDMRapidPool.construct] using below
    rw [found slot inside] at header
    cases header
    refine ⟨?_, by rw [flag slot inside]; omega, by simp [inside]⟩
    rw [BitVec.toNat_setWidth, UInt16.toNat_toBitVec, index, Nat.mod_eq_of_lt (by omega)]
  · rw [List.range_eq_range']
    have chained : Linked (CDMRapidPool.construct S (UInt16.ofNat number)).link (0 + S) 0
        (List.range' 0 S) := by
      refine Linked.range' fun slot inside => ?_
      rw [link, found slot (by omega), Option.map_some, Option.getD_some, flag slot (by omega)]
    rwa [Nat.zero_add] at chained
  · rw [List.length_range]
    exact UInt64.toNat_ofNat_of_lt' (show S < 2 ^ 64 by omega)

/-- A header that keeps its index and a legal link; the free slots change with
its use bit only. -/
theorem set_header (stack : FreeStack S number free pool)
    (found : pool.stRapidData[slot]? = some p) {q : SRapidData} {others : List Nat}
    (index : q.dwIndex = p.dwIndex) (flag : q.dwFlag.toNat ≤ S)
    (own : q.dwUse = false ↔ slot ∈ others)
    (rest : ∀ other, other ≠ slot → (other ∈ others ↔ other ∈ free)) :
    ∀ other r, (pool.stRapidData.set slot q)[other]? = some r →
      r.dwIndex.toNat = number ∧ r.dwFlag.toNat ≤ S ∧ (r.dwUse = false ↔ other ∈ others) := by
  intro other r header
  by_cases same : other = slot
  · subst same
    rw [List.getElem?_set_self (List.getElem?_eq_some_iff.mp found).1] at header
    cases header
    rw [index]
    exact ⟨(stack.headers other p found).1, flag, own⟩
  · rw [List.getElem?_set_ne (Ne.symm same)] at header
    rw [rest other same]
    exact stack.headers other r header

theorem link_set {q : SRapidData} {pool' : CDMRapidPool S}
    (stored : pool'.stRapidData = pool.stRapidData.set slot q) {other : Nat}
    (apart : other ≠ slot) : pool'.link other = pool.link other := by
  rw [link, stored, List.getElem?_set_ne (Ne.symm apart), link]

theorem not_empty (stack : FreeStack S number (slot :: rest) pool) : pool.empty = false := by
  rw [← Bool.not_eq_true, stack.empty_iff]
  exact List.cons_ne_nil slot rest

theorem fetchObj (stack : FreeStack S number (slot :: rest) pool) :
    ∃ after, (∀ asserts, pool.fetchObj asserts = .ok (some slot, after)) ∧
      FreeStack S number rest after := by
  have first : pool.wFirstFlag.toNat = slot := stack.linked.1
  have inside := stack.inside slot List.mem_cons_self
  obtain ⟨apart, nodup⟩ := List.nodup_cons.mp stack.nodup
  obtain ⟨p, found⟩ := stack.header inside
  obtain ⟨index, flag, free⟩ := stack.headers slot p found
  have unused : p.dwUse = false := free.mpr List.mem_cons_self
  have count := stack.count
  have most := stack.length_le
  rw [List.length_cons] at count most
  have fewer : (pool.qwFreeCount - 1).toNat = rest.length := by
    rw [UInt64.toNat_sub_of_le _ _ (by rw [UInt64.le_iff_toNat_le, UInt64.toNat_one]; omega),
      UInt64.toNat_one]
    omega
  have low : decide ((pool.qwFreeCount - 1).toNat ≤ S) = true := by
    rw [fewer, decide_eq_true_eq]
    omega
  refine ⟨{ pool with
      wFirstFlag := UInt16.ofBitVec p.dwFlag
      qwFreeCount := pool.qwFreeCount - 1
      stRapidData := pool.stRapidData.set slot { p with dwUse := true } }, ?_, ?_⟩
  · intro asserts
    simp [CDMRapidPool.fetchObj, stack.not_empty, first, inside, found, unused,
      stack.ownIndex found, low, bind, Except.bind, pure, Except.pure]
  · refine ⟨List.length_set.trans stack.length, stack.wIndex, ?_, ?_, nodup,
      fun other member => stack.inside other (List.mem_cons_of_mem _ member), fewer⟩
    · refine stack.set_header found rfl flag ?_ fun other different => ?_
      · simpa using apart
      · rw [List.mem_cons, or_iff_right different]
    · have linked := stack.linked.2
      rw [link, found, Option.map_some, Option.getD_some] at linked
      refine linked.congr fun other member => link_set rfl ?_
      intro same
      subst same
      exact apart member

theorem releaseObj (stack : FreeStack S number free pool) (small : S < 65535)
    (found : pool.stRapidData[slot]? = some p) (used : slot ∉ free) :
    ∃ after q, (∀ asserts, pool.releaseObj asserts p (.slot slot) = .ok (after, q)) ∧
      FreeStack S number (slot :: free) (after.setHeader slot q) := by
  have inside := stack.slot_lt found
  obtain ⟨index, flag, unused⟩ := stack.headers slot p found
  have inUse : p.dwUse = true := by
    rw [← Bool.not_eq_false, unused]
    exact used
  have nodup : (slot :: free).Nodup := List.nodup_cons.mpr ⟨used, stack.nodup⟩
  have below : ∀ other, other ∈ slot :: free → other < S := by
    rintro other (_ | ⟨_, member⟩)
    · exact inside
    · exact stack.inside other member
  have most : free.length + 1 ≤ S := by
    have within : slot :: free ⊆ List.range S := fun other member =>
      List.mem_range.mpr (below other member)
    simpa using (List.subperm_of_subset nodup within).length_le
  have more : (pool.qwFreeCount + 1).toNat = free.length + 1 := by
    rw [UInt64.toNat_add, UInt64.toNat_one, stack.count, Nat.mod_eq_of_lt (by omega)]
  have low : decide ((pool.qwFreeCount + 1).toNat ≤ S) = true := by
    rw [more, decide_eq_true_eq]
    exact most
  have first : (UInt16.ofNat slot).toNat = slot :=
    UInt16.toNat_ofNat_of_lt' (show slot < 2 ^ 16 by omega)
  refine ⟨{ pool with
      wFirstFlag := UInt16.ofNat slot
      qwFreeCount := pool.qwFreeCount + 1 },
    { p with dwFlag := pool.wFirstFlag.toBitVec, dwUse := false }, ?_, ?_⟩
  · intro asserts
    simp [CDMRapidPool.releaseObj, inUse, stack.ownIndex found, Target.isInside, Target.distance,
      inside, low, bind, Except.bind, pure, Except.pure, -UInt64.toNat_add]
  · refine ⟨List.length_set.trans stack.length, stack.wIndex, ?_, ?_, nodup, below, more⟩
    · refine stack.set_header found rfl stack.first_le (by simp) fun other different => ?_
      rw [List.mem_cons, or_iff_right different]
    · change Linked _ S (UInt16.ofNat slot).toNat _
      rw [first]
      refine stack.linked.push used ?_ fun other different => link_set rfl different
      rw [link, setHeader, List.getElem?_set_self (List.getElem?_eq_some_iff.mp found).1]
      rfl

end FreeStack

end CDMRapidPool

end DmLockFree
