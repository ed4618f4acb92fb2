import DmLockFree.RapidPool.Basic
import Mathlib.Algebra.BigOperators.Group.List.Basic
import Mathlib.Data.List.Range

/-! What a pool is for: chunks of `size` slots, each with a stack of free slots.
A fetch pops the first stack that is not empty or opens a new chunk; a release
pushes on the stack of the slot's own chunk. -/

set_option autoImplicit false

namespace DmLockFree

abbrev FreeSlots := List (List Nat)

namespace FreeSlots

variable {size limit chunk : Nat} {frees after : FreeSlots} {free : List Nat} {slot : Slot}
  {live : List Slot}

def takeFirst : FreeSlots → Option (Slot × FreeSlots)
  | [] => none
  | [] :: more =>
      (takeFirst more).map fun (slot, more) => (⟨slot.chunk + 1, slot.index⟩, [] :: more)
  | (index :: free) :: more => some (⟨0, index⟩, free :: more)

/-- The free slots of a new chunk whose first slot is taken. -/
def opened (size : Nat) : List Nat := List.range' 1 (size - 1)

def take (size limit : Nat) (frees : FreeSlots) : Option (Slot × FreeSlots) :=
  match takeFirst frees with
  | some taken => some taken
  | none =>
      if frees.length < limit then some (⟨frees.length, 0⟩, frees ++ [opened size]) else none

def put (frees : FreeSlots) (slot : Slot) : FreeSlots :=
  frees.modify slot.chunk (slot.index :: ·)

theorem takeFirst_eq_none_iff : takeFirst frees = none ↔ ∀ free, free ∈ frees → free = [] := by
  induction frees with
  | nil => simp [takeFirst]
  | cons free more ih =>
      cases free with
      | nil => simp [takeFirst, ih]
      | cons index rest => simp [takeFirst]

theorem takeFirst_cases (taken : takeFirst frees = some (slot, after)) :
    ∃ free, frees[slot.chunk]? = some (slot.index :: free) ∧ after = frees.set slot.chunk free := by
  induction frees generalizing slot after with
  | nil => cases taken
  | cons first more ih =>
      cases first with
      | nil =>
          simp only [takeFirst, Option.map_eq_some_iff, Prod.exists] at taken
          obtain ⟨found, rest, taken, same⟩ := taken
          cases same
          obtain ⟨free, present, rfl⟩ := ih taken
          exact ⟨free, by rw [List.getElem?_cons_succ, present], rfl⟩
      | cons index rest =>
          cases taken
          exact ⟨rest, rfl, rfl⟩

theorem take_cases (taken : take size limit frees = some (slot, after)) :
    (∃ free, frees[slot.chunk]? = some (slot.index :: free) ∧
      after = frees.set slot.chunk free) ∨
    (frees.length < limit ∧ (∀ free, free ∈ frees → free = []) ∧
      slot = ⟨frees.length, 0⟩ ∧ after = frees ++ [opened size]) := by
  unfold take at taken
  split at taken
  case h_1 found =>
      cases taken
      exact .inl (takeFirst_cases found)
  case h_2 none =>
      split at taken <;> cases taken
      case isTrue room => exact .inr ⟨room, takeFirst_eq_none_iff.mp none, rfl, rfl⟩

/-- The chunks before that of the first free slot have none. -/
theorem takeFirst_iff : (∃ after, takeFirst frees = some (slot, after)) ↔
    (∀ number, number < slot.chunk → frees[number]? = some []) ∧
      ∃ free, frees[slot.chunk]? = some (slot.index :: free) := by
  induction frees generalizing slot with
  | nil => simp [takeFirst]
  | cons first more ih =>
      obtain ⟨chunk, index⟩ := slot
      cases first with
      | nil =>
          cases chunk with
          | zero => simp [takeFirst]
          | succ chunk =>
              constructor
              · rintro ⟨after, same⟩
                obtain ⟨⟨found, later⟩, taken, same⟩ := Option.map_eq_some_iff.mp same
                cases same
                obtain ⟨spent, filled⟩ := ih.mp ⟨later, taken⟩
                refine ⟨fun number below => ?_, filled⟩
                cases number with
                | zero => rfl
                | succ number => exact spent number (Nat.lt_of_succ_lt_succ below)
              · rintro ⟨spent, filled⟩
                obtain ⟨later, taken⟩ := (@ih ⟨chunk, index⟩).mpr
                  ⟨fun number below => spent (number + 1) (Nat.succ_lt_succ below), filled⟩
                exact ⟨[] :: later, by simp only [takeFirst, taken, Option.map_some]⟩
      | cons top free =>
          cases chunk with
          | zero => simp [takeFirst, eq_comm]
          | succ chunk =>
              constructor
              · rintro ⟨after, same⟩
                cases same
              · rintro ⟨spent, _⟩
                cases spent 0 (Nat.succ_pos chunk)

/-- A slot of a chunk that exists is the first free one. -/
theorem take_placed (taken : take size limit frees = some (slot, after))
    (placed : slot.chunk < frees.length) : takeFirst frees = some (slot, after) := by
  unfold take at taken
  split at taken
  case h_1 found =>
      cases taken
      exact found
  case h_2 =>
      split at taken <;> cases taken
      exact absurd placed (Nat.lt_irrefl _)

theorem length_le_take (taken : take size limit frees = some (slot, after)) :
    frees.length ≤ after.length := by
  rcases take_cases taken with ⟨free, _, rfl⟩ | ⟨_, _, _, rfl⟩
  · exact (List.length_set ..).ge
  · simp

theorem take_eq_none_iff : take size limit frees = none ↔
    limit ≤ frees.length ∧ ∀ free, free ∈ frees → free = [] := by
  rw [← takeFirst_eq_none_iff, take]
  cases takeFirst frees with
  | none => simp
  | some taken => simp

theorem take_cons_nil : take size (limit + 1) ([] :: frees) =
    (take size limit frees).map fun (slot, more) =>
      (⟨slot.chunk + 1, slot.index⟩, [] :: more) := by
  simp only [take, takeFirst]
  cases takeFirst frees with
  | some taken => rfl
  | none =>
      by_cases room : frees.length < limit
      · simp [room]
      · simp [room]

/-- The slots of the open chunks that are not free are the live ones. -/
structure Accounts (size limit : Nat) (frees : FreeSlots) (live : List Slot) : Prop where
  positive : 0 < frees.length
  fits : frees.length ≤ limit
  free : ∀ (chunk : Nat) (free : List Nat), frees[chunk]? = some free →
    free.Nodup ∧ ∀ index, index ∈ free → index < size
  nodup : live.Nodup
  live_iff : ∀ slot, slot ∈ live ↔
    ∃ free, frees[slot.chunk]? = some free ∧ slot.index < size ∧ slot.index ∉ free
  total : (frees.map List.length).sum + live.length = size * frees.length

theorem Accounts.perm {other : List Slot} (accounts : Accounts size limit frees live)
    (same : live.Perm other) : Accounts size limit frees other where
  positive := accounts.positive
  fits := accounts.fits
  free := accounts.free
  nodup := same.nodup_iff.mp accounts.nodup
  live_iff slot := same.mem_iff.symm.trans (accounts.live_iff slot)
  total := by
    rw [← same.length_eq]
    exact accounts.total

theorem sum_set {former : List Nat} (present : frees[chunk]? = some former) :
    ((frees.set chunk free).map List.length).sum + former.length =
      (frees.map List.length).sum + free.length := by
  induction frees generalizing chunk with
  | nil => cases present
  | cons first more ih =>
      cases chunk with
      | zero =>
          cases present
          simp only [List.set_cons_zero, List.map_cons, List.sum_cons]
          omega
      | succ chunk =>
          have rest := ih (by simpa using present)
          simp only [List.set_cons_succ, List.map_cons, List.sum_cons]
          omega

theorem Accounts.start : Accounts size (limit + 1) [List.range size] [] := by
  refine ⟨by simp, by simp, ?_, List.nodup_nil, ?_, by simp⟩
  · rintro (_ | chunk) free present
    · cases present
      exact ⟨List.nodup_range, fun index => List.mem_range.mp⟩
    · simp at present
  · rintro ⟨_ | chunk, index⟩ <;> simp

theorem Accounts.pop (accounts : Accounts size limit frees live)
    (present : frees[slot.chunk]? = some (slot.index :: free)) :
    Accounts size limit (frees.set slot.chunk free) (slot :: live) := by
  have inside := (List.getElem?_eq_some_iff.mp present).1
  obtain ⟨nodup, below⟩ := accounts.free _ _ present
  obtain ⟨apart, nodup⟩ := List.nodup_cons.mp nodup
  have dead : slot ∉ live := by
    rw [accounts.live_iff]
    rintro ⟨stack, found, -, used⟩
    rw [present] at found
    cases found
    exact used List.mem_cons_self
  refine ⟨?_, ?_, ?_, List.nodup_cons.mpr ⟨dead, accounts.nodup⟩, ?_, ?_⟩
  · rw [List.length_set]; exact accounts.positive
  · rw [List.length_set]; exact accounts.fits
  · intro chunk stack found
    by_cases same : chunk = slot.chunk
    · subst same
      rw [List.getElem?_set_self inside] at found
      cases found
      exact ⟨nodup, fun index member => below index (List.mem_cons_of_mem _ member)⟩
    · rw [List.getElem?_set_ne (Ne.symm same)] at found
      exact accounts.free chunk stack found
  · intro other
    rw [List.mem_cons, accounts.live_iff]
    by_cases same : other.chunk = slot.chunk
    · rw [same, List.getElem?_set_self inside, present]
      obtain ⟨chunk, index⟩ := other
      obtain ⟨chunk', index'⟩ := slot
      cases same
      simp only [Slot.mk.injEq, true_and, Option.some.injEq, exists_eq_left', List.mem_cons,
        not_or] at apart below ⊢
      constructor
      · rintro (rfl | ⟨less, different, used⟩)
        · exact ⟨below _ (.inl rfl), apart⟩
        · exact ⟨less, used⟩
      · rintro ⟨less, used⟩
        by_cases equal : index = index'
        · exact .inl equal
        · exact .inr ⟨less, equal, used⟩
    · have different : other ≠ slot := fun equal => same (by rw [equal])
      rw [List.getElem?_set_ne (Ne.symm same), or_iff_right different]
  · have sum := @sum_set slot.chunk frees free _ present
    have total := accounts.total
    simp only [List.length_cons, List.length_set] at sum ⊢
    omega

theorem mem_opened {index : Nat} (positive : 1 ≤ size) :
    index ∈ opened size ↔ 1 ≤ index ∧ index < size := by
  rw [opened, List.mem_range'_1]
  omega

theorem Accounts.grow (accounts : Accounts size limit frees live) (positive : 1 ≤ size)
    (room : frees.length < limit) :
    Accounts size limit (frees ++ [opened size]) (⟨frees.length, 0⟩ :: live) := by
  have fresh : ∀ index, (⟨frees.length, index⟩ : Slot) ∉ live := by
    intro index alive
    obtain ⟨free, found, -⟩ := (accounts.live_iff _).mp alive
    rw [List.getElem?_eq_none le_rfl] at found
    cases found
  refine ⟨by simp, by rw [List.length_append]; exact room, ?_,
    List.nodup_cons.mpr ⟨fresh 0, accounts.nodup⟩, ?_, ?_⟩
  · intro chunk free found
    rcases Nat.lt_trichotomy chunk frees.length with old | rfl | beyond
    · rw [List.getElem?_append_left old] at found
      exact accounts.free chunk free found
    · rw [List.getElem?_concat_length] at found
      cases found
      exact ⟨List.nodup_range', fun index member => ((mem_opened positive).mp member).2⟩
    · rw [List.getElem?_eq_none (by rw [List.length_append]; exact beyond)] at found
      cases found
  · rintro ⟨chunk, index⟩
    rw [List.mem_cons]
    rcases Nat.lt_trichotomy chunk frees.length with old | rfl | beyond
    · have different : (⟨chunk, index⟩ : Slot) ≠ ⟨frees.length, 0⟩ := by
        intro same
        cases same
        exact absurd old (Nat.lt_irrefl _)
      rw [or_iff_right different, accounts.live_iff, List.getElem?_append_left old]
    · rw [or_iff_left (fresh index), List.getElem?_concat_length]
      simp only [Slot.mk.injEq, true_and, Option.some.injEq, exists_eq_left', mem_opened positive]
      omega
    · have different : (⟨chunk, index⟩ : Slot) ≠ ⟨frees.length, 0⟩ := by
        intro same
        cases same
        exact absurd beyond (Nat.lt_irrefl _)
      rw [or_iff_right different, accounts.live_iff, List.getElem?_eq_none beyond.le,
        List.getElem?_eq_none (by rw [List.length_append]; exact beyond)]
  · have total := accounts.total
    simp only [List.map_append, List.map_cons, List.map_nil, List.sum_append, List.sum_cons,
      List.sum_nil, List.length_cons, List.length_append, List.length_nil, opened,
      List.length_range', Nat.mul_add]
    omega

theorem put_eq (present : frees[slot.chunk]? = some free) :
    put frees slot = frees.set slot.chunk (slot.index :: free) := by
  rw [put, List.modify_eq_set_getElem?, present]
  rfl

theorem Accounts.put (accounts : Accounts size limit frees live) (alive : slot ∈ live) :
    Accounts size limit (put frees slot) (live.erase slot) := by
  obtain ⟨free, present, less, used⟩ := (accounts.live_iff slot).mp alive
  have inside := (List.getElem?_eq_some_iff.mp present).1
  obtain ⟨nodup, below⟩ := accounts.free _ _ present
  rw [put_eq present]
  refine ⟨?_, ?_, ?_, accounts.nodup.erase slot, ?_, ?_⟩
  · rw [List.length_set]; exact accounts.positive
  · rw [List.length_set]; exact accounts.fits
  · intro chunk stack found
    by_cases same : chunk = slot.chunk
    · subst same
      rw [List.getElem?_set_self inside] at found
      cases found
      refine ⟨List.nodup_cons.mpr ⟨used, nodup⟩, ?_⟩
      rintro index (_ | ⟨_, member⟩)
      · exact less
      · exact below index member
    · rw [List.getElem?_set_ne (Ne.symm same)] at found
      exact accounts.free chunk stack found
  · intro other
    rw [accounts.nodup.mem_erase_iff, accounts.live_iff]
    by_cases same : other.chunk = slot.chunk
    · rw [same, List.getElem?_set_self inside, present]
      obtain ⟨chunk, index⟩ := other
      obtain ⟨chunk', index'⟩ := slot
      cases same
      simp only [ne_eq, Slot.mk.injEq, true_and, Option.some.injEq, exists_eq_left', List.mem_cons,
        not_or]
      tauto
    · have different : other ≠ slot := fun equal => same (by rw [equal])
      rw [List.getElem?_set_ne (Ne.symm same), and_iff_right different]
  · have sum := @sum_set slot.chunk frees (slot.index :: free) _ present
    have total := accounts.total
    have some := List.length_pos_of_mem alive
    rw [List.length_erase_of_mem alive]
    simp only [List.length_cons, List.length_set] at sum ⊢
    omega

theorem Accounts.take (accounts : Accounts size limit frees live) (positive : 1 ≤ size)
    (taken : take size limit frees = some (slot, after)) :
    slot ∉ live ∧ Accounts size limit after (slot :: live) := by
  have next : Accounts size limit after (slot :: live) := by
    rcases take_cases taken with ⟨free, present, rfl⟩ | ⟨room, -, rfl, rfl⟩
    · exact accounts.pop present
    · exact accounts.grow positive room
  exact ⟨(List.nodup_cons.mp next.nodup).1, next⟩

/-- The pool refuses exactly when all of its slots are live. -/
theorem Accounts.take_eq_none_iff (accounts : Accounts size limit frees live)
    (positive : 1 ≤ size) :
    FreeSlots.take size limit frees = none ↔ live.length = size * limit := by
  have total := accounts.total
  have fits := accounts.fits
  have none : (∀ free, free ∈ frees → free = []) ↔ (frees.map List.length).sum = 0 := by
    simp [List.sum_eq_zero_iff_forall_eq_nat]
  rw [FreeSlots.take_eq_none_iff, none]
  constructor
  · rintro ⟨all, zero⟩
    rw [le_antisymm fits all] at total
    omega
  · intro full
    have more := Nat.mul_le_mul_left size fits
    have zero : (frees.map List.length).sum = 0 := by omega
    refine ⟨?_, zero⟩
    have same : size * limit = size * frees.length := by omega
    exact le_of_eq (Nat.eq_of_mul_eq_mul_left positive same)

end FreeSlots

end DmLockFree
