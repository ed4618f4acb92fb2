import DmLockFree.ConcurrentQueue.Implicit.Indexed

/-! A larger ring takes over what the one before it has. -/

set_option autoImplicit false

namespace DmLockFree.ConcurrentQueue

variable {index : BlockIndex} {slots : Slots} {used : Nat → Option Nat} {pointer entry number : Nat}
  {header : BlockIndexHeader}

/-- The ring that replaces the one of a header. -/
def BlockIndex.larger (index : BlockIndex) (pointer : Nat) (header : BlockIndexHeader) :
    BlockIndexHeader where
  capacity := index.nextBlockIndexCapacity
  index := header.index.rotate ((index.tails pointer).toNat + 1) ++
    List.range' index.entries.length header.capacity.toNat

theorem newBlockIndex_eq (current : index.blockIndex = some pointer)
    (here : index.header pointer = some header) :
    index.newBlockIndex =
      { nextBlockIndexCapacity := index.nextBlockIndexCapacity <<< 1
        blockIndex := some index.headers.length
        headers := index.headers ++ [index.larger pointer header]
        tails := Function.update index.tails index.headers.length
          ((header.capacity - 1) &&& (index.nextBlockIndexCapacity - 1))
        entries := index.entries ++
          List.replicate header.capacity.toNat ⟨INVALID_BLOCK_BASE, none⟩ } := by
  have capacity : index.prevCapacity = header.capacity := by
    simp [BlockIndex.prevCapacity, current, here]
  have previous : index.previous = header.index.rotate ((index.tails pointer).toNat + 1) := by
    simp [BlockIndex.previous, current, here]
  simp [BlockIndex.newBlockIndex, BlockIndex.larger, capacity, previous, current]

/-- What the larger ring covers. -/
def Slots.grow (slots : Slots) (pointer fresh capacity : Nat) : Slots :=
  { slots with
    window := Function.update slots.window fresh
      { offset := capacity + 2 * capacity * (slots.window pointer).top - (slots.window pointer).top
        low := max (slots.window pointer).low ((slots.window pointer).top - capacity)
        top := (slots.window pointer).top
        reach := (slots.window pointer).top } }

namespace Indexed

section Grow

variable (indexed : Indexed index slots used) (current : index.blockIndex = some pointer)
  (here : index.header pointer = some header)

include indexed current here

theorem shiftLeft_next (fits : index.nextBlockIndexCapacity.toNat ≤ 2 ^ 58) :
    (index.nextBlockIndexCapacity <<< 1).toNat = 2 * (2 * header.capacity.toNat) := by
  obtain ⟨covers, _, next⟩ := indexed.ring current here
  have shifted : (index.nextBlockIndexCapacity <<< 1).toNat =
      index.nextBlockIndexCapacity.toNat <<< 1 % 2 ^ 64 := UInt64.toNat_shiftLeft ..
  rw [shifted, Nat.shiftLeft_eq, next]
  omega

theorem larger_covers (fits : index.nextBlockIndexCapacity.toNat ≤ 2 ^ 58) :
    Covers (index.entries.length + header.capacity.toNat) slots.slot (index.larger pointer header)
      ((header.capacity - 1) &&& (index.nextBlockIndexCapacity - 1))
      { offset := header.capacity.toNat +
          2 * header.capacity.toNat * (slots.window pointer).top - (slots.window pointer).top
        low := max (slots.window pointer).low
          ((slots.window pointer).top - header.capacity.toNat)
        top := (slots.window pointer).top
        reach := (slots.window pointer).top } := by
  obtain ⟨covers, _, next⟩ := indexed.ring current here
  have positive := covers.positive
  have most := covers.le
  obtain ⟨exponent, small, power⟩ := covers.power
  have enough : (slots.window pointer).top ≤
      2 * header.capacity.toNat * (slots.window pointer).top :=
    Nat.le_mul_of_pos_left _ (by omega)
  have double : index.nextBlockIndexCapacity.toNat = 2 ^ (exponent + 1) := by
    rw [next, power, Nat.pow_succ, Nat.mul_comm]
  have fewer : exponent + 1 ≤ 58 := by
    rw [double] at fits
    exact (Nat.pow_le_pow_iff_right (by decide)).mp fits
  have tail : ((header.capacity - 1) &&& (index.nextBlockIndexCapacity - 1)).toNat =
      header.capacity.toNat - 1 := by
    have masked : ((header.capacity - 1) &&& (index.nextBlockIndexCapacity - 1)).toNat =
        (header.capacity - 1).toNat % index.nextBlockIndexCapacity.toNat :=
      @mask_toNat ⟨index.nextBlockIndexCapacity, []⟩ _ double (header.capacity - 1)
    rw [masked, toNat_pred positive, next]
    exact Nat.mod_eq_of_lt (by omega)
  refine ⟨⟨exponent + 1, fewer, double⟩, ?_, ?_, ?_, ?_, ?_, Nat.le_refl _, ?_, ?_⟩
  · simp [BlockIndex.larger, covers.length, next]
    omega
  · rw [BlockIndex.larger, List.nodup_append]
    refine ⟨List.nodup_rotate.mpr covers.nodup, List.nodup_range', fun old member new other => ?_⟩
    have bound := covers.bounded old (List.mem_rotate.mp member)
    have above := (List.mem_range'_1.mp other).1
    omega
  · intro entry member
    rcases List.mem_append.mp member with old | new
    · exact Nat.lt_add_right _ (covers.bounded entry (List.mem_rotate.mp old))
    · exact (List.mem_range'_1.mp new).2
  · intro number low below
    change number < (slots.window pointer).top at below
    have above := Nat.le_trans (Nat.le_max_right ..) low
    have place : (header.capacity.toNat + 2 * header.capacity.toNat * (slots.window pointer).top -
        (slots.window pointer).top + number) % (2 * header.capacity.toNat) =
        header.capacity.toNat + number - (slots.window pointer).top := by
      rw [show header.capacity.toNat + 2 * header.capacity.toNat * (slots.window pointer).top -
        (slots.window pointer).top + number = header.capacity.toNat + number -
          (slots.window pointer).top + 2 * header.capacity.toNat * (slots.window pointer).top by
        omega, Nat.add_mul_mod_self_left, Nat.mod_eq_of_lt (by omega)]
    have around : (header.capacity.toNat + number - (slots.window pointer).top +
        ((index.tails pointer).toNat + 1)) % header.capacity.toNat =
        (slots.window pointer).place header number := by
      rw [Nat.add_mod, covers.tail, Window.place, Nat.add_mod_mod, Nat.mod_add_mod,
        show header.capacity.toNat + number - (slots.window pointer).top +
          ((slots.window pointer).offset + (slots.window pointer).top) =
          (slots.window pointer).offset + number + header.capacity.toNat by omega,
        Nat.add_mod_right, Window.place]
    have rotated : header.capacity.toNat + number - (slots.window pointer).top <
        header.index.length := by
      rw [covers.length]
      omega
    change ((header.index.rotate ((index.tails pointer).toNat + 1)) ++ _)[(_ + number) %
      index.nextBlockIndexCapacity.toNat]? = _
    rw [next, place, List.getElem?_append_left (by rwa [List.length_rotate]),
      List.getElem?_rotate rotated, covers.length, around]
    exact covers.slots number (Nat.le_trans (Nat.le_max_left ..) low)
      (Nat.lt_of_lt_of_le below covers.top_le)
  · exact Nat.max_le.mpr ⟨covers.low_le, Nat.sub_le ..⟩
  · change _ < index.nextBlockIndexCapacity.toNat
    rw [tail, next]
    omega
  · change _ % index.nextBlockIndexCapacity.toNat = (_ + (slots.window pointer).top) %
      index.nextBlockIndexCapacity.toNat
    rw [tail, next, Nat.sub_add_cancel (by omega),
      show header.capacity.toNat + 2 * header.capacity.toNat * (slots.window pointer).top -
        (slots.window pointer).top + (slots.window pointer).top = header.capacity.toNat +
          2 * header.capacity.toNat * (slots.window pointer).top by omega,
      Nat.add_mul_mod_self_left]

omit indexed in
/-- The headers after growth. -/
theorem header_newBlockIndex {other : Nat} {ring : BlockIndexHeader}
    (there : index.newBlockIndex.header other = some ring) :
    (other ≠ index.headers.length ∧ index.header other = some ring) ∨
      other = index.headers.length ∧ ring = index.larger pointer header := by
  rw [newBlockIndex_eq current here, BlockIndex.header] at there
  by_cases last : other = index.headers.length
  · subst last
    rw [List.getElem?_concat_length] at there
    exact .inr ⟨rfl, (Option.some.inj there).symm⟩
  · refine .inl ⟨last, ?_⟩
    have within := (List.getElem?_eq_some_iff.mp there).1
    rw [List.length_append, List.length_singleton] at within
    rwa [List.getElem?_append_left (by omega)] at there

theorem grow (fits : index.nextBlockIndexCapacity.toNat ≤ 2 ^ 58)
    (whole : slots.reach = (slots.window pointer).top) :
    Indexed index.newBlockIndex
      (slots.grow pointer index.headers.length header.capacity.toNat) used := by
  obtain ⟨covers, reach, next⟩ := indexed.ring current here
  have larger := indexed.larger_covers current here fits
  have equal := newBlockIndex_eq current here
  have length : index.newBlockIndex.entries.length =
      index.entries.length + header.capacity.toNat := by
    rw [equal]
    simp
  have fresh : (slots.grow pointer index.headers.length header.capacity.toNat).window
      index.headers.length = _ := Function.update_self ..
  have others : ∀ other, other ≠ index.headers.length →
      (slots.grow pointer index.headers.length header.capacity.toNat).window other =
        slots.window other := fun other apart => Function.update_of_ne apart ..
  have tails : ∀ other, other ≠ index.headers.length →
      index.newBlockIndex.tails other = index.tails other := by
    intro other apart
    rw [equal]
    exact Function.update_of_ne apart ..
  have last : index.newBlockIndex.header index.headers.length =
      some (index.larger pointer header) := by
    rw [equal]
    exact List.getElem?_concat_length
  have pointed : index.newBlockIndex.blockIndex = some index.headers.length := by rw [equal]
  have kept : ∀ {entry : Nat} {found : BlockIndexEntry}, index.entries[entry]? = some found →
      index.newBlockIndex.entries[entry]? = some found := by
    intro entry found there
    rw [equal, List.getElem?_append_left (List.getElem?_eq_some_iff.mp there).1]
    exact there
  refine ⟨fun other ring there => ?_, fun other ring there => ?_, fun other again => ?_,
    fun number block stands => ?_, fun first block stands number above below => ?_⟩
  · rw [length]
    rcases header_newBlockIndex current here there with ⟨apart, old⟩ | ⟨rfl, rfl⟩
    · have old := indexed.covers other ring old
      rw [others other apart, tails other apart]
      exact ⟨old.power, old.length, old.nodup, fun entry member =>
        Nat.lt_add_right _ (old.bounded entry member), old.slots, old.low_le, old.top_le, old.short,
        old.tail⟩
    · have tail : index.newBlockIndex.tails index.headers.length =
          (header.capacity - 1) &&& (index.nextBlockIndexCapacity - 1) := by
        rw [equal]
        exact Function.update_self ..
      rw [fresh, tail]
      exact larger
  · rcases header_newBlockIndex current here there with ⟨apart, old⟩ | ⟨rfl, rfl⟩
    · rw [others other apart]
      exact indexed.reach_le other ring old
    · rw [fresh]
      exact Nat.le_of_eq whole.symm
  · rw [pointed, Option.some.injEq] at again
    subst again
    refine ⟨_, last, ?_, ?_, ?_⟩
    · rw [fresh]
      exact whole.symm
    · rw [fresh]
      exact Nat.le_succ_of_le (Nat.le_of_eq whole)
    · have double := indexed.shiftLeft_next current here fits
      rw [equal]
      change (index.nextBlockIndexCapacity <<< 1).toNat = 2 * index.nextBlockIndexCapacity.toNat
      rw [double, next]
  · obtain ⟨low, below, close, found⟩ := indexed.standing current here stands
    refine ⟨index.headers.length, _, pointed, last, ?_, ?_, ?_, kept found⟩
    · rw [fresh]
      exact Nat.max_le.mpr ⟨low, by omega⟩
    · rw [fresh]
      exact below
    · rw [fresh]
      change (slots.window pointer).top ≤ number + index.nextBlockIndexCapacity.toNat
      omega
  · obtain ⟨value, found⟩ := indexed.keyed first block stands number above below
    exact ⟨value, kept found⟩

/-- The entry behind the tail of the larger ring is a new one. -/
theorem grow_behind (fits : index.nextBlockIndexCapacity.toNat ≤ 2 ^ 58) :
    (index.larger pointer header).entry ((index.larger pointer header).mask
        (index.newBlockIndex.tails index.headers.length + 1)) = some index.entries.length ∧
      index.newBlockIndex.entries[index.entries.length]? = some ⟨INVALID_BLOCK_BASE, none⟩ := by
  obtain ⟨covers, _, next⟩ := indexed.ring current here
  have positive := covers.positive
  have larger := indexed.larger_covers current here fits
  have equal := newBlockIndex_eq current here
  have tail : index.newBlockIndex.tails index.headers.length =
      (header.capacity - 1) &&& (index.nextBlockIndexCapacity - 1) := by
    rw [equal]
    exact Function.update_self ..
  constructor
  · have behind := larger.behind_tail
    have enough : (slots.window pointer).top ≤
        2 * header.capacity.toNat * (slots.window pointer).top :=
      Nat.le_mul_of_pos_left _ (by omega)
    have place : (header.capacity.toNat + 2 * header.capacity.toNat * (slots.window pointer).top -
        (slots.window pointer).top + (slots.window pointer).top) %
          (2 * header.capacity.toNat) = header.capacity.toNat := by
      rw [Nat.sub_add_cancel (by omega), Nat.add_mul_mod_self_left, Nat.mod_eq_of_lt (by omega)]
    change _ = (_ + (slots.window pointer).top) % index.nextBlockIndexCapacity.toNat at behind
    rw [next, place] at behind
    rw [BlockIndexHeader.entry, tail, behind, BlockIndex.larger, List.getElem?_append_right]
    · rw [List.length_rotate, covers.length, Nat.sub_self, List.getElem?_range' positive]
      rfl
    · rw [List.length_rotate, covers.length]
  · rw [equal, List.getElem?_append_right (Nat.le_refl _), Nat.sub_self,
      List.getElem?_replicate_of_lt positive]

end Grow

/-- The ring of a new producer, whether memory for it was found or not. -/
theorem start (allocated : Bool) :
    Indexed (if allocated then BlockIndex.construct.newBlockIndex else .construct)
      ⟨fun _ => 0, fun _ => ⟨0, 0, 0, 0⟩, 0⟩ fun _ => none := by
  cases allocated with
  | false =>
      refine ⟨?_, ?_, ?_, ?_, ?_⟩
      · intro pointer header here
        cases here
      · intro pointer header here
        cases here
      · intro pointer current
        cases current
      · intro number block stands
        cases stands
      · intro first block stands
        cases stands
  | true =>
      have ring : ∀ {pointer : Nat} {header : BlockIndexHeader},
          BlockIndex.construct.newBlockIndex.header pointer = some header →
          pointer = 0 ∧ header = ⟨32, List.range' 0 32⟩ := by
        intro pointer header here
        cases pointer with
        | zero => exact ⟨rfl, (Option.some.inj here).symm⟩
        | succ pointer => cases here
      refine ⟨?_, ?_, ?_, ?_, ?_⟩
      · intro pointer header here
        obtain ⟨rfl, rfl⟩ := ring here
        refine ⟨⟨5, by decide, rfl⟩, rfl, List.nodup_range', ?_, ?_, Nat.le_refl 0, Nat.le_refl 0,
          by decide, by decide⟩
        · intro entry member
          exact (List.mem_range'_1.mp member).2
        · intro number _ below
          exact absurd below (Nat.not_lt_zero number)
      · intro pointer header here
        exact Nat.le_refl 0
      · intro pointer current
        cases current
        exact ⟨_, rfl, rfl, Nat.zero_le _, rfl⟩
      · intro number block stands
        cases stands
      · intro first block stands
        cases stands

end Indexed

end DmLockFree.ConcurrentQueue
